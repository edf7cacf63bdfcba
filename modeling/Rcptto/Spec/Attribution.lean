import Mathlib.Algebra.Order.Ring.Rat
import Rcptto.Native.Startup
import Rcptto.Native.Agents
import Rcptto.Spec.ReputationLoop

/-!
# Which identity feedback is filed for

`Emit` files a signal for the identity that the signal names. For a probe of this machine that
is the identity of its binding, which was charged. For a probe of an agent it is whatever the
agent sent, and nothing compares it with the identity that the probe was dispatched for: the
registry compares the two in health checks only.

## Key results

- `Manager.emit_only_iff`: when an `Emit` changes the feedback of one identity only
- `attribution_iff`: when every `Emit` of an execution does so for the identity of its probe
-/

namespace Rcptto.Native

variable {F : Type}

/-! ## What an `Emit` changes -/

/-- A kind that the manager knows. -/
def SignalKind.known : SignalKind → Bool
  | .other _ _ => false
  | _ => true

namespace Record

/-- The part of a record that feedback is about: health, breakers, block streak and lifecycle
    state. -/
def feedback (r : Record F) :
    (String → Option (Health F)) × (String → Option Circuit) × Int × State × Int :=
  (r.health, r.circuits, r.blockStreak, r.state, r.quarantinedUntil)

/-- How many outcomes were folded into a score. -/
def samples (health : String → Option (Health F)) (dest : String) : Int :=
  ((health dest).map (·.samples)).getD 0

variable [Add F] [Sub F] [Mul F] [OfScientific F]

/-- One sample more for the destination of the update. -/
theorem samples_updateHealth (r : Record F) (d dest : String) (good : Bool) (alpha : F) :
    samples (r.updateHealth d (·.observe good alpha)).health dest =
      samples r.health dest + if dest = d then 1 else 0 := by
  unfold samples updateHealth
  dsimp only
  by_cases hd : dest = d
  · subst hd
    rw [Function.update_self, if_pos rfl]
    cases r.health dest <;> rfl
  · rw [Function.update_of_ne hd, if_neg hd, add_zero]

/-- A signal of a known kind is an observation for its destination. -/
theorem health_applySignal (r : Record F) (t : Tuning F) (now : Int) {sig : Signal}
    (h : sig.kind.known = true) : ∃ good alpha, (r.applySignal t now sig).health =
      (r.updateHealth sig.destination (·.observe good alpha)).health := by
  unfold applySignal
  -- all failures but a block count half
  cases hkind : sig.kind with
  | accepted => exact ⟨true, t.alpha, rfl⟩
  | mailboxGone => exact ⟨true, t.alpha, rfl⟩
  | tempFail => exact ⟨false, t.alpha * 0.5, rfl⟩
  | blocked =>
    refine ⟨false, t.alpha, ?_⟩
    dsimp only
    split <;> rfl
  | connRefused => exact ⟨false, t.alpha * 0.5, rfl⟩
  | timeout => exact ⟨false, t.alpha * 0.5, rfl⟩
  | other text htext =>
    rw [hkind] at h
    cases h

/-- A signal of an unknown kind changes nothing. -/
theorem applySignal_of_not_known {t : Tuning F} {now : Int} {sig : Signal} (r : Record F)
    (h : sig.kind.known = false) : r.applySignal t now sig = r := by
  unfold applySignal
  cases hkind : sig.kind with
  | other text htext => rfl
  | _ =>
    rw [hkind] at h
    cases h

/-- A signal of a known kind is one sample for its destination. -/
theorem samples_applySignal (r : Record F) (t : Tuning F) (now : Int) (sig : Signal)
    (dest : String) : samples (r.applySignal t now sig).health dest =
      samples r.health dest + if sig.kind.known = true ∧ dest = sig.destination then 1 else 0 := by
  cases hknown : sig.kind.known with
  | false => simp [r.applySignal_of_not_known hknown]
  | true =>
    obtain ⟨good, alpha, hhealth⟩ := r.health_applySignal t now hknown
    rw [hhealth, samples_updateHealth]
    simp

/-- A batch without signals for the record that the manager knows leaves it alone. -/
theorem applySignals_eq_self {t : Tuning F} {now : Int} {signals : List Signal} (r : Record F)
    (h : ∀ sig ∈ signals, sig.egressID = r.id → sig.kind.known = false) :
    r.applySignals t now signals = r := by
  induction signals with
  | nil => rfl
  | cons sig signals ih =>
    have hrest := ih fun s hs => h s (List.mem_cons_of_mem _ hs)
    rw [applySignals_cons]
    split
    · next hid => rw [r.applySignal_of_not_known (h sig List.mem_cons_self hid), hrest]
    · exact hrest

/-- Signals do not take samples away. -/
theorem samples_le_applySignals (r : Record F) (t : Tuning F) (now : Int) (signals : List Signal)
    (dest : String) :
    samples r.health dest ≤ samples (r.applySignals t now signals).health dest := by
  induction signals generalizing r with
  | nil => exact le_rfl
  | cons sig signals ih =>
    rw [applySignals_cons]
    refine le_trans ?_ (ih _)
    split
    · rw [samples_applySignal]
      split <;> omega
    · exact le_rfl

/-- A signal for the record that the manager knows changes its health. -/
theorem health_applySignals_ne {t : Tuning F} {now : Int} {signals : List Signal} {sig : Signal}
    (r : Record F) (hmem : sig ∈ signals) (hid : sig.egressID = r.id)
    (hknown : sig.kind.known = true) : (r.applySignals t now signals).health ≠ r.health := by
  -- the number of samples for its destination has grown
  have hlt : samples r.health sig.destination <
      samples (r.applySignals t now signals).health sig.destination := by
    obtain ⟨before, after, rfl⟩ := List.append_of_mem hmem
    rw [applySignals_append, applySignals_cons, id_applySignals, if_pos hid]
    have hbefore := samples_le_applySignals r t now before sig.destination
    have hsig := samples_applySignal (r.applySignals t now before) t now sig sig.destination
    have hafter := samples_le_applySignals
      ((r.applySignals t now before).applySignal t now sig) t now after sig.destination
    rw [if_pos ⟨hknown, rfl⟩] at hsig
    omega
  intro hhealth
  rw [hhealth] at hlt
  exact lt_irrefl _ hlt

end Record

/-- The feedback of an identity, if it is registered. -/
def Manager.feedback (m : Manager F) (id : String) := (m.get? id).map Record.feedback

/-- The signals that count are about this identity. -/
def About (m : Manager F) (signals : List Signal) (id : String) : Prop :=
  ∀ sig ∈ signals, sig.kind.known = true → (m.get? sig.egressID).isSome → sig.egressID = id

variable [Add F] [Sub F] [Mul F] [OfScientific F]

/-- An `Emit` changes the feedback of one identity only exactly if the signals that count are
    about it. -/
theorem Manager.emit_only_iff (m : Manager F) (now : Int) (signals : List Signal) (id : String) :
    (∀ i, i ≠ id → (m.emit now signals).feedback i = m.feedback i) ↔ About m signals id := by
  constructor
  · intro honly sig hsig hknown hregistered
    by_contra hne
    -- the record of the other identity has one sample more
    obtain ⟨r, hr⟩ := Option.isSome_iff_exists.mp hregistered
    have hfeedback := honly sig.egressID hne
    rw [Manager.feedback, Manager.feedback, Manager.get?_emit hr, hr] at hfeedback
    have hhealth := congrArg Prod.fst (Option.some.inj hfeedback)
    exact r.health_applySignals_ne hsig (m.pool.key_eq _ _ hr).symm hknown hhealth
  · intro habout i hi
    rw [Manager.feedback, Manager.feedback]
    cases hr : m.get? i with
    | none => rw [Manager.get?_emit_none hr]
    | some r =>
      have hid : r.id = i := m.pool.key_eq _ _ hr
      rw [Manager.get?_emit hr, r.applySignals_eq_self]
      intro sig hsig hsigid
      cases hknown : sig.kind.known with
      | false => rfl
      | true =>
        have hregistered : (m.get? sig.egressID).isSome := by
          rw [hsigid, hid, hr]
          rfl
        exact absurd ((hsigid.trans hid).symm.trans (habout sig hsig hknown hregistered)) hi

/-! ## The control plane -/

/-- Health checks do not change where probes are sent. -/
theorem Agent.Registry.engineFor_check (r : Agent.Registry) (id : String)
    (answer : Except String Agent.HealthResponse) (now : Int) (i : String) :
    (r.check id answer now).1.engineFor i = r.engineFor i := by
  unfold Agent.Registry.check
  split
  · rfl
  · next a ha =>
    unfold Agent.Registry.engineFor
    dsimp only
    by_cases hi : i = id
    · subst hi
      rw [OrderedMap.get?_modify_self, Option.map_map]
      simp [Function.comp_def]
    · rw [OrderedMap.get?_modify_of_ne hi]

namespace ControlPlane

variable [LinearOrder F] {l l' : ControlPlane F} {a : PlaneAction F} {as : List (PlaneAction F)}

/-- If the step is an `Emit`, it changes the feedback of the identity of its probe only. -/
def Attributed (l : ControlPlane F) (a : PlaneAction F) (l' : ControlPlane F) : Prop :=
  match a with
  | .loop (.emit _ p _) =>
    ∀ i, i ≠ p.binding.id → l'.loop.manager.feedback i = l.loop.manager.feedback i
  | _ => True

/-- If the step is an `Emit` of what an agent answered, the signals that count are about the
    identity that the probe was dispatched for. -/
def Truthful (l : ControlPlane F) (a : PlaneAction F) : Prop :=
  match a with
  | .loop (.emit _ p _) =>
    (l.registry.engineFor p.binding.id).isSome → About l.loop.manager p.signals p.binding.id
  | _ => True

/-- The finished probes of this machine have signals about their own identity. -/
def Inv (l : ControlPlane F) : Prop :=
  ∀ p ∈ l.loop.finished, l.registry.engineFor p.binding.id = none →
    ∀ sig ∈ p.signals, sig.egressID = p.binding.id

/-- One step: finished probes of this machine have signals for their own identity. -/
theorem Inv.step (hinv : l.Inv) (h : l.Step a l') : l'.Inv := by
  unfold ControlPlane.Step at h
  cases a with
  | loop a =>
    obtain ⟨-, hloop, hregistry, -⟩ := h
    intro p hp hlocal
    rw [hregistry] at hlocal
    -- what the engine of this machine reports is sound
    rcases hloop.mem_finished hp with hp | ⟨hsound, -⟩
    · exact hinv p hp hlocal
    · exact hsound.egressID
  | answer k response =>
    obtain ⟨t, b, -, hremote, rfl⟩ := h
    intro p hp hlocal
    rcases List.mem_append.mp hp with hp | hp
    · exact hinv p hp hlocal
    · -- an answer belongs to an identity that is not of this machine
      obtain ⟨resp, -, rfl⟩ := List.mem_map.mp hp
      rw [hlocal] at hremote
      cases hremote
  | check id answer now =>
    subst h
    intro p hp hlocal
    rw [Agent.Registry.engineFor_check] at hlocal
    exact hinv p hp hlocal
  | callback k e =>
    obtain ⟨rest, -, -, hl'⟩ := h
    rw [hl']
    exact hinv
  | manage e =>
    obtain ⟨-, -, hl'⟩ := h
    rw [hl']
    exact hinv

/-- The executions in which every `Emit` changes the feedback of the identity of its probe only. -/
abbrev AttributedRuns (l : ControlPlane F) (as : List (PlaneAction F)) (l' : ControlPlane F) :
    Prop :=
  Run (fun l a l' => l.Attributed a l' ∧ l.Step a l') l as l'

/-- The executions in which agents report about the identities that they are asked for. -/
abbrev TruthfulRuns (l : ControlPlane F) (as : List (PlaneAction F)) (l' : ControlPlane F) : Prop :=
  Run (fun l a l' => l.Truthful a ∧ l.Step a l') l as l'

/-- A step attributes its signals rightly if the agents involved are truthful. -/
theorem attributed_iff (hinv : l.Inv) (h : l.Step a l') : l.Attributed a l' ↔ l.Truthful a := by
  unfold ControlPlane.Step at h
  cases a with
  | loop a =>
    -- only an `emit` changes what is known of an identity
    cases a with
    | emit k p e =>
      obtain ⟨-, ⟨hk, hop, ⟨-, hexec⟩, -⟩, -⟩ := h
      have hmanager : l'.loop.manager = l.loop.manager.emit e.now p.signals := by
        rw [hop] at hexec
        exact (Prod.mk.inj (Option.some.inj hexec)).1.symm
      have hemit : l.Attributed (.loop (.emit k p e)) l' ↔
          About l.loop.manager p.signals p.binding.id := by
        rw [← Manager.emit_only_iff _ e.now, ← hmanager]
        rfl
      rw [hemit]
      constructor
      · exact fun habout _ => habout
      · intro htruthful
        -- for a probe of this machine, what the agents do does not matter
        cases hengine : l.registry.engineFor p.binding.id with
        | none => exact fun sig hsig _ _ => hinv p (List.mem_of_getElem? hk) hengine sig hsig
        | some client => exact htruthful (by rw [hengine]; rfl)
    | _ => exact Iff.rfl
  | _ => exact Iff.rfl

end ControlPlane

/-- In an execution that starts with no signals waiting, every `Emit` changes health, breakers,
    block streak and lifecycle state of the identity of its probe only, exactly if the agents
    report about the identities that they are asked for. -/
theorem attribution_iff [LinearOrder F] {l l' : ControlPlane F} {as : List (PlaneAction F)}
    (h : l.loop.finished = []) : l.AttributedRuns as l' ↔ l.TruthfulRuns as l' := by
  have hinv : l.Inv := by
    intro p hp
    rw [h] at hp
    cases hp
  exact Run.restrict_iff (P := ControlPlane.Inv) hinv (fun _ _ _ hinv _ hstep => hinv.step hstep)
    fun _ _ _ hinv hstep => ControlPlane.attributed_iff hinv hstep

/-! ## A restarted agent -/

/-- An agent that was started under this id. -/
def agentAs (id : String) : Agent.Server where
  identity := { id := id, ip := "192.0.2.1", helo := "mail.example.org" }
  engine := Engine.new {}
  token := "secret"

/-- The server after start-up, with two agents configured. -/
def pairPlane : ControlPlane ℚ where
  loop := { manager := startUp "mx.example.org" "verify@example.org" 0 [] [("w1", 0), ("w2", 0)] }
  registry :=
    match Agent.Registry.new [⟨"w1", "https://a.example.org", "secret"⟩,
      ⟨"w2", "https://b.example.org", "secret"⟩] with
    | .ok r => r
    | .error _ => .empty

/-- A task to probe. -/
def pairTask : Task where
  email := "a@example.net"
  normalized := "a@example.net"
  domain := "example.net"
  provider := "custom"
  mx := ["mx.example.net"]

/-- Every mail server turns the probe away with its banner. -/
def hostileEnv : Engine.Env where
  network _ := some fun _ => .reply 554 "no service" (by decide)
  now := 0
  random := none

/-- The agent configured as `w1` passes a health check. Two probes are dispatched, the first one
    locally and the second one for `w1`, and `agent` is what answers the latter. -/
def pairScript (agent : Agent.Server) : List (PlaneCall ℚ) :=
  [.check "w1" (.ok (agentAs "w1").handleHealth) 0, .callback 0 0, .callback 0 0,
    .binding 0 pairTask, .binding 0 pairTask,
    .answer 1 (agent.handleVerify hostileEnv (Agent.Client.request pairTask)).toOption]

/-- The identities that the signals of a probe name. -/
def Probe.named (p : Probe) : String × List String := (p.binding.id, p.signals.map (·.egressID))

/-- The block streak of an identity. -/
def Manager.streak (m : Manager F) (id : String) : Option Int := (m.get? id).map (·.blockStreak)

/-- Whether the action is an `Emit`. -/
def PlaneAction.isEmit : PlaneAction F → Bool
  | .loop (.emit _ _ _) => true
  | _ => false

omit [Add F] [Sub F] [Mul F] [OfScientific F] in
theorem Manager.streak_eq_map_feedback (m : Manager F) (id : String) :
    m.streak id = (m.feedback id).map fun f => f.2.2.1 := by
  rw [Manager.streak, Manager.feedback, Option.map_map]
  rfl

/-- A probe that is finished can be reported. -/
theorem ControlPlane.exists_emit [LinearOrder F] {l : ControlPlane F} {p : Probe}
    (h : l.loop.finished = [p]) (now : Int) : ∃ e l', l.Step (.loop (.emit 0 p e)) l' ∧
      l'.loop.manager = l.loop.manager.emit now p.signals := by
  have hexec : (l.exec (.emit now 0)).isSome := by
    rw [ControlPlane.exec, h]
    rfl
  obtain ⟨⟨a, l'⟩, hexec⟩ := Option.isSome_iff_exists.mp hexec
  have hstep := ControlPlane.step_of_exec hexec
  rw [ControlPlane.exec, h] at hexec
  cases hexec
  exact ⟨_, _, hstep, rfl⟩

/-- The agent is still `w1` when it answers. -/
theorem attribution_iff_pair : ∃ as l p e l',
    pairPlane.perform (pairScript (agentAs "w1")) = some (as, l) ∧
    p.named = ("w1", ["w1"]) ∧
    pairPlane.AttributedRuns (as ++ [.loop (.emit 0 p e)]) l' := by
  have hnamed : (pairPlane.perform (pairScript (agentAs "w1"))).map
      (fun q => (q.1.any (·.isEmit), q.2.loop.finished.map Probe.named)) =
        some (false, [("w1", ["w1"])]) := by decide +kernel
  obtain ⟨⟨as, l⟩, hperform, hobserved⟩ := Option.map_eq_some_iff.mp hnamed
  obtain ⟨hquiet, hfinished⟩ := Prod.mk.inj hobserved
  obtain ⟨p, hp, hname⟩ := List.map_eq_singleton_iff.mp hfinished
  obtain ⟨hid, hsignals⟩ := Prod.mk.inj hname
  obtain ⟨e, l', hstep, -⟩ := ControlPlane.exists_emit hp 0
  refine ⟨as, l, p, e, l', hperform, hname, (attribution_iff rfl).mpr ?_⟩
  -- nothing is emitted before, and the one signal names the identity of the binding
  refine Run.snoc_iff.mpr ⟨l, (ControlPlane.runs_of_perform hperform).restrict ?_, ?_, hstep⟩
  · intro l₁ a l₂ ha _
    have hemit : a.isEmit = false := by simpa using List.any_eq_false.mp hquiet a ha
    unfold ControlPlane.Truthful
    split
    · cases hemit
    · trivial
  · intro _ sig hsig _ _
    have hmem : sig.egressID ∈ p.signals.map (·.egressID) := List.mem_map_of_mem hsig
    rw [hsignals, List.mem_singleton] at hmem
    rw [hmem, hid]

/-- The agent that is configured as `w1` is started anew under the id `w2` before it answers: the
    probe is charged to `w1`, and the block counts against `w2`. -/
theorem foreign_feedback : ∃ as l p e l',
    pairPlane.perform (pairScript (agentAs "w2")) = some (as, l) ∧ pairPlane.Runs as l ∧
    l.Step (.loop (.emit 0 p e)) l' ∧ p.binding.id = "w1" ∧
    l.loop.manager.streak "w2" = some 0 ∧ l'.loop.manager.streak "w2" = some 1 ∧
    ¬ l.Attributed (.loop (.emit 0 p e)) l' := by
  have hnamed : (pairPlane.perform (pairScript (agentAs "w2"))).map
      (fun q => q.2.loop.finished.map Probe.named) = some [("w1", ["w2"])] := by decide +kernel
  have hstreak : (pairPlane.perform (pairScript (agentAs "w2"))).map
      (fun q => (q.2.loop.manager.streak "w2", q.2.loop.finished.map fun p =>
        (q.2.loop.manager.emit 0 p.signals).streak "w2")) = some (some 0, [some 1]) := by
    decide +kernel
  obtain ⟨⟨as, l⟩, hperform, hfinished⟩ := Option.map_eq_some_iff.mp hnamed
  rw [hperform, Option.map_some, Option.some.injEq, Prod.mk.injEq] at hstreak
  obtain ⟨hbefore, hafter⟩ := hstreak
  obtain ⟨p, hp, hname⟩ := List.map_eq_singleton_iff.mp hfinished
  dsimp only at hp hbefore hafter
  rw [hp, List.map_singleton, List.singleton_inj] at hafter
  have hid : p.binding.id = "w1" := congrArg Prod.fst hname
  obtain ⟨e, l', hstep, hmanager⟩ := ControlPlane.exists_emit hp 0
  rw [← hmanager] at hafter
  refine ⟨as, l, p, e, l', hperform, ControlPlane.runs_of_perform hperform, hstep, hid, hbefore,
    hafter, ?_⟩
  -- the streak of `w2` is a part of the feedback that should have been left alone
  intro hattributed
  have hfeedback := hattributed "w2" (by rw [hid]; decide)
  rw [Manager.streak_eq_map_feedback, hfeedback, ← Manager.streak_eq_map_feedback,
    hbefore] at hafter
  cases hafter

end Rcptto.Native
