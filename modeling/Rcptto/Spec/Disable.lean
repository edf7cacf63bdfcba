import Rcptto.Native.Audit
import Rcptto.Spec.Quarantine

/-!
# Disabled identities

`Disable` withdraws an identity until `Enable`. Two paths do not respect it: `Quarantine`
overwrites the state, whoever calls it, and so does an `Emit` whose `Blocked` signals bring
the streak to the threshold. The quarantine then expires by itself. `Event.Spares` says
that an operation takes neither path.

An audit leaves out the identities that its snapshot saw disabled, so only an audit that
was already under way can quarantine one (`Fleet.Runs.later_audits_skip`).

## Key results

- `Event.effect_disabled_iff`: an operation keeps a disabled identity disabled if and only
  if it spares it
- `disabled_iff_spared`: the same over every execution with audits under way
-/

namespace Rcptto.Native

variable {F : Type} [Add F] [Sub F] [Mul F] [OfScientific F] [LinearOrder F]

/-- The event does not quarantine the identity `i`: it is no `Quarantine` of it, and no `Emit`
    whose `Blocked` signals bring its streak to the threshold. -/
def Event.Spares (e : Event F) (i : String) : Prop :=
  match e.op with
  | .quarantine id _ => id ≠ i
  | .emit signals =>
    ∀ r, e.pre.get? i = some r → ¬ Trips e.pre.quarantineThreshold r.blockStreak i signals
  | _ => True

/-- The event is no `Enable` of the identity `i` and no `Restore`. -/
def Event.KeepsOut (e : Event F) (i : String) : Prop :=
  e.op ≠ .enable i ∧ ¬ e.op.IsRestore

variable {e : Event F} {i : String} {r : Record F} {m m' : Manager F}

/-! ## One step -/

omit [LinearOrder F] in
/-- An operation keeps a disabled identity disabled if and only if it spares it. -/
theorem Event.effect_disabled_iff (hpre : e.pre.get? r.id = some r) (hd : r.state = .disabled)
    (hk : e.KeepsOut r.id) : (e.effect r).state = .disabled ↔ e.Spares r.id := by
  unfold Spares
  cases hc : e.op with
  | binding task =>
    have hstate : (r.reconcile e.pre.warmupStages.length e.now).state = r.state := by
      apply Record.reconcile_state_of_ne
      · rw [hd]; decide
      · rw [hd]; exact fun h => by cases h
    rw [(effect_binding_frame hc r).1, hstate]
    simp [hd]
  | emit signals =>
    obtain ⟨htrip, hkeep⟩ := r.applySignals_state e.pre.toTuning e.now signals
    simp only [effect, hc]
    constructor
    · intro hs r' hr' ht
      obtain rfl : r = r' := Option.some.inj (hpre.symm.trans hr')
      exact absurd ((htrip ht).1.symm.trans hs) (by simp)
    · intro hspare
      exact (hkeep (hspare r hpre)).1.trans hd
  | quarantine id reason =>
    -- `Quarantine` overwrites the state without looking at it
    simp only [effect, hc]
    by_cases hid : id = r.id
    · rw [if_pos hid]
      exact ⟨fun h => (by cases h), fun h => absurd hid h⟩
    · rw [if_neg hid]
      exact ⟨fun _ => hid, fun _ => hd⟩
  | enable id =>
    have hid : id ≠ r.id := fun h => hk.1 (by rw [hc, h])
    simp only [effect, hc]
    rw [if_neg hid]
    simp [hd]
  | restore states =>
    have hnr := hk.2
    rw [hc] at hnr
    exact absurd trivial hnr
  | disable id reason =>
    simp only [effect, hc]
    split
    · simp [Record.disable]
    · simp [hd]
  | setThresholds quarantine circuit => simp only [effect, hc]; simp [hd]
  | _ =>
    simp only [effect, hc]
    split <;> simp [Record.setOnline, Record.setSpec, hd]

/-- A disabled identity is not returned. -/
theorem Manager.Step.not_returns_of_disabled (h : m.Step e m') (hr : m.get? i = some r)
    (hd : r.state = .disabled) : e.returns i = false :=
  HeldUntil.not_returns ⟨.inl hd, fun hs => absurd (hd.symm.trans hs) (by simp)⟩ h hr le_rfl

/-! ## Executions -/

/-- An execution that spares a disabled identity leaves it disabled. -/
theorem Manager.Runs.disabled {es : List (Event F)} (h : m.Runs es m') (hr : m.get? i = some r)
    (hd : r.state = .disabled) (hk : ∀ e ∈ es, e.KeepsOut i) (hs : ∀ e ∈ es, e.Spares i) :
    ∃ r', m'.get? i = some r' ∧ r'.state = .disabled := by
  refine h.invariant (P := fun m => ∃ r, m.get? i = some r ∧ r.state = .disabled) ⟨r, hr, hd⟩ ?_
  rintro a e b he ⟨r, hr, hd⟩ hstep
  obtain rfl : r.id = i := a.pool.key_eq i r hr
  refine ⟨e.effect r, hstep.get? hr, ?_⟩
  exact (Event.effect_disabled_iff (by rw [hstep.1]; exact hr) hd (hk e he)).mpr (hs e he)

variable {s s₁ s' : Fleet F} {acts : List (Action F)}

/-- An action without a call leaves the manager alone. -/
theorem Fleet.Step.manager_of_none {a : Action F} (h : s.Step a s') (he : a.event = none) :
    s'.manager = s.manager := by
  unfold Fleet.Step at h
  cases a with
  | call e => cases he
  | auditSnapshot => rw [h]
  | auditCheck k listed =>
    obtain ⟨item, items, -, rfl⟩ := h
    rfl
  | auditQuarantine k e => cases he

/-- An action with a call is a step of the manager. -/
theorem Fleet.Step.manager_of_some {a : Action F} (h : s.Step a s') (he : a.event = some e) :
    s.manager.Step e s'.manager := by
  unfold Fleet.Step at h
  -- an audit calls the manager only to quarantine
  cases a with
  | call e' =>
    obtain rfl : e' = e := Option.some.inj he
    exact h.1
  | auditSnapshot => cases he
  | auditCheck k listed => cases he
  | auditQuarantine k e' =>
    obtain rfl : e' = e := Option.some.inj he
    obtain ⟨items, id, reason, -, -, hstep, -⟩ := h
    exact hstep

theorem Fleet.Runs.manager (h : s.Runs acts s') :
    s.manager.Runs (acts.filterMap Action.event) s'.manager :=
  Run.project Fleet.manager Action.event (fun _ _ _ hstep => hstep.manager_of_none)
    (fun _ _ _ _ hstep => hstep.manager_of_some) h

/-- The identity `i` is disabled in every state of an execution from `s` through `acts`. -/
def StaysDisabled (s : Fleet F) (acts : List (Action F)) (i : String) : Prop :=
  ∀ acts₁ acts₂ t, acts = acts₁ ++ acts₂ → s.Runs acts₁ t →
    ∃ r, t.manager.get? i = some r ∧ r.state = .disabled

/-- Disabled identities. After `Disable` of a registered identity, in every execution of the
    manager and its audits without `Enable` of it and without `Restore`: it is disabled in
    every state and returned by no `Binding`, if and only if every call spares it. -/
theorem disabled_iff_spared {d : Event F} {reason : String} (hd : s.Step (.call d) s₁)
    (hop : d.op = .disable i reason) (hr : s.manager.get? i = some r) (hrun : s₁.Runs acts s')
    (hk : ∀ a ∈ acts, ∀ e ∈ a.event, e.KeepsOut i) :
    (StaysDisabled s₁ acts i ∧ ∀ a ∈ acts, ∀ e ∈ a.event, e.returns i = false) ↔
      ∀ a ∈ acts, ∀ e ∈ a.event, e.Spares i := by
  have hid : r.id = i := s.manager.pool.key_eq i r hr
  have hr₁ : s₁.manager.get? i = some (r.disable reason) := by
    rw [hd.1.get? hr]
    simp only [Event.effect, hop, hid, if_true]
  -- the calls of a part of the execution are calls of the execution
  have hcalls : ∀ {P : Event F → Prop} {acts₁ : List (Action F)}, (∀ a ∈ acts₁, a ∈ acts) →
      (∀ a ∈ acts, ∀ e ∈ a.event, P e) → ∀ e ∈ acts₁.filterMap Action.event, P e := by
    intro P acts₁ hsub hP e he
    obtain ⟨a, ha, hev⟩ := List.mem_filterMap.mp he
    exact hP a (hsub a ha) e hev
  constructor
  · -- a call that does not spare the identity would show in the state after it
    rintro ⟨hstays, -⟩ a ha e he
    obtain ⟨acts₁, acts₂, rfl⟩ := List.append_of_mem ha
    obtain ⟨t, t', hrun₁, hstep, -⟩ := hrun.split_cons
    obtain ⟨rt, hrt, hdt⟩ := hstays acts₁ (a :: acts₂) t rfl hrun₁
    obtain ⟨rt', hrt', hdt'⟩ := hstays (acts₁ ++ [a]) acts₂ t' (by simp)
      (Run.snoc_iff.mpr ⟨t, hrun₁, hstep⟩)
    have hm := hstep.manager_of_some he
    obtain rfl : rt.id = i := t.manager.pool.key_eq i rt hrt
    rw [hm.get? hrt, Option.some.injEq] at hrt'
    refine (Event.effect_disabled_iff (by rw [hm.1]; exact hrt) hdt (hk a ha e he)).mp ?_
    rw [hrt']
    exact hdt'
  · intro hs
    have hdis : StaysDisabled s₁ acts i := by
      rintro acts₁ acts₂ t rfl hrun₁
      have hsub : ∀ a ∈ acts₁, a ∈ acts₁ ++ acts₂ := fun a ha => List.mem_append_left _ ha
      exact (Fleet.Runs.manager hrun₁).disabled hr₁ rfl (hcalls hsub hk) (hcalls hsub hs)
    refine ⟨hdis, fun a ha e he => ?_⟩
    obtain ⟨acts₁, acts₂, rfl⟩ := List.append_of_mem ha
    obtain ⟨t, t', hrun₁, hstep, -⟩ := hrun.split_cons
    obtain ⟨rt, hrt, hdt⟩ := hdis acts₁ (a :: acts₂) t rfl hrun₁
    have hm := hstep.manager_of_some he
    exact hm.not_returns_of_disabled hrt hdt

/-- The audit cannot quarantine the identity `i`: it sees it as disabled. -/
def Audit.Skips (a : Audit) (i : String) : Prop :=
  (∀ item ∈ a.items, item.id = i → item.disabled = true) ∧ ∀ c ∈ a.call, c.1 ≠ i

/-- An audit that skips an identity still does so after its next check. -/
theorem Audit.Skips.check {item : AuditItem} {items : List AuditItem} {listed : List String}
    (h : Audit.Skips { items := item :: items } i) :
    Audit.Skips { items := items, call := item.check listed } i := by
  refine ⟨fun it hit => h.1 it (List.mem_cons_of_mem _ hit), ?_⟩
  rintro ⟨id, reason⟩ hc rfl
  -- no call is made for an item that is marked as disabled
  unfold AuditItem.check at hc
  split at hc
  · cases hc
  · next hgo =>
    split at hc
    · cases hc
    · simp only [Option.mem_def, Option.some.injEq, Prod.mk.injEq] at hc
      exact hgo (.inr (h.1 item (by simp) hc.1))

omit [Add F] [Sub F] [Mul F] [OfScientific F] [LinearOrder F] in
/-- A snapshot marks an identity that is disabled. -/
theorem Manager.skips_auditItems (hr : m.get? i = some r) (hd : r.state = .disabled) :
    Audit.Skips { items := m.auditItems } i := by
  refine ⟨?_, fun c hc => by cases hc⟩
  rintro item hitem rfl
  simp only [auditItems, List.mem_filterMap, Option.map_eq_some_iff] at hitem
  obtain ⟨id, -, r', hr', rfl⟩ := hitem
  obtain rfl : r = r' := Option.some.inj (hr.symm.trans hr')
  simp [hd]

/-- While an identity stays disabled, no audit begun meanwhile quarantines it; only an audit
    that was under way before can. -/
theorem Fleet.Runs.later_audits_skip (h : s.Runs acts s') (hdis : StaysDisabled s acts i) :
    s.audits.length ≤ s'.audits.length ∧
      ∀ k a, s.audits.length ≤ k → s'.audits[k]? = some a → a.Skips i := by
  revert hdis
  refine h.history (I := fun acts s' => StaysDisabled s acts i →
    s.audits.length ≤ s'.audits.length ∧
      ∀ k a, s.audits.length ≤ k → s'.audits[k]? = some a → a.Skips i) ?_ ?_
  · intro _
    refine ⟨le_rfl, fun k a hk ha => ?_⟩
    rw [List.getElem?_eq_none hk] at ha
    cases ha
  · intro acts t act t' hrun ih hstep hdis
    obtain ⟨hlen, hold⟩ := ih fun acts₁ acts₂ t hacts =>
      hdis acts₁ (acts₂ ++ [act]) t (by simp [hacts])
    obtain ⟨r, hr, hd⟩ := hdis acts [act] t rfl hrun
    -- an audit that is replaced at its place, by one that skips the identity if it did before
    have hset : ∀ k₀ new, (∀ a, t.audits[k₀]? = some a → a.Skips i → new.Skips i) →
        ∀ k a, s.audits.length ≤ k → (t.audits.set k₀ new)[k]? = some a → a.Skips i := by
      intro k₀ new hnew k a hk ha
      rw [List.getElem?_set] at ha
      split at ha
      · next heq =>
        subst heq
        split at ha
        · next hlt =>
          rw [Option.some.injEq] at ha
          rw [← ha]
          obtain ⟨a₀, ha₀⟩ : ∃ a₀, t.audits[k₀]? = some a₀ := ⟨_, List.getElem?_eq_getElem hlt⟩
          exact hnew a₀ ha₀ (hold k₀ a₀ hk ha₀)
        · cases ha
      · exact hold k a hk ha
    cases act with
    | call e =>
      rw [hstep.2]
      exact ⟨hlen, hold⟩
    | auditSnapshot =>
      rw [show t' = _ from hstep]
      refine ⟨by simp only [List.length_append]; omega, fun k a hk ha => ?_⟩
      rw [List.getElem?_append] at ha
      split at ha
      · exact hold k a hk ha
      · -- the new audit has just seen the identity as disabled
        rw [List.mem_singleton.mp (List.mem_of_getElem? ha)]
        exact Manager.skips_auditItems hr hd
    | auditCheck k₀ listed =>
      obtain ⟨item, items, hk₀, rfl⟩ := hstep
      refine ⟨by simpa using hlen, hset _ _ fun a ha hskip => ?_⟩
      obtain rfl : _ = a := Option.some.inj (hk₀.symm.trans ha)
      exact hskip.check
    | auditQuarantine k₀ e =>
      -- the audit goes on with the rest of its items and no pending call
      obtain ⟨items, id, reason, hk₀, -, -, haudits⟩ := hstep
      rw [haudits]
      refine ⟨by simpa using hlen, hset _ _ fun a ha hskip => ?_⟩
      obtain rfl : _ = a := Option.some.inj (hk₀.symm.trans ha)
      exact ⟨hskip.1, fun c hc => by cases hc⟩

/-- One identity with an address to look up. -/
def auditConfig : Config ℚ where
  identities := [{ id := "a", ip := "192.0.2.1" }]
  healthAlpha := 0

/-- The event of a `Disable` of the identity `a`. -/
private def disableEvent (m : Manager ℚ) : Event ℚ :=
  { pre := m, now := 1, op := .disable "a" "manual", ret := none }

private theorem disableEvent_step (m : Manager ℚ) :
    m.Step (disableEvent m) (m.disable "a" "manual") := ⟨rfl, rfl⟩

/-- A `Binding` after a `Disable`. -/
theorem disabled_iff_spared_binding : ∃ (s s₁ s' : Fleet ℚ) (d b : Event ℚ),
    s.Step (.call d) s₁ ∧ d.op = .disable "a" "manual" ∧ s₁.Runs [.call b] s' ∧
    b.op = .binding gmailTask ∧ StaysDisabled s₁ [.call b] "a" ∧ b.returns "a" = false := by
  obtain ⟨⟨m', ret⟩, hexec⟩ := Option.isSome_iff_exists.mp
    (((Reachable.new auditConfig 0).step (disableEvent_step _) trivial).exec_isSome hour
      (.binding gmailTask))
  let m := Manager.new auditConfig 0
  let b : Event ℚ :=
    { pre := m.disable "a" "manual", now := hour, op := .binding gmailTask, ret := ret }
  have hd : Fleet.Step { manager := m } (.call (disableEvent m))
      { manager := m.disable "a" "manual" } := ⟨disableEvent_step m, rfl⟩
  have hb : Fleet.Step { manager := m.disable "a" "manual" } (.call b) { manager := m' } :=
    ⟨⟨rfl, hexec⟩, rfl⟩
  have hr : m.get? "a" = some (.fresh { id := "a", ip := "192.0.2.1" } 0) := rfl
  have hiff := disabled_iff_spared hd rfl hr (Run.singleton_iff.mpr hb)
    (by simp [Action.event, Event.KeepsOut, Op.IsRestore, b])
  obtain ⟨hstays, hret⟩ := hiff.mpr (by simp [Action.event, Event.Spares, b])
  exact ⟨_, _, _, _, b, hd, rfl, Run.singleton_iff.mpr hb, rfl, hstays,
    hret (.call b) (by simp) b rfl⟩

/-- An audit takes its snapshot; the identity is disabled; the lookup finds its address
    listed, and the audit quarantines it. Two hours later `Binding` returns it, although
    nobody has enabled it. -/
theorem returns_after_disable : ∃ (s s₁ s' : Fleet ℚ) (d b : Event ℚ) (acts : List (Action ℚ)),
    Fleet.Runs { manager := Manager.new auditConfig 0 } [.auditSnapshot] s ∧
    s.Step (.call d) s₁ ∧ d.op = .disable "a" "manual" ∧
    s₁.Runs (.auditCheck 0 ["dnsbl.example"] :: acts ++ [.call b]) s' ∧
    (∀ a ∈ acts ++ [.call b], ∀ e ∈ a.event, e.KeepsOut "a") ∧
    b.now = 2 * hour ∧ b.op = .binding gmailTask ∧ b.returns "a" = true := by
  let m := Manager.new auditConfig 0
  let m₁ := m.disable "a" "manual"
  let m₂ := m₁.quarantine 2 "a" "dnsbl:dnsbl.example"
  let q : Event ℚ :=
    { pre := m₁, now := 2, op := .quarantine "a" "dnsbl:dnsbl.example", ret := none }
  have hret : (m₂.binding (2 * hour) gmailTask).map Prod.snd =
      some (.ok { id := "a", helo := "", mailFrom := "", transport := {} }) := by
    decide +kernel
  obtain ⟨⟨m', ret⟩, hbind, hok⟩ := Option.map_eq_some_iff.mp hret
  let b : Event ℚ := { pre := m₂, now := 2 * hour, op := .binding gmailTask, ret := some ret }
  have hexec : m₂.exec (2 * hour) (.binding gmailTask) = some (m', some ret) := by
    simp only [Manager.exec, hbind, Option.map_some]
  -- the snapshot was taken before the identity was disabled
  let item : AuditItem := { id := "a", ip := "192.0.2.1", disabled := false }
  have hsnap : m.auditItems = [item] := by decide +kernel
  have hstart : Fleet.Step { manager := m } .auditSnapshot
      { manager := m, audits := [{ items := [item] }] } := by
    simp only [Fleet.Step, List.nil_append, hsnap]
  have hcheck : Fleet.Step { manager := m₁, audits := [{ items := [item] }] }
      (.auditCheck 0 ["dnsbl.example"])
      { manager := m₁, audits := [{ items := [], call := some ("a", "dnsbl:dnsbl.example") }] } :=
    ⟨item, [], rfl, by simp [AuditItem.check, item]⟩
  have hquarantine : Fleet.Step
      { manager := m₁, audits := [{ items := [], call := some ("a", "dnsbl:dnsbl.example") }] }
      (.auditQuarantine 0 q) { manager := m₂, audits := [{ items := [] }] } :=
    ⟨[], "a", "dnsbl:dnsbl.example", rfl, rfl, ⟨rfl, rfl⟩, rfl⟩
  have hbinding : Fleet.Step { manager := m₂, audits := [{ items := [] }] } (.call b)
      { manager := m', audits := [{ items := [] }] } := ⟨⟨rfl, hexec⟩, rfl⟩
  refine ⟨_, { manager := m₁, audits := [{ items := [item] }] }, _, disableEvent m, b,
    [.auditQuarantine 0 q], Run.singleton_iff.mpr hstart, ⟨disableEvent_step m, rfl⟩, rfl,
    .cons hcheck (.cons hquarantine (Run.singleton_iff.mpr hbinding)), ?_, rfl, rfl, ?_⟩
  · simp [Action.event, Event.KeepsOut, Op.IsRestore, q, b]
  · simp only [Event.returns, b]
    rw [show ret = _ from hok]
    rfl

end Rcptto.Native
