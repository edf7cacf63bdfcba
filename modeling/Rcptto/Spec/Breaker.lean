import Rcptto.Spec.Reachable

/-!
# Circuit breakers over executions

The breaker of an identity and a destination is written by the signals for that pair
and by the eligibility check of `Binding`, and by nothing else (`Event.effect_circuits`).

A failure opens it for the cool-down, but any success closes it at once, also the success
of a probe that was sent before it opened; `Cooling` is what keeps the identity out until
then. After the cool-down the breaker is half-open and lets every probe through until the
next signal: it is the rest of the eligibility check and the ranking that decide whether
there is more than one trial.

## Key results

- `Event.effect_circuits`: what an operation does to one breaker
- `not_returns_of_opened`: the cool-down is honoured if no success arrives meanwhile
- `Manager.Step.returns_iff`: which identity a `Binding` returns
- `single_trial_iff`: when there is at most one trial before the next signal
-/

namespace Rcptto.Native

variable {F : Type} [Add F] [Sub F] [Mul F] [OfScientific F] [LinearOrder F]

variable {r : Record F} {t : Tuning F} {e : Event F} {m m' : Manager F} {i d : String} {now : Int}

/-! ## One breaker -/

/-- What a signal for the pair does to its breaker; the breaker is created on demand. -/
def Circuit.applySignal (c : Option Circuit) (t : Tuning F) (now : Int) (kind : SignalKind) :
    Option Circuit :=
  if kind.isSuccess then some (c.getD {}).onSuccess
  else if kind.isFailure then
    some ((c.getD {}).onFailure now t.circuitThreshold t.circuitCooldown)
  else c

omit [LinearOrder F] in
/-- A signal moves the breaker of its destination only. -/
theorem Record.applySignal_circuits (sig : Signal) : (r.applySignal t now sig).circuits d =
    if sig.destination = d then Circuit.applySignal (r.circuits d) t now sig.kind
    else r.circuits d := by
  have hupd : ∀ f : Circuit → Circuit, Function.update r.circuits sig.destination
      (some (f ((r.circuits sig.destination).getD {}))) d =
      if sig.destination = d then some (f ((r.circuits d).getD {})) else r.circuits d := by
    intro f
    by_cases hd : sig.destination = d
    · subst hd
      simp
    · rw [Function.update_of_ne (Ne.symm hd), if_neg hd]
  unfold applySignal
  -- a temporary failure and a signal of an unknown kind leave the breakers alone
  cases sig.kind with
  | blocked =>
    dsimp only [updateHealth, updateCircuit]
    rw [apply_ite (fun r : Record F => r.circuits d), ite_self]
    exact hupd (·.onFailure now t.circuitThreshold t.circuitCooldown)
  | tempFail => simp [updateHealth, Circuit.applySignal, SignalKind.isSuccess, SignalKind.isFailure]
  | other text h => simp [Circuit.applySignal, SignalKind.isSuccess, SignalKind.isFailure]
  | connRefused | timeout => exact hupd (·.onFailure now t.circuitThreshold t.circuitCooldown)
  | accepted | mailboxGone => exact hupd (·.onSuccess)

/-- The signals of a batch that are about the pair, applied to its breaker. -/
def Circuit.applySignals (c : Option Circuit) (t : Tuning F) (now : Int) (i d : String)
    (signals : List Signal) : Option Circuit :=
  signals.foldl (fun c sig =>
    if sig.egressID = i ∧ sig.destination = d then Circuit.applySignal c t now sig.kind else c) c

omit [Add F] [Sub F] [Mul F] [OfScientific F] [LinearOrder F] in
/-- The last signal is applied last. -/
theorem Circuit.applySignals_snoc (c : Option Circuit) (t : Tuning F) (now : Int) (i d : String)
    (signals : List Signal) (sig : Signal) :
    Circuit.applySignals c t now i d (signals ++ [sig]) =
      if sig.egressID = i ∧ sig.destination = d then
        Circuit.applySignal (Circuit.applySignals c t now i d signals) t now sig.kind
      else Circuit.applySignals c t now i d signals :=
  List.foldl_append ..

omit [LinearOrder F] in
/-- The breaker after some signals depends on those for its identity and destination. -/
theorem Record.applySignals_circuits (signals : List Signal) :
    (r.applySignals t now signals).circuits d =
      Circuit.applySignals (r.circuits d) t now r.id d signals := by
  induction signals using List.reverseRecOn with
  | nil => rfl
  | append_singleton signals sig ih =>
    rw [applySignals_snoc, Circuit.applySignals_snoc, ← ih]
    by_cases hid : sig.egressID = r.id
    · rw [if_pos hid, applySignal_circuits]
      simp [hid]
    · rw [if_neg hid]
      simp [hid]

/-- What an event does to the breaker of a pair whose record is `r`. -/
def Event.circuitEffect (e : Event F) (r : Record F) (d : String) : Option Circuit :=
  match e.op with
  | .binding task =>
    let r' := r.reconcile e.pre.warmupStages.length e.now
    if destOf task = d ∧ ¬ (r'.Withdrawn ∨ r'.online = false) then
      (r.circuits d).map fun c => (c.allow e.now).2
    else r.circuits d
  | .emit signals => Circuit.applySignals (r.circuits d) e.pre.toTuning e.now r.id d signals
  | _ => r.circuits d

omit [LinearOrder F] in
/-- What an event does to a breaker. -/
theorem Event.effect_circuits : (e.effect r).circuits d = e.circuitEffect r d := by
  unfold circuitEffect
  cases hc : e.op with
  | binding task =>
    -- the charge of a returned identity does not touch its breakers
    have hcharge : (e.effect r).circuits d =
        ((r.reconcile e.pre.warmupStages.length e.now).touch (destOf task) e.now).circuits d := by
      rw [effect_binding hc]
      split <;> rfl
    rw [hcharge]
    dsimp only
    split
    · next h =>
      obtain ⟨rfl, hav⟩ := h
      rw [Record.touch_circuits_self hav, Record.reconcile_circuits]
    · next h =>
      by_cases hd : destOf task = d
      · -- its breaker is looked at only if it is available otherwise
        have hav : (r.reconcile e.pre.warmupStages.length e.now).Withdrawn ∨
            (r.reconcile e.pre.warmupStages.length e.now).online = false := by
          by_contra hav
          exact h ⟨hd, hav⟩
        rw [Record.touch_of_withdrawn_or_offline hav, Record.reconcile_circuits]
      · rw [Record.touch_circuits_of_ne (Ne.symm hd), Record.reconcile_circuits]
  | emit signals =>
    simp only [effect, hc]
    exact Record.applySignals_circuits signals
  | restore states =>
    simp only [effect, hc]
    refine congrFun (List.foldlRecOn (motive := fun r' : Record F => r'.circuits = r.circuits)
      states _ rfl fun r' hr' st _ => ?_) d
    split
    · exact hr'
    · exact hr'
  | setThresholds quarantine circuit => simp only [effect, hc]
  | _ =>
    simp only [effect, hc]
    split <;> rfl

/-! ## The cool-down -/

/-- The breaker is open, at least until `till`. -/
def OpenUntil (till : Int) (c : Option Circuit) : Prop :=
  ∃ c' ∈ c, c'.state = .opened ∧ till ≤ c'.openUntil

/-- The event does not cut the cool-down of the pair short, if that runs from `opened` to
    `till`: it emits no success for the pair, and the clock does not go back (no failure
    before `opened`, no `Binding` after `till`). -/
def Event.Quiet (e : Event F) (i d : String) (opened till : Int) : Prop :=
  match e.op with
  | .emit signals => ∀ sig ∈ signals, sig.egressID = i → sig.destination = d →
      sig.kind.isSuccess = false ∧ (sig.kind.isFailure = true → opened ≤ e.now)
  | .binding task => destOf task = d → e.now ≤ till
  | _ => True

namespace OpenUntil

variable {till : Int} {c : Option Circuit}

omit [Add F] [Sub F] [Mul F] [OfScientific F] [LinearOrder F] in
/-- A breaker stays open over every signal but a success. -/
theorem applySignal {kind : SignalKind} (h : OpenUntil till c) (hkind : kind.isSuccess = false)
    (hcool : kind.isFailure = true → till ≤ now + t.circuitCooldown) :
    OpenUntil till (Circuit.applySignal c t now kind) := by
  obtain ⟨c', rfl, hs, hle⟩ := h
  unfold Circuit.applySignal
  rw [if_neg (by rw [hkind]; exact Bool.false_ne_true)]
  -- a failure may set a new end of the cool-down, and any other signal does nothing
  split
  · next hfail =>
    refine ⟨_, rfl, ?_⟩
    simp only [Option.getD_some, Circuit.onFailure, hs]
    split
    · exact ⟨rfl, hcool hfail⟩
    · exact ⟨rfl, hle⟩
  · exact ⟨c', rfl, hs, hle⟩

omit [Add F] [Sub F] [Mul F] [OfScientific F] [LinearOrder F] in
/-- A breaker stays open over any number of such signals. -/
theorem applySignals {signals : List Signal} (h : OpenUntil till c)
    (hsig : ∀ sig ∈ signals, sig.egressID = i → sig.destination = d →
      sig.kind.isSuccess = false ∧
        (sig.kind.isFailure = true → till ≤ now + t.circuitCooldown)) :
    OpenUntil till (Circuit.applySignals c t now i d signals) := by
  refine List.foldlRecOn signals _ h fun c hc sig hmem => ?_
  split
  · next hpair =>
    obtain ⟨hno, hcool⟩ := hsig sig hmem hpair.1 hpair.2
    exact hc.applySignal hno hcool
  · exact hc

omit [LinearOrder F] in
/-- A quiet event leaves the breaker open. -/
theorem effect {opened : Int} (h : OpenUntil till (r.circuits d))
    (hq : e.Quiet r.id d opened till) (htill : till = opened + e.pre.circuitCooldown) :
    OpenUntil till ((e.effect r).circuits d) := by
  unfold Event.Quiet at hq
  rw [Event.effect_circuits, Event.circuitEffect]
  cases hc : e.op with
  | binding task =>
    simp only [hc] at hq ⊢
    split
    · next hd =>
      -- inside the cool-down the question changes nothing
      obtain ⟨c, hcirc, hs, hle⟩ := h
      have hnow := hq hd.1
      rw [Option.mem_def] at hcirc
      refine ⟨c, ?_, hs, hle⟩
      rw [hcirc, Option.map_some, Circuit.allow, if_pos hs, if_neg (by omega)]
      rfl
    · exact h
  | emit signals =>
    simp only [hc] at hq ⊢
    refine h.applySignals fun sig hmem hid hd => ?_
    obtain ⟨hno, hfail⟩ := hq sig hmem hid hd
    exact ⟨hno, fun hf => by have := hfail hf; omega⟩
  | _ => exact h

/-- An open breaker keeps its identity out. -/
theorem not_returns {task : Task} (h : OpenUntil till (r.circuits (destOf task)))
    (hstep : m.Step e m') (hop : e.op = .binding task) (hr : m.get? i = some r)
    (hnow : e.now ≤ till) : e.returns i = false := by
  apply hstep.not_returns_of_not_eligible
  intro task' r' hop' hr' hel
  obtain rfl : task = task' := Op.binding.inj (hop.symm.trans hop')
  obtain rfl : r = r' := Option.some.inj (hr.symm.trans hr')
  obtain ⟨c, hc, hs, hle⟩ := h
  have hallow := hel.breaker
  unfold Record.BreakerAllows at hallow
  rw [Record.reconcile_circuits] at hallow
  exact absurd ⟨hs, hnow.trans hle⟩ (hallow c hc)

/-- An open breaker keeps its identity out through quiet events. -/
theorem not_returns_of_runs {opened : Int} {fs : List (Event F)} {b : Event F} {m'' : Manager F}
    {task : Task} (h : OpenUntil till (r.circuits d)) (hr : m.get? i = some r)
    (hrun : m.Runs (fs ++ [b]) m'') (hfs : ∀ f ∈ fs, f.Quiet i d opened till)
    (htill : till = opened + m.circuitCooldown) (hb : b.op = .binding task) (hd : destOf task = d)
    (hnow : b.now ≤ till) : b.returns i = false := by
  obtain ⟨m₁, hrun₁, hbstep⟩ := Run.snoc_iff.mp hrun
  have hinv : m₁.circuitCooldown = m.circuitCooldown ∧ ∃ r₁, m₁.get? i = some r₁ ∧
      OpenUntil till (r₁.circuits d) := by
    -- the cool-down is fixed, so a failure in between does not bring the end forward
    refine hrun₁.invariant (P := fun m₁ => m₁.circuitCooldown = m.circuitCooldown ∧
      ∃ r₁, m₁.get? i = some r₁ ∧ OpenUntil till (r₁.circuits d)) ⟨rfl, r, hr, h⟩ ?_
    rintro a f a' hf ⟨hcool, r₁, hr₁, hopen₁⟩ hfstep
    obtain rfl : r₁.id = i := a.pool.key_eq i r₁ hr₁
    refine ⟨hfstep.fixed_tuning.1.trans hcool, f.effect r₁, hfstep.get? hr₁, ?_⟩
    exact hopen₁.effect (hfs f hf) (by rw [hfstep.1, hcool, htill])
  obtain ⟨-, r₁, hr₁, hopen₁⟩ := hinv
  rw [← hd] at hopen₁
  exact hopen₁.not_returns hbstep hb hr₁ hnow

end OpenUntil

omit [Add F] [Sub F] [Mul F] [OfScientific F] [LinearOrder F] in
/-- A signal that opens a breaker opens it for the cool-down. -/
theorem Circuit.openUntil_of_opens {c : Option Circuit} {kind : SignalKind}
    (hbefore : ∀ c' ∈ c, c'.state ≠ .opened)
    (hafter : ∃ c' ∈ Circuit.applySignal c t now kind, c'.state = .opened) :
    OpenUntil (now + t.circuitCooldown) (Circuit.applySignal c t now kind) := by
  obtain ⟨c', hc', hs⟩ := hafter
  refine ⟨c', hc', hs, ?_⟩
  -- a success closes and a neutral signal changes nothing, so it was a failure
  unfold applySignal at hc'
  split at hc'
  · rw [Option.mem_some_iff] at hc'
    rw [← hc'] at hs
    cases hs
  · split at hc'
    · rw [Option.mem_some_iff] at hc'
      have hne : (c.getD {}).state ≠ .opened := by
        cases c with
        | none => exact fun h => by cases h
        | some c => exact hbefore c rfl
      rw [← hc'] at hs ⊢
      simp only [onFailure] at hs ⊢
      split at hs
      · next hcond => rw [if_pos hcond]
      · exact absurd hs hne
    · exact absurd hs (hbefore c' hc')

/-- The cool-down of a breaker. The `Emit` `e` opens the breaker of `i` and `d` with its
    signal `sig`. If no success for the pair follows it, neither in the same batch nor before
    the `Binding` `b`, then `b` does not return `i` for `d` within the cool-down. -/
theorem not_returns_of_opened {s₁ s₂ : List Signal} {sig : Signal} {fs : List (Event F)}
    {b : Event F} {m'' : Manager F} {task : Task} (hstep : m.Step e m')
    (hop : e.op = .emit (s₁ ++ sig :: s₂)) (hr : m.get? i = some r)
    (hsig : sig.egressID = i ∧ sig.destination = d)
    (hbefore : ∀ c ∈ (r.applySignals m.toTuning e.now s₁).circuits d, c.state ≠ .opened)
    (hafter : ∃ c ∈ (r.applySignals m.toTuning e.now (s₁ ++ [sig])).circuits d,
      c.state = .opened)
    (hrest : ∀ s ∈ s₂, s.egressID = i → s.destination = d → s.kind.isSuccess = false)
    (hrun : m'.Runs (fs ++ [b]) m'')
    (hfs : ∀ f ∈ fs, f.Quiet i d e.now (e.now + m.circuitCooldown))
    (hb : b.op = .binding task) (hd : destOf task = d)
    (hnow : b.now ≤ e.now + m.circuitCooldown) : b.returns i = false := by
  have hid : r.id = i := m.pool.key_eq i r hr
  -- open right after `sig`, still open at the end of its batch, and from then on
  have hopened : OpenUntil (e.now + m.circuitCooldown)
      ((r.applySignals m.toTuning e.now (s₁ ++ [sig])).circuits d) := by
    rw [Record.applySignals_circuits] at hbefore hafter ⊢
    rw [Circuit.applySignals_snoc, hid, if_pos hsig] at hafter ⊢
    rw [hid] at hbefore
    exact Circuit.openUntil_of_opens hbefore hafter
  have hopen : OpenUntil (e.now + m.circuitCooldown) ((e.effect r).circuits d) := by
    have heffect : e.effect r = (r.applySignals m.toTuning e.now (s₁ ++ [sig])).applySignals
        m.toTuning e.now s₂ := by
      simp only [Event.effect, hop, hstep.1, ← Record.applySignals_append, List.append_assoc,
        List.singleton_append]
    rw [heffect, Record.applySignals_circuits, Record.id_applySignals, hid]
    exact hopened.applySignals fun s hs hi hd => ⟨hrest s hs hi hd, fun _ => le_rfl⟩
  have hcool : m.circuitCooldown = m'.circuitCooldown := hstep.fixed_tuning.1.symm
  exact hopen.not_returns_of_runs (hstep.get? hr) hrun hfs (by rw [hcool]) hb hd hnow

/-- A single identity, with the default tuning: a breaker opens after three failures, for 15
    minutes. -/
def soloConfig : Config ℚ where
  identities := [{ id := "a" }]
  healthAlpha := 0

/-- Three refused connections, and a probe before the cool-down is over. -/
theorem not_returns_of_opened_at_once : ∃ e m b m', (Manager.new soloConfig 0).Step e m ∧
    m.Runs [b] m' ∧ e.now = 3 * minute ∧
    e.op = .emit (List.replicate 3 (gmailSignal .connRefused)) ∧ b.now = 18 * minute ∧
    b.op = .binding gmailTask ∧ b.returns "a" = false := by
  obtain ⟨e, m, b, m', hstep, hbstep, he, hb, -, -⟩ := (Manager.new soloConfig 0).exists_steps
    (3 * minute, .emit (List.replicate 3 (gmailSignal .connRefused)))
    (18 * minute, .binding gmailTask) Event.ret none (some (.error .errNoEgress))
    (by decide +kernel)
  have hrun' : m.Runs [b] m' := Run.singleton_iff.mpr hbstep
  refine ⟨e, m, b, m', hstep, hrun', he.1, he.2, hb.1, hb.2, ?_⟩
  have hop : e.op = .emit (List.replicate 2 (gmailSignal .connRefused) ++
      gmailSignal .connRefused :: []) := he.2
  have hr : (Manager.new soloConfig 0).get? "a" = some (.fresh { id := "a" } 0) := rfl
  have hrun'' : m.Runs ([] ++ [b]) m' := hrun'
  refine not_returns_of_opened hstep hop hr ⟨rfl, rfl⟩ ?_ ?_ (by simp) hrun'' (by simp) hb.2 rfl ?_
  · rw [he.1]
    decide +kernel
  · rw [he.1]
    exact ⟨{ state := .opened, failures := 3, openUntil := 18 * minute }, by decide +kernel, rfl⟩
  · rw [he.1, hb.1]
    decide

/-- The breaker of the pair `a`, `gmail`. -/
private def gmailBreaker (m : Manager ℚ) : Option Circuit :=
  (m.get? "a").bind fun r => r.circuits "gmail"

/-- Four probes are in flight. The failures of three of them open the breaker at minute 3,
    until minute 18; the success of the fourth closes it, and at minute 5 the identity is
    returned again. -/
theorem returns_in_cooldown : ∃ es e b m', (Manager.new soloConfig 0).Runs (es ++ [e, b]) m' ∧
    es.map (fun e => (e.now, e.op)) = List.replicate 4 (0, .binding gmailTask) ++
      [(minute, .emit [gmailSignal .connRefused]), (2 * minute, .emit [gmailSignal .connRefused]),
        (3 * minute, .emit [gmailSignal .connRefused])] ∧
    es.map (fun e => e.returns "a") = [true, true, true, true, false, false, false] ∧
    (∃ r, e.pre.get? "a" = some r ∧ r.circuits "gmail" =
      some { state := .opened, failures := 3, openUntil := 18 * minute }) ∧
    e.now = 4 * minute ∧ e.op = .emit [gmailSignal .accepted] ∧
    b.now = 5 * minute ∧ b.op = .binding gmailTask ∧ b.returns "a" = true := by
  -- the run is computed, with what each call sees and returns
  obtain ⟨es, m', hrun, hcalls, hobs, -⟩ := (Manager.new soloConfig 0).exists_runs
    ((List.replicate 4 (0, .binding gmailTask) ++
      [(minute, .emit [gmailSignal .connRefused]), (2 * minute, .emit [gmailSignal .connRefused]),
        (3 * minute, .emit [gmailSignal .connRefused])]) ++
      [(4 * minute, .emit [gmailSignal .accepted]), (5 * minute, .binding gmailTask)])
    (fun e => (e.returns "a", gmailBreaker e.pre)) (fun _ => ())
    ([(true, none), (true, none), (true, none), (true, none), (false, none),
      (false, some { failures := 1 }), (false, some { failures := 2 })] ++
      [(false, some { state := .opened, failures := 3, openUntil := 18 * minute }),
        (true, some { openUntil := 18 * minute })]) () (by decide +kernel) (by decide +kernel)
  obtain ⟨es, last, rfl, hes, hlast⟩ := List.map_eq_append_iff.mp hcalls
  obtain ⟨e, rest, rfl, he, hrest⟩ := List.map_eq_cons_iff.mp hlast
  obtain ⟨b, rest, rfl, hb, hnil⟩ := List.map_eq_cons_iff.mp hrest
  obtain rfl := List.map_eq_nil_iff.mp hnil
  rw [List.map_append] at hobs
  obtain ⟨hobs₁, hobs₂⟩ := List.append_inj' hobs rfl
  simp only [List.map_cons, List.map_nil, List.cons.injEq, Prod.mk.injEq, and_true] at hobs₂ he hb
  obtain ⟨⟨-, hopen⟩, hreturns, -⟩ := hobs₂
  refine ⟨es, e, b, m', hrun, hes, ?_, ?_, he.1, he.2, hb.1, hb.2, hreturns⟩
  · have := congrArg (List.map Prod.fst) hobs₁
    rwa [List.map_map] at this
  · exact Option.bind_eq_some_iff.mp hopen

/-! ## Which identity is returned -/

/-- Another eligible identity of the pool comes before `i`, whose record is `r`. -/
def Manager.Outranked (m : Manager F) (dest : String) (now : Int) (i : String) (r : Record F) :
    Prop :=
  ∃ j rj, j ≠ i ∧ m.get? j = some rj ∧ rj.Eligible m.toTuning dest now ∧
    (r.score dest < rj.score dest ∨
      (r.score dest = rj.score dest ∧ rj.usedToday < r.usedToday) ∨
      (r.score dest = rj.score dest ∧ r.usedToday = rj.usedToday ∧
        m.pool.order.idxOf j < m.pool.order.idxOf i))

omit [Add F] [Sub F] [Mul F] in
/-- The best identity is the eligible one that no other outranks. -/
theorem Manager.best_eq_some_iff (m : Manager F) (d : String) (now : Int) (i : String) :
    m.best d now = some i ↔
    ∃ r, m.get? i = some r ∧ r.Eligible m.toTuning d now ∧ ¬ m.Outranked d now i r := by
  constructor
  · intro h
    obtain ⟨r, hr⟩ : ∃ r, m.get? i = some r :=
      OrderedMap.exists_of_mem_order (List.mem_of_firstBest h).1
    refine ⟨r, hr, eligible_of_best h hr, ?_⟩
    rintro ⟨j, rj, hne, hj, hel, hbefore⟩
    have hafter := best_le h hr hj hel hne
    grind
  · -- any other winner would outrank this identity
    rintro ⟨r, hr, hel, hnot⟩
    cases hbest : m.best d now with
    | none => exact absurd hel (best_eq_none.mp hbest i r hr)
    | some b =>
      by_contra hne
      have hne : i ≠ b := fun h => hne (by rw [h])
      obtain ⟨rb, hb⟩ : ∃ rb, m.get? b = some rb :=
        OrderedMap.exists_of_mem_order (List.mem_of_firstBest hbest).1
      exact hnot ⟨b, rb, hne.symm, hb, eligible_of_best hbest hb, best_le hbest hb hr hel hne⟩

/-- A `Binding` returns the identity that is eligible and not outranked after
    reconciliation. -/
theorem Manager.Step.returns_iff {task : Task} (h : m.Step e m') (hop : e.op = .binding task) :
    e.returns i = true ↔ ∃ r, (m.reconcileLocked e.now).get? i = some r ∧
      r.Eligible m.toTuning (destOf task) e.now ∧
      ¬ (m.reconcileLocked e.now).Outranked (destOf task) e.now i r := by
  have hbest := (m.reconcileLocked e.now).best_eq_some_iff (destOf task) e.now i
  rw [Manager.toTuning_reconcileLocked] at hbest
  rw [← hbest]
  unfold Event.returns
  rcases h.binding_cases hop with ⟨hnone, hret, -⟩ | ⟨b, r, hsome, hb, hret, -⟩
  · simp [hnone, hret]
  · have hid : r.spec.id = b := (m.reconcileLocked e.now).pool.key_eq b r hb
    simp [hsome, hret, Spec.toBinding, hid]

/-! ## Half-open trials -/

/-- The event is a `Binding` for the destination `d`. -/
def Event.BindsFor (e : Event F) (d : String) : Prop :=
  ∃ task, e.op = .binding task ∧ destOf task = d

/-- The event is a `Binding` for `d` that returns `i`. -/
def Event.trial (e : Event F) (i d : String) : Bool :=
  match e.op with
  | .binding task => destOf task = d && e.returns i
  | _ => false

/-- The event emits a signal for the pair of `i` and `d`. -/
def Event.signals (e : Event F) (i d : String) : Bool :=
  match e.op with
  | .emit signals => signals.any fun sig => sig.egressID = i && sig.destination = d
  | _ => false

/-- Whatever its breaker says, `i` is not up for a probe of `d` when the event runs: it is
    withdrawn, offline, at its daily cap, or outranked. -/
def Event.Unavailable (e : Event F) (i d : String) : Prop :=
  ∀ r, (e.pre.reconcileLocked e.now).get? i = some r →
    r.Withdrawn ∨ r.online = false ∨ ¬ Record.BelowCap e.pre.toTuning r ∨
      (e.pre.reconcileLocked e.now).Outranked d e.now i r

omit [LinearOrder F] in
/-- Without a signal for the pair, a breaker that is not closed stays so, and one that is
    half-open stays half-open. -/
theorem Event.effect_tripped {c : Circuit} (hsig : e.signals r.id d = false)
    (hc : r.circuits d = some c) (hne : c.state ≠ .closed) :
    ∃ c', (e.effect r).circuits d = some c' ∧ c'.state ≠ .closed ∧
      (c.state = .halfOpen → c'.state = .halfOpen) := by
  rw [effect_circuits, circuitEffect]
  unfold signals at hsig
  cases hop : e.op with
  | binding task =>
    dsimp only
    split
    · -- `allow` moves an open breaker to half-open at most
      refine ⟨(c.allow e.now).2, by rw [hc, Option.map_some], ?_⟩
      unfold Circuit.allow
      split
      · split
        · simp
        · exact ⟨hne, id⟩
      · exact ⟨hne, id⟩
    · exact ⟨c, hc, hne, id⟩
  | emit signals =>
    simp only [hop, List.any_eq_false, Bool.and_eq_true, decide_eq_true_eq] at hsig
    refine ⟨c, ?_, hne, id⟩
    dsimp only
    rw [hc]
    refine List.foldlRecOn (motive := fun c' => c' = some c) signals _ rfl fun c' hc' sig hmem => ?_
    rw [if_neg (hsig sig hmem)]
    exact hc'
  | _ => exact ⟨c, hc, hne, id⟩

omit [Add F] [Sub F] [Mul F] [OfScientific F] [LinearOrder F] in
/-- A trial is a probe of the destination for which the identity is returned. -/
theorem Event.trial_eq_true : e.trial i d = true ↔ e.BindsFor d ∧ e.returns i = true := by
  unfold trial BindsFor
  cases e.op with
  | binding task => simp
  | _ => simp

/-- A trial leaves the breaker half-open. -/
theorem Manager.Step.halfOpen_of_trial {c : Circuit} (h : m.Step e m') (hr : m.get? i = some r)
    (hc : r.circuits d = some c) (hne : c.state ≠ .closed) (ht : e.trial i d = true) :
    ∃ c', (e.effect r).circuits d = some c' ∧ c'.state = .halfOpen := by
  obtain ⟨⟨task, hop, rfl⟩, hret⟩ := Event.trial_eq_true.mp ht
  obtain ⟨r', hr', hel⟩ := h.eligible_of_returns hop hret
  obtain rfl : r = r' := Option.some.inj (hr.symm.trans hr')
  rw [← h.1] at hel
  have hav : ¬ ((r.reconcile e.pre.warmupStages.length e.now).Withdrawn ∨
      (r.reconcile e.pre.warmupStages.length e.now).online = false) := by
    rintro (hw | hoff)
    · exact hel.not_withdrawn hw
    · exact absurd (hel.online.symm.trans hoff) (by decide)
  have hallow := hel.breaker c (by rw [Record.reconcile_circuits]; exact hc)
  rw [Event.effect_circuits, Event.circuitEffect]
  simp only [hop, hav, not_false_eq_true, and_true, if_true, hc, Option.map_some]
  refine ⟨_, rfl, ?_⟩
  unfold Circuit.allow
  cases hs : c.state with
  | closed => exact absurd hs hne
  | opened =>
    -- an open breaker only lets the probe through after its cool-down
    have hnow : e.now > c.openUntil := by
      by_contra hle
      exact hallow ⟨hs, by omega⟩
    simp [hnow]
  | halfOpen => simpa using hs

/-- Once the breaker of a pair has opened, without signals for the pair it is not closed
    again, and it is half-open from the first trial on. -/
theorem Manager.Runs.halfOpen {es : List (Event F)} (h : m.Runs es m') (hr : m.get? i = some r)
    (hopen : ∃ c ∈ r.circuits d, c.state = .opened) (hsig : ∀ e ∈ es, e.signals i d = false) :
    ∃ r' c, m'.get? i = some r' ∧ r'.circuits d = some c ∧ c.state ≠ .closed ∧
      ((∃ a ∈ es, a.trial i d = true) → c.state = .halfOpen) := by
  revert hsig
  -- the breaker is never closed; the flag of the invariant is that a trial has been made
  refine h.history (I := fun es m' => (∀ e ∈ es, e.signals i d = false) →
    ∃ r' c, m'.get? i = some r' ∧ r'.circuits d = some c ∧ c.state ≠ .closed ∧
      ((∃ a ∈ es, a.trial i d = true) → c.state = .halfOpen)) ?_ ?_
  · obtain ⟨c, hc, hs⟩ := hopen
    exact fun _ => ⟨r, c, hr, hc, by rw [hs]; decide, by simp⟩
  · intro es a e b _ ih hstep hsig
    obtain ⟨r, c, hr, hc, hne, hhalf⟩ := ih fun f hf => hsig f (by simp [hf])
    obtain rfl : r.id = i := a.pool.key_eq i r hr
    obtain ⟨c', hc', hne', hkeep⟩ := Event.effect_tripped (hsig e (by simp)) hc hne
    refine ⟨e.effect r, c', hstep.get? hr, hc', hne', ?_⟩
    rintro ⟨f, hf, htrial⟩
    rcases List.mem_append.mp hf with hf | hf
    · exact hkeep (hhalf ⟨f, hf, htrial⟩)
    · obtain rfl : f = e := by simpa using hf
      obtain ⟨c'', hc'', hs⟩ := hstep.halfOpen_of_trial hr hc hne htrial
      rw [hc', Option.some.injEq] at hc''
      rw [hc'']
      exact hs

/-- Of two elements that pass a test one comes first. -/
private theorem exists_of_one_lt_countP {α : Type*} {p : α → Bool} {l : List α}
    (h : 1 < l.countP p) :
    ∃ l₁ b l₂, l = l₁ ++ b :: l₂ ∧ p b = true ∧ ∃ a ∈ l₁, p a = true := by
  induction l with
  | nil => simp at h
  | cons x l ih =>
    -- this is the first of the two, or both come later
    by_cases hx : p x = true
    · rw [List.countP_cons_of_pos hx] at h
      obtain ⟨b, hb, hpb⟩ := List.countP_pos_iff.mp (by omega : 0 < l.countP p)
      obtain ⟨l₁, l₂, rfl⟩ := List.append_of_mem hb
      exact ⟨x :: l₁, b, l₂, rfl, hpb, x, by simp, hx⟩
    · rw [List.countP_cons_of_neg hx] at h
      obtain ⟨l₁, b, l₂, rfl, hb, a, ha, hpa⟩ := ih h
      exact ⟨x :: l₁, b, l₂, rfl, hb, a, by simp [ha], hpa⟩

/-- How many trials there are between the opening of a breaker and the next signal for the
    pair. The breaker itself refuses none after the first, so there is at most one exactly if
    every `Binding` for the destination that comes after a trial finds the identity
    withdrawn, offline, at its cap or outranked. -/
theorem single_trial_iff {es : List (Event F)} (hr : m.get? i = some r)
    (hopen : ∃ c ∈ r.circuits d, c.state = .opened) (hrun : m.Runs es m')
    (hsig : ∀ e ∈ es, e.signals i d = false) :
    es.countP (·.trial i d) ≤ 1 ↔
      ∀ es₁ b es₂, es = es₁ ++ b :: es₂ → b.BindsFor d → (∃ a ∈ es₁, a.trial i d = true) →
        b.Unavailable i d := by
  constructor
  · rintro hcount es₁ b es₂ rfl ⟨task, hop, rfl⟩ ⟨a, ha, htrial⟩ r' hr'
    obtain ⟨m₁, m₂, hrun₁, hstep, -⟩ := hrun.split_cons
    obtain ⟨r₁, c, hr₁, hc, -, hhalf⟩ := Manager.Runs.halfOpen hrun₁ hr hopen
      fun e he => hsig e (by simp [he])
    -- `b` would be the second trial
    have hnot : ¬ b.returns i = true := by
      intro hret
      have hb : b.trial i (destOf task) = true := Event.trial_eq_true.mpr ⟨⟨task, hop, rfl⟩, hret⟩
      have hpos : 0 < es₁.countP (·.trial i (destOf task)) :=
        List.countP_pos_iff.mpr ⟨a, ha, htrial⟩
      rw [List.countP_append, List.countP_cons, if_pos hb] at hcount
      omega
    rw [hstep.returns_iff hop] at hnot
    rw [hstep.1] at hr' ⊢
    -- the half-open breaker does not stand in the way
    have hbreaker : r'.BreakerAllows (destOf task) b.now := by
      rw [Manager.get?_reconcileLocked, hr₁, Option.map_some, Option.some.injEq] at hr'
      rw [← hr', Record.BreakerAllows, Record.reconcile_circuits, hc]
      rintro c' ⟨⟩ ⟨hs, -⟩
      exact absurd ((hhalf ⟨a, ha, htrial⟩).symm.trans hs) (by simp)
    by_contra hav
    push Not at hav
    obtain ⟨hw, hon, hcap, hrank⟩ := hav
    exact hnot ⟨r', hr', ⟨hw, by simpa using hon, hbreaker, hcap⟩, hrank⟩
  · intro h
    by_contra hcount
    obtain ⟨es₁, b, es₂, rfl, hb, ha⟩ := exists_of_one_lt_countP (not_le.mp hcount)
    obtain ⟨⟨task, hop, rfl⟩, hret⟩ := Event.trial_eq_true.mp hb
    obtain ⟨m₁, m₂, -, hstep, -⟩ := hrun.split_cons
    obtain ⟨r', hr', hel, hrank⟩ := (hstep.returns_iff hop).mp hret
    have hun := h es₁ b es₂ rfl ⟨task, hop, rfl⟩ ha
    unfold Event.Unavailable at hun
    rw [hstep.1] at hun
    rcases hun r' hr' with hw | hoff | hcap | hout
    · exact hel.not_withdrawn hw
    · exact absurd (hel.online.symm.trans hoff) (by decide)
    · exact hcap hel.below_cap
    · exact hrank hout

/-- One probe after the cool-down. -/
theorem single_trial_iff_once : ∃ (m : Manager ℚ) (r : Record ℚ) (es : List (Event ℚ))
    (m' : Manager ℚ), Reachable m ∧ m.get? "a" = some r ∧
    (∃ c ∈ r.circuits "gmail", c.state = .opened) ∧ m.Runs es m' ∧
    es.map (fun e => (e.now, e.op)) = [(16 * minute, .binding gmailTask)] ∧
    es.map (fun e => e.returns "a") = [true] ∧ es.countP (·.trial "a" "gmail") ≤ 1 := by
  obtain ⟨e, m, b, m', hstep, hbstep, he, hb, -, hobs⟩ := (Manager.new soloConfig 0).exists_steps
    (0, .emit (List.replicate 3 (gmailSignal .connRefused))) (16 * minute, .binding gmailTask)
    (fun e => (e.returns "a", gmailBreaker e.pre)) (false, none)
    (true, some { state := .opened, failures := 3, openUntil := 15 * minute }) (by decide +kernel)
  have hrun' : m.Runs [b] m' := Run.singleton_iff.mpr hbstep
  rw [Prod.mk.injEq, hbstep.1] at hobs
  obtain ⟨hreturns, hopen⟩ := hobs
  obtain ⟨r, hr, hcirc⟩ := Option.bind_eq_some_iff.mp hopen
  have hm : Reachable m := (Reachable.new soloConfig 0).step hstep (by rw [he.2]; trivial)
  have hopened : ∃ c ∈ r.circuits "gmail", c.state = .opened := ⟨_, hcirc, rfl⟩
  refine ⟨m, r, [b], m', hm, hr, hopened, hrun', by simp [hb], by simp [hreturns], ?_⟩
  refine (single_trial_iff hr hopened hrun' ?_).mpr ?_
  · simp [Event.signals, hb.2]
  · rintro es₁ b' es₂ heq - ⟨a, ha, -⟩
    -- nothing comes before the only event
    have hlen := congrArg List.length heq
    have hpos := List.length_pos_of_mem ha
    simp at hlen
    omega

/-- With a single identity the half-open breaker admits two probes before any result of the
    first is known. -/
theorem two_trials : ∃ e m r es m', (Manager.new soloConfig 0).Step e m ∧ e.now = 0 ∧
    e.op = .emit (List.replicate 3 (gmailSignal .connRefused)) ∧ m.get? "a" = some r ∧
    r.circuits "gmail" = some { state := .opened, failures := 3, openUntil := 15 * minute } ∧
    m.Runs es m' ∧ es.map (fun e => (e.now, e.op)) =
      [(16 * minute, .binding gmailTask), (17 * minute, .binding gmailTask)] ∧
    (∀ e ∈ es, e.signals "a" "gmail" = false) ∧ es.countP (·.trial "a" "gmail") = 2 := by
  obtain ⟨es, m', hrun, hcalls, hobs, -⟩ := (Manager.new soloConfig 0).exists_runs
    [(0, .emit (List.replicate 3 (gmailSignal .connRefused))), (16 * minute, .binding gmailTask),
      (17 * minute, .binding gmailTask)]
    (fun e => (e.returns "a", gmailBreaker e.pre)) (fun _ => ())
    [(false, none), (true, some { state := .opened, failures := 3, openUntil := 15 * minute }),
      (true, some { state := .halfOpen, failures := 3, openUntil := 15 * minute })] ()
    (by decide +kernel) (by decide +kernel)
  -- the failures that open the breaker, and two probes after the cool-down
  obtain ⟨e, rest, rfl, he, hrest⟩ := List.map_eq_cons_iff.mp hcalls
  obtain ⟨b, rest, rfl, hb, hrest⟩ := List.map_eq_cons_iff.mp hrest
  obtain ⟨b', rest, rfl, hb', hnil⟩ := List.map_eq_cons_iff.mp hrest
  obtain rfl := List.map_eq_nil_iff.mp hnil
  simp only [List.map_cons, List.map_nil, List.cons.injEq, Prod.mk.injEq, and_true]
    at hobs he hb hb'
  obtain ⟨m, hstep, hrun'⟩ := Run.cons_iff.mp hrun
  obtain ⟨m₁, hbstep, -⟩ := Run.cons_iff.mp hrun'
  obtain ⟨-, ⟨hret, hopen⟩, hret', -⟩ := hobs
  rw [hbstep.1] at hopen
  obtain ⟨r, hr, hcirc⟩ := Option.bind_eq_some_iff.mp hopen
  refine ⟨e, m, r, [b, b'], m', hstep, he.1, he.2, hr, hcirc, hrun', by simp [hb, hb'], ?_, ?_⟩
  · simp [Event.signals, hb.2, hb'.2]
  · have hdest : destOf gmailTask = "gmail" := by decide
    simp [Event.trial, hb.2, hb'.2, hret, hret', hdest]

end Rcptto.Native
