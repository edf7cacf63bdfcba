import Rcptto.Spec.Scores

/-!
# Sharing the load

Among identities with the best score `Binding` takes the one with the fewest probes today. As
long as a fleet sees no failure, all scores are exactly one, rounding included, so this rule
alone decides, and the identities stay abreast of each other: whatever the tasks, their
destinations and the clock, no identity is ever more than one probe ahead of another.

## Key results

- `Manager.Even.step`: a call that reports no failure keeps the identities abreast
- `usedToday_le_succ`: so does every execution of such calls
-/

namespace Rcptto.Native

variable {F : Type}

/-! ## Calls without failures -/

/-- A success, or a kind that the manager does not know. -/
def SignalKind.harmless : SignalKind → Bool
  | .accepted | .mailboxGone | .other _ _ => true
  | _ => false

/-- The calls of a fleet without failures and without an operator: `Binding`, `SetThresholds`, an
    `Emit` that reports no failure, and a `SetOnline` that reports an agent as reachable. -/
def Op.Smooth : Op F → Prop
  | .binding _ | .setThresholds _ _ => True
  | .emit signals => ∀ sig ∈ signals, sig.kind.harmless = true
  | .setOnline _ online => online = true
  | _ => False

instance : DecidablePred (Op.Smooth (F := F))
  | .emit signals =>
    inferInstanceAs (Decidable (∀ sig ∈ signals, sig.kind.harmless = true))
  | .setOnline _ online => inferInstanceAs (Decidable (online = true))
  | .binding _ | .setThresholds _ _ => .isTrue trivial
  | .enable _ | .disable _ _ | .quarantine _ _ | .addIdentity _ | .restore _ => .isFalse id

namespace Record

/-! ## Records -/

/-- The record of an identity in service that has not seen a failure. -/
structure Unblemished [OfScientific F] (r : Record F) : Prop where
  in_service : ¬ r.Withdrawn
  online : r.online = true
  closed : ∀ dest, ∀ c ∈ r.circuits dest, c.state = .closed
  score : ∀ dest, r.score dest = 1.0

/-- The first record is as far as the second in its ramp and its day, and has used at most one
    probe more. -/
structure Abreast (r q : Record F) : Prop where
  state : r.state = q.state
  warmupStage : r.warmupStage = q.warmupStage
  lastReset : r.lastReset = q.lastReset
  usedToday : r.usedToday ≤ q.usedToday + 1

variable {r q : Record F} {now : Int} {stages : Nat} {dest : String}

/-- Records that are abreast stay so over a daily reset. -/
theorem Abreast.dailyReset (h : Abreast r q) :
    Abreast (r.dailyReset stages) (q.dailyReset stages) := by
  obtain ⟨hstate, hstage, hreset, -⟩ := h
  constructor
  case usedToday => simp
  case lastReset => simp [hreset]
  all_goals
    unfold Record.dailyReset
    dsimp only
    rw [hstate, hstage]
    split_ifs <;> rfl

theorem expire_eq_self (h : ¬ r.Withdrawn) : r.expire now = r := by
  unfold expire
  rw [if_neg]
  exact fun hq => h (.inr hq.1)

/-- Records that are abreast stay so when they are reconciled. -/
theorem Abreast.reconcile (h : Abreast r q) (stages : Nat) (now : Int) (hr : ¬ r.Withdrawn)
    (hq : ¬ q.Withdrawn) : Abreast (r.reconcile stages now) (q.reconcile stages now) := by
  rw [reconcile_eq_iterate, reconcile_eq_iterate, expire_eq_self hr, expire_eq_self hq]
  -- both have the same number of resets to make up for
  have hpending : q.pendingResets now = r.pendingResets now := by
    rw [pendingResets, pendingResets, h.lastReset]
  rw [hpending]
  induction r.pendingResets now with
  | zero => exact h
  | succ n ih =>
    rw [Function.iterate_succ_apply', Function.iterate_succ_apply']
    exact ih.dailyReset

theorem capFor_eq {t : Tuning F} (h : Abreast r q) : capFor t r = capFor t q := by
  unfold capFor
  rw [h.state, h.warmupStage]

namespace Unblemished

variable [OfScientific F]

/-- An unblemished record stays so when it is reconciled. -/
theorem reconcile (h : Unblemished r) (stages : Nat) (now : Int) :
    Unblemished (r.reconcile stages now) := by
  refine ⟨?_, by rw [reconcile_online]; exact h.online, by rw [reconcile_circuits]; exact h.closed,
    fun dest => by rw [score_reconcile]; exact h.score dest⟩
  apply reconcile_induction (P := fun r => ¬ r.Withdrawn)
  · rw [expire_eq_self h.in_service]
    exact h.in_service
  · -- a daily reset takes no identity out of service
    intro r hr
    have hd : (r.dailyReset stages).state ≠ .disabled :=
      dailyReset_state_ne (by simp) (by simp) fun hs => hr (.inl hs)
    have hq : (r.dailyReset stages).state ≠ .quarantined :=
      dailyReset_state_ne (by simp) (by simp) fun hs => hr (.inr hs)
    exact fun hw => hw.elim hd hq

/-- The breakers of an unblemished record let every probe through. -/
theorem breakerAllows (h : Unblemished r) : r.BreakerAllows dest now := by
  intro c hc hopen
  rw [h.closed dest c hc] at hopen
  exact absurd hopen.1 (by simp)

/-- Asking a closed breaker changes nothing. -/
theorem touch_eq_self (h : Unblemished r) : r.touch dest now = r := by
  unfold touch allow
  split
  · rfl
  · -- without a breaker for the destination there is nothing to ask
    cases hc : r.circuits dest with
    | none => rfl
    | some c =>
      have hclosed := h.closed dest c hc
      have hallow : (c.allow now).2 = c := by simp [Circuit.allow, hclosed]
      dsimp only
      rw [hallow, ← hc, Function.update_eq_self]

/-- Reporting an identity as reachable that is changes nothing. -/
theorem setOnline_eq_self (h : Unblemished r) : r.setOnline true = r := by
  rw [setOnline, ← h.online]

theorem charge (h : Unblemished r) : Unblemished r.charge :=
  ⟨h.in_service, h.online, h.closed, h.score⟩

theorem fresh (spec : Spec) (now : Int) : Unblemished (Record.fresh spec now : Record F) := by
  refine ⟨?_, rfl, fun dest c hc => (by cases hc), fun dest => rfl⟩
  unfold Withdrawn Record.fresh
  cases spec.warmUp <;> simp

/-- An unblemished record is eligible as long as it is below its cap. -/
theorem eligible_iff_belowCap {t : Tuning F} (h : Unblemished r) :
    r.Eligible t dest now ↔ BelowCap t r :=
  ⟨fun hel => hel.below_cap, fun hcap => ⟨h.in_service, h.online, h.breakerAllows, hcap⟩⟩

end Unblemished

/-! ### Signals -/

section Signal

variable [Add F] [Sub F] [Mul F] [OfScientific F] {t : Tuning F} {sig : Signal}

/-- A harmless signal does not change the state. -/
theorem applySignal_state_of_harmless (h : sig.kind.harmless = true) :
    (r.applySignal t now sig).state = r.state := by
  unfold applySignal
  cases hkind : sig.kind with
  | blocked =>
    rw [hkind] at h
    cases h
  | _ => rfl

/-- Harmless signals keep records abreast. -/
theorem Abreast.applySignals {signals : List Signal} (h : Abreast r q)
    (hsig : ∀ sig ∈ signals, sig.kind.harmless = true) :
    Abreast (r.applySignals t now signals) (q.applySignals t now signals) := by
  -- none of the four parts is written by a harmless signal
  have hstate : ∀ r : Record F, (r.applySignals t now signals).state = r.state := by
    intro r
    refine List.foldlRecOn (motive := fun r' : Record F => r'.state = r.state) signals _ rfl
      fun r' hr' sig hmem => ?_
    split
    · rw [applySignal_state_of_harmless (hsig sig hmem), hr']
    · exact hr'
  obtain ⟨h₁, h₂, h₃, h₄⟩ := h
  constructor
  case state => rw [hstate, hstate, h₁]
  case warmupStage =>
    rw [applySignals_proj (·.warmupStage) (by simp),
      applySignals_proj (·.warmupStage) (by simp), h₂]
  case lastReset =>
    rw [applySignals_proj (·.lastReset) (by simp), applySignals_proj (·.lastReset) (by simp), h₃]
  case usedToday =>
    rw [applySignals_proj (·.usedToday) (by simp), applySignals_proj (·.usedToday) (by simp)]
    exact h₄

variable (hone : (1.0 : F) * (1.0 - t.alpha) + 1.0 * t.alpha = 1.0)

include hone

/-- A success leaves a score of one at one, if the arithmetic does. -/
theorem Unblemished.applySignal (h : Unblemished r) (hsig : sig.kind.harmless = true) :
    Unblemished (r.applySignal t now sig) := by
  -- a signal of an unknown kind does nothing, and the other harmless ones are successes
  by_cases hknown : ∃ text htext, sig.kind = .other text htext
  · obtain ⟨text, htext, hkind⟩ := hknown
    have hsame : r.applySignal t now sig = r := by simp only [Record.applySignal, hkind]
    rw [hsame]
    exact h
  · have hsuccess : r.applySignal t now sig =
        { (r.updateHealth sig.destination (·.observe true t.alpha)).updateCircuit sig.destination
            (·.onSuccess) with blockStreak := 0 } := by
      unfold Record.applySignal
      cases hkind : sig.kind with
      | accepted => rfl
      | mailboxGone => rfl
      | other text htext => exact absurd ⟨text, htext, hkind⟩ hknown
      | _ =>
        rw [hkind] at hsig
        cases hsig
    rw [hsuccess]
    refine ⟨h.in_service, h.online, fun dest c hc => ?_, fun dest => ?_⟩
    · simp only [updateCircuit, updateHealth, Function.update_apply] at hc
      split at hc
      · obtain rfl : _ = c := by simpa using hc
        rfl
      · exact h.closed dest c hc
    · -- a score of one stays one, which is what `hone` says of the arithmetic
      have hscore := h.score dest
      rw [(score_eq_getD _ _).1] at hscore ⊢
      simp only [updateCircuit, updateHealth]
      by_cases hd : dest = sig.destination
      · subst hd
        rw [Function.update_self, Option.getD_some, Health.observe, hscore]
        exact hone
      · rw [Function.update_of_ne hd]
        exact hscore

/-- Harmless signals leave no blemish. -/
theorem Unblemished.applySignals {signals : List Signal} (h : Unblemished r)
    (hsig : ∀ sig ∈ signals, sig.kind.harmless = true) :
    Unblemished (r.applySignals t now signals) := by
  refine List.foldlRecOn (motive := Unblemished) signals _ h fun r' hr' sig hmem => ?_
  split
  · exact hr'.applySignal hone (hsig sig hmem)
  · exact hr'

end Signal

end Record

/-! ## The pool -/

namespace Manager

variable [Add F] [Sub F] [Mul F] [OfScientific F] [LinearOrder F]

/-- Nobody has seen a failure, and everybody is abreast of everybody. -/
structure Even (m : Manager F) : Prop where
  unblemished : ∀ i r, m.get? i = some r → r.Unblemished
  abreast : ∀ i j r q, m.get? i = some r → m.get? j = some q → r.Abreast q

variable {m m' : Manager F} {e : Event F} {i j : String} {r q : Record F}

/-- The identity that is chosen has used no more probes than any other. -/
theorem Even.usedToday_le_of_returns {task : Task} (h : m.Even) (hstep : m.Step e m')
    (hop : e.op = .binding task) (hr : m.get? i = some r) (hq : m.get? j = some q)
    (hret : e.returns i = true) :
    (r.reconcile m.warmupStages.length e.now).usedToday ≤
      (q.reconcile m.warmupStages.length e.now).usedToday := by
  have hur := (h.unblemished i r hr).reconcile m.warmupStages.length e.now
  have huq := (h.unblemished j q hq).reconcile m.warmupStages.length e.now
  have habreast := (h.abreast i j r q hr hq).reconcile m.warmupStages.length e.now
    (h.unblemished i r hr).in_service (h.unblemished j q hq).in_service
  unfold Event.returns at hret
  rcases hstep.binding_cases hop with ⟨-, herr, -⟩ | ⟨b, rb, hbest, hb, hok, -⟩
  · rw [herr] at hret
    cases hret
  rw [hok] at hret
  obtain rfl : b = i := by
    have hid : rb.spec.id = i := of_decide_eq_true hret
    rw [← hid]
    exact ((m.reconcileLocked e.now).pool.key_eq b rb hb).symm
  have hr₁ : (m.reconcileLocked e.now).get? b =
      some (r.reconcile m.warmupStages.length e.now) := by rw [get?_reconcileLocked, hr]; rfl
  have hq₁ : (m.reconcileLocked e.now).get? j =
      some (q.reconcile m.warmupStages.length e.now) := by rw [get?_reconcileLocked, hq]; rfl
  have hcap := (eligible_of_best hbest hr₁).below_cap
  by_cases hel : Record.BelowCap (m.reconcileLocked e.now).toTuning
      (q.reconcile m.warmupStages.length e.now)
  · by_cases hj : j = b
    · subst hj
      rw [hr, Option.some.injEq] at hq
      rw [hq]
    · -- equal scores, so the probes of today decide
      have hscores := best_le hbest hr₁ hq₁ (huq.eligible_iff_belowCap.mpr hel) hj
      rw [hur.score, huq.score] at hscores
      rcases hscores with hlt | ⟨-, hlt⟩ | ⟨-, heq, -⟩
      · exact absurd hlt (lt_irrefl _)
      · exact hlt.le
      · exact heq.ge
  · -- the other one is at the cap that both have
    simp only [Record.BelowCap, not_forall, not_lt] at hel hcap
    obtain ⟨limit, hlimit, hpos, hge⟩ := hel
    rw [← Record.capFor_eq habreast] at hlimit
    exact (hcap limit hlimit hpos).le.trans hge

/-- What a call without failures does to two records. -/
theorem Even.effect (h : m.Even) (hone : (1.0 : F) * (1.0 - m.alpha) + 1.0 * m.alpha = 1.0)
    (hstep : m.Step e m') (hsmooth : e.op.Smooth) (hr : m.get? i = some r)
    (hq : m.get? j = some q) :
    (e.effect r).Unblemished ∧ (e.effect r).Abreast (e.effect q) := by
  have hpre : e.pre = m := hstep.1
  have hur := h.unblemished i r hr
  have huq := h.unblemished j q hq
  have hrq := h.abreast i j r q hr hq
  cases hop : e.op with
  | binding task =>
    have hur' := hur.reconcile m.warmupStages.length e.now
    have huq' := huq.reconcile m.warmupStages.length e.now
    have hrq' := hrq.reconcile m.warmupStages.length e.now hur.in_service
      huq.in_service
    rw [Event.effect_binding hop, Event.effect_binding hop, hpre, hur'.touch_eq_self,
      huq'.touch_eq_self]
    have hkey : r.id = i := m.pool.key_eq i r hr
    obtain ⟨h₁, h₂, h₃, h₄⟩ := hrq'
    constructor
    · split
      · exact hur'.charge
      · exact hur'
    · by_cases hret : e.returns r.id = true
      · have hle := h.usedToday_le_of_returns hstep hop hr hq (hkey ▸ hret)
        rw [if_pos hret]
        split
        · exact ⟨h₁, h₂, h₃, by simp only [Record.charge]; omega⟩
        · exact ⟨h₁, h₂, h₃, by simp only [Record.charge]; omega⟩
      · rw [if_neg hret]
        split
        · exact ⟨h₁, h₂, h₃, by simp only [Record.charge]; omega⟩
        · exact ⟨h₁, h₂, h₃, h₄⟩
  | emit signals =>
    rw [hop] at hsmooth
    simp only [Event.effect, hop, hpre]
    exact ⟨hur.applySignals hone hsmooth, hrq.applySignals hsmooth⟩
  | setThresholds quarantine circuit =>
    simp only [Event.effect, hop]
    exact ⟨hur, hrq⟩
  | setOnline id online =>
    -- everyone is reachable already
    obtain rfl : online = true := by rwa [hop] at hsmooth
    simp only [Event.effect, hop, hur.setOnline_eq_self, huq.setOnline_eq_self, ite_self]
    exact ⟨hur, hrq⟩
  | _ =>
    rw [hop] at hsmooth
    exact hsmooth.elim

/-- One smooth step keeps all identities even. -/
theorem Even.step (h : m.Even) (hone : (1.0 : F) * (1.0 - m.alpha) + 1.0 * m.alpha = 1.0)
    (hstep : m.Step e m') (hsmooth : e.op.Smooth) : m'.Even := by
  have hold : ∀ i r', m'.get? i = some r' → ∃ r, m.get? i = some r ∧ r' = e.effect r := by
    intro i r' hr'
    cases hr : m.get? i with
    | some r =>
      rw [hstep.get? hr, Option.some.injEq] at hr'
      exact ⟨r, rfl, hr'.symm⟩
    | none =>
      -- no identity is added
      obtain ⟨spec, hop, -, -⟩ := hstep.fresh_of_get?_none hr hr'
      rw [hop] at hsmooth
      exact hsmooth.elim
  constructor
  · intro i r' hr'
    obtain ⟨r, hr, rfl⟩ := hold i r' hr'
    exact (h.effect hone hstep hsmooth hr hr).1
  · intro i j r' q' hr' hq'
    obtain ⟨r, hr, rfl⟩ := hold i r' hr'
    obtain ⟨q, hq, rfl⟩ := hold j q' hq'
    exact (h.effect hone hstep hsmooth hr hq).2

omit [Add F] [Sub F] [Mul F] in
/-- The identities of a new manager are even, if all of them warm up or none does. -/
theorem Even.new {cfg : Config F} {start : Int}
    (hkind : ∀ a ∈ cfg.identities, ∀ b ∈ cfg.identities, a.warmUp = b.warmUp) :
    (Manager.new cfg start).Even := by
  constructor
  · intro i r hr
    obtain ⟨spec, -, -, rfl⟩ := exists_of_get?_new hr
    exact .fresh spec start
  · intro i j r q hr hq
    obtain ⟨a, ha, -, rfl⟩ := exists_of_get?_new hr
    obtain ⟨b, hb, -, rfl⟩ := exists_of_get?_new hq
    constructor
    · simp only [Record.fresh, hkind a ha b hb]
    all_goals simp [Record.fresh]

end Manager

/-! ## Executions -/

/-- The average of ones is one, rounding included. -/
theorem observe_one {a : Binary64} (hpos : 0 < a.val) (hle : a.val ≤ 1) :
    (1.0 : Binary64) * (1.0 - a) + 1.0 * a = 1.0 := by
  have hnear : Near (1 / (2 ^ 51 * a.val)) (Health.newHealth : Health Binary64).score
      (Health.newHealth : Health ℚ).score := Near.newHealth (by positivity)
  have hone := (hnear.observe hpos hle (by field_simp; rfl) true).one (by
    norm_num [Health.observe, Health.newHealth])
  apply Binary64.ext
  rw [Binary64.val_one]
  exact hone

/-- In a fleet whose identities all start the same way and in which no failure is reported, no
    identity is ever more than one probe ahead of another. -/
theorem usedToday_le_succ {cfg : Config Binary64} {start : Int} {es : List (Event Binary64)}
    {m : Manager Binary64} (hrun : (Manager.new cfg start).Runs es m)
    (hkind : ∀ a ∈ cfg.identities, ∀ b ∈ cfg.identities, a.warmUp = b.warmUp)
    (hes : ∀ e ∈ es, e.op.Smooth) {i j : String} {r q : Record Binary64}
    (hr : m.get? i = some r) (hq : m.get? j = some q) : r.usedToday ≤ q.usedToday + 1 := by
  obtain ⟨hpos, hle⟩ := effectiveAlpha_bounds cfg.healthAlpha
  -- the weight of an outcome never changes
  have hinv : m.alpha = effectiveAlpha cfg.healthAlpha ∧ m.Even := by
    refine hrun.invariant (P := fun m => m.alpha = effectiveAlpha cfg.healthAlpha ∧ m.Even)
      ⟨rfl, .new hkind⟩ fun m e m' he h hstep => ?_
    have hone : (1.0 : Binary64) * (1.0 - m.alpha) + 1.0 * m.alpha = 1.0 := by
      rw [h.1]
      exact observe_one hpos hle
    exact ⟨hstep.fixed_tuning.2.2.2.2.trans h.1, h.2.step hone hstep (hes e he)⟩
  exact (hinv.2.abreast i j r q hr hq).usedToday

/-- Two identities in warm-up, with the default weight. -/
def warmingPair : Config Binary64 where
  identities := [{ id := "a", warmUp := true }, { id := "b", warmUp := true }]
  healthAlpha := 0.0

/-- Three probes, the first of which is answered at once. -/
def threeProbes : List (Int × Op Binary64) :=
  [(1, .binding gmailTask), (2, .emit [gmailSignal .accepted]), (3, .binding gmailTask),
    (4, .binding gmailTask)]

/-- Three probes of two identities that warm up. -/
theorem usedToday_le_succ_threeProbes : ∃ es m r q, (Manager.new warmingPair 0).Runs es m ∧
    es.map (fun e => (e.now, e.op)) = threeProbes ∧ m.get? "a" = some r ∧
    m.get? "b" = some q ∧ (r.usedToday, q.usedToday) = (2, 1) ∧
    r.usedToday ≤ q.usedToday + 1 := by
  obtain ⟨es, m, hrun, hcalls, -, hused⟩ := (Manager.new warmingPair 0).exists_runs threeProbes
    (fun _ => ()) (fun m => ((m.get? "a").map (·.usedToday), (m.get? "b").map (·.usedToday)))
    [(), (), (), ()] (some 2, some 1) (by decide +kernel) (by decide +kernel)
  obtain ⟨ha, hb⟩ := Prod.ext_iff.mp hused
  obtain ⟨r, hr, hr'⟩ := Option.map_eq_some_iff.mp ha
  obtain ⟨q, hq, hq'⟩ := Option.map_eq_some_iff.mp hb
  -- the one signal is an acceptance
  have hsmooth : ∀ e ∈ es, e.op.Smooth := by
    intro e he
    have hmem : (e.now, e.op) ∈ threeProbes := hcalls ▸ List.mem_map_of_mem he
    have hall : ∀ c ∈ threeProbes, c.2.Smooth := by decide
    exact hall _ hmem
  exact ⟨es, m, r, q, hrun, hcalls, hr, hq, by rw [hr', hq'],
    usedToday_le_succ hrun (by decide) hsmooth hr hq⟩

end Rcptto.Native
