import Rcptto.Spec.Reachable

/-!
# Daily caps

Every identity has its own days: windows of 24 hours that start at the instant it was
added. `usedToday` is reset lazily, when a `Binding` finds that the day is over, so it
does not count the probes of the current day at every instant; what it counts is
`Accounted.used`, the probes of the day of the last reset. From there the cap of each
day follows, whatever the other operations do in between.

## Key results

- `Accounted.effect`: every operation except `Restore` keeps the account of an identity
- `Manager.Runs.accounted`: the account is right in every execution from `New`
- `daily_cap`: no identity is returned more often in one of its days than the cap that
  holds for it at that moment
-/

namespace Rcptto.Native

variable {F : Type} [Add F] [Sub F] [Mul F] [OfScientific F] [LinearOrder F]

/-! ## Days of an identity -/

/-- The day that contains `t`, for an identity added at `added`. -/
def window (added t : Int) : Int := (t - added) / dailyResetInterval

/-- The clock reading at which the event adds `i`, if it is an `AddIdentity` of `i`. -/
def Event.addedAt (e : Event F) (i : String) : Option Int :=
  match e.op with
  | .addIdentity spec => if spec.id = i then some e.now else none
  | _ => none

/-- The instant `i` was added: the start for a configured identity, otherwise the first
    `AddIdentity`. -/
def addedAt (cfg : Config F) (start : Int) (es : List (Event F)) (i : String) : Option Int :=
  if i ∈ cfg.identities.map (·.id) then some start else es.findSome? (·.addedAt i)

/-- How many `Binding`s returned `i` on the day `w`. -/
def chargedOn (added : Int) (es : List (Event F)) (i : String) (w : Int) : Nat :=
  es.countP fun e => e.returns i && window added e.now = w

/-- The record `r` of the identity `i` agrees with what happened so far. -/
structure Accounted (start added : Int) (es : List (Event F)) (i : String) (r : Record F) :
    Prop where
  /-- The last reset is the start of a day. -/
  aligned : r.lastReset = added + window added r.lastReset * dailyResetInterval
  /-- The last reset is not in the future. -/
  past : ∃ a ∈ start :: es.map Event.now, r.lastReset ≤ a
  /-- No probe was charged after the day of the last reset. -/
  charged_le : ∀ e ∈ es, e.returns i = true → window added e.now ≤ window added r.lastReset
  /-- The counter is the number of probes of the day of the last reset. -/
  used : r.usedToday = chargedOn added es i (window added r.lastReset)

variable {start added : Int} {es : List (Event F)} {e : Event F} {i : String} {r : Record F}

/-! ## One step -/

section Window

variable {t : Int}

/-- An instant of the day that starts at `L`. -/
theorem window_eq_of_aligned {L : Int} (hL : L = added + window added L * dailyResetInterval)
    (hle : L ≤ t) (hlt : t < L + dailyResetInterval) : window added t = window added L := by
  unfold window at *
  rw [Record.dailyResetInterval_eq] at *
  omega

end Window

omit [LinearOrder F] in
/-- Only `Binding` and `Restore` write the time of the last reset. -/
theorem Event.effect_lastReset (hb : ∀ task, e.op ≠ .binding task) (hop : ¬ e.op.IsRestore) :
    (e.effect r).lastReset = r.lastReset := by
  apply effect_proj Record.lastReset hb hop <;>
    simp [Record.enable, Record.disable, Record.quarantine, Record.setOnline, Record.setSpec]

omit [LinearOrder F] in
/-- Only `Binding` and `Restore` write the counter. -/
theorem Event.effect_usedToday (hb : ∀ task, e.op ≠ .binding task) (hop : ¬ e.op.IsRestore) :
    (e.effect r).usedToday = r.usedToday := by
  apply effect_proj Record.usedToday hb hop <;>
    simp [Record.enable, Record.disable, Record.quarantine, Record.setOnline, Record.setSpec]

namespace Accounted

omit [Add F] [Sub F] [Mul F] [OfScientific F] [LinearOrder F] in
/-- The account of an identity that has just been added. -/
theorem fresh (spec : Spec) (hadded : added ∈ start :: es.map Event.now)
    (hret : ∀ e ∈ es, e.returns i = false) :
    Accounted start added es i (.fresh spec added) := by
  refine ⟨by simp [Record.fresh, window], ⟨added, hadded, le_rfl⟩, ?_, ?_⟩
  · intro e he hret'
    rw [hret e he] at hret'
    exact absurd hret' Bool.false_ne_true
  · rw [eq_comm, chargedOn, Record.fresh, Int.natCast_eq_zero, List.countP_eq_zero]
    intro e he
    simp [hret e he]

omit [Add F] [Sub F] [Mul F] [OfScientific F] [LinearOrder F] in
/-- A step that leaves the counters alone and returns another identity or none. -/
theorem of_frame (h : Accounted start added es i r) {r' : Record F}
    (hreset : r'.lastReset = r.lastReset) (hused : r'.usedToday = r.usedToday)
    (hret : e.returns i = false) : Accounted start added (es ++ [e]) i r' := by
  -- the new event charges nothing, so that only the list of instants grows
  refine ⟨?_, ?_, ?_, ?_⟩
  · rw [hreset]
    exact h.aligned
  · obtain ⟨a, ha, hle⟩ := h.past
    refine ⟨a, ?_, by omega⟩
    rw [List.map_append, ← List.cons_append]
    exact List.mem_append_left _ ha
  · intro e' he' hret'
    rw [hreset]
    rcases List.mem_append.mp he' with hmem | hmem
    · exact h.charged_le e' hmem hret'
    · rw [List.mem_singleton.mp hmem, hret] at hret'
      exact absurd hret' Bool.false_ne_true
  · rw [hused, hreset, h.used, chargedOn, chargedOn, List.countP_append]
    simp [hret]

omit [Add F] [Sub F] [Mul F] [OfScientific F] [LinearOrder F] in
/-- What reconciliation at `now` does to an account: the last reset is the start of the
    day of `now`, and the counter is the number of probes of that day. -/
theorem reconcile (h : Accounted start added es i r) {now : Int} (stages : Nat)
    (hnow : ∀ a ∈ start :: es.map Event.now, a ≤ now) :
    (r.reconcile stages now).lastReset =
        added + window added (r.reconcile stages now).lastReset * dailyResetInterval ∧
      window added (r.reconcile stages now).lastReset = window added now ∧
      (r.reconcile stages now).usedToday = chargedOn added es i (window added now) := by
  obtain ⟨a, ha, hle⟩ := h.past
  have hlast : r.lastReset ≤ now := hle.trans (hnow a ha)
  -- the resets of the loop are whole days, so the last one stays on the grid
  have haligned : (r.reconcile stages now).lastReset =
      added + window added (r.reconcile stages now).lastReset * dailyResetInterval := by
    have hal := h.aligned
    rw [Record.reconcile_lastReset]
    unfold window at *
    rw [Record.dailyResetInterval_eq] at *
    omega
  have hday : window added now = window added (r.reconcile stages now).lastReset :=
    window_eq_of_aligned haligned (Record.reconcile_lastReset_le hlast)
      (r.reconcile_lastReset_lt stages now)
  refine ⟨haligned, hday.symm, ?_⟩
  rw [Record.reconcile_usedToday]
  by_cases hpend : r.pendingResets now = 0
  · -- the day of the last reset is not over
    have hsame : (r.reconcile stages now).lastReset = r.lastReset := by
      rw [Record.reconcile_lastReset, hpend]
      simp
    rw [if_pos hpend, h.used, hday, hsame]
  · -- a new day has begun, on which nothing was charged yet
    have hlater : window added r.lastReset < window added now := by
      have hal := h.aligned
      rw [hday, Record.reconcile_lastReset]
      unfold window at *
      rw [Record.dailyResetInterval_eq] at *
      omega
    rw [if_neg hpend, chargedOn, eq_comm, Int.natCast_eq_zero, List.countP_eq_zero]
    intro e he
    simp only [Bool.and_eq_true, decide_eq_true_eq, not_and]
    intro hret
    have := h.charged_le e he hret
    omega

omit [LinearOrder F] in
/-- Every operation except `Restore` keeps the account of an identity. -/
theorem effect (h : Accounted start added es r.id r) (hop : ¬ e.op.IsRestore)
    (hnow : ∀ a ∈ start :: es.map Event.now, a ≤ e.now)
    (hret : ∀ i, e.returns i = true → ∃ task, e.op = .binding task) :
    Accounted start added (es ++ [e]) r.id (e.effect r) := by
  -- `Binding` reconciles and may charge; nothing else writes the counters
  by_cases hb : ∃ task, e.op = .binding task
  · obtain ⟨task, hb⟩ := hb
    obtain ⟨haligned, hday, hused⟩ := h.reconcile e.pre.warmupStages.length hnow
    obtain ⟨-, -, hlast, -, -⟩ := Event.effect_binding_frame hb r
    refine ⟨?_, ?_, ?_, ?_⟩
    · rw [hlast]
      exact haligned
    · obtain ⟨a, ha, hle⟩ := h.past
      refine ⟨e.now, by simp, ?_⟩
      rw [hlast]
      exact Record.reconcile_lastReset_le (hle.trans (hnow a ha))
    · intro e' he' hret'
      rw [hlast, hday]
      rcases List.mem_append.mp he' with hmem | hmem
      · have hlt := hnow e'.now (by simpa using .inr ⟨e', hmem, rfl⟩)
        exact Int.ediv_le_ediv (by decide) (by omega)
      · rw [List.mem_singleton.mp hmem]
    · rw [Event.effect_binding_usedToday hb, hused, hlast, hday, chargedOn, chargedOn,
        List.countP_append]
      cases hr : e.returns r.id <;> simp [hr]
  · have hnb : ∀ task, e.op ≠ .binding task := fun task ht => hb ⟨task, ht⟩
    refine h.of_frame (Event.effect_lastReset hnb hop) (Event.effect_usedToday hnb hop) ?_
    · cases hr : e.returns r.id with
      | false => rfl
      | true => exact absurd (hret _ hr) hb

end Accounted

/-! ## Executions -/

omit [Add F] [Sub F] [Mul F] [OfScientific F] [LinearOrder F] in
/-- The last event counts only if the identity was not added before. -/
private theorem addedAt_snoc {cfg : Config F} : addedAt cfg start (es ++ [e]) i =
    (addedAt cfg start es i).or (e.addedAt i) := by
  unfold addedAt
  split
  · rfl
  · rw [List.findSome?_append]
    simp

/-- The account of an identity that has been added, in every execution from `New` with a
    clock that does not go backwards. Before it is added, it is never returned. -/
theorem Manager.Runs.accounted {cfg : Config F} {m : Manager F}
    (h : (Manager.new cfg start).Runs es m) (hclock : Monotone start es)
    (hes : NoRestore es) (i : String) :
    match addedAt cfg start es i with
    | none => m.get? i = none ∧ ∀ e ∈ es, e.returns i = false
    | some added => ∃ r, m.get? i = some r ∧ Accounted start added es i r := by
  revert hclock hes
  refine h.history (I := fun es m => Monotone start es → NoRestore es →
    match addedAt cfg start es i with
    | none => m.get? i = none ∧ ∀ e ∈ es, e.returns i = false
    | some added => ∃ r, m.get? i = some r ∧ Accounted start added es i r) ?_ ?_
  · -- `New` adds the configured identities at the start
    intro _ _
    cases hnew : (Manager.new cfg start).get? i with
    | some r =>
      obtain ⟨spec, hspec, rfl, rfl⟩ := exists_of_get?_new hnew
      have hmem : spec.id ∈ cfg.identities.map (·.id) := List.mem_map_of_mem hspec
      simp only [addedAt, hmem, if_true]
      exact ⟨_, rfl, .fresh spec (by simp) (by simp)⟩
    | none =>
      have hmem : i ∉ cfg.identities.map (·.id) := by
        rw [← order_new cfg start, OrderedMap.mem_order, Option.not_isSome_iff_eq_none]
        exact hnew
      simp only [addedAt, hmem, if_false]
      simp
  · intro es m e m' hrun ih hstep hclock hes
    rw [monotone_snoc] at hclock
    have hold := ih hclock.1 fun e he => hes e (by simp [he])
    rw [addedAt_snoc]
    cases hadd : addedAt cfg start es i with
    | some added =>
      -- adding an identity again does not move its day
      simp only [hadd] at hold
      obtain ⟨r, hr, hacc⟩ := hold
      obtain rfl : r.id = i := m.pool.key_eq i r hr
      exact ⟨e.effect r, hstep.get? hr, hacc.effect (hes e (by simp)) hclock.2
        fun _ => hstep.op_of_returns⟩
    | none =>
      simp only [hadd] at hold
      obtain ⟨hnone, hret⟩ := hold
      -- a `Binding` only returns identities it found in the pool
      have hrete : e.returns i = false := by
        apply hstep.not_returns_of_not_eligible
        intro task r hop hr
        exact absurd (hnone.symm.trans hr) (by simp)
      have hret' : ∀ e' ∈ es ++ [e], e'.returns i = false := by
        simpa [or_imp, forall_and] using ⟨hret, hrete⟩
      have hget := hstep.get?_none hnone
      cases hop : e.op with
      | addIdentity spec =>
        simp only [hop] at hget
        by_cases hi : spec.id = i
        · simp only [Event.addedAt, hop, hi, if_true, Option.none_or]
          rw [if_pos hi] at hget
          exact ⟨_, hget, .fresh spec (by simp) hret'⟩
        · simp only [Event.addedAt, hop, hi, if_false, Option.none_or]
          rw [if_neg hi] at hget
          exact ⟨hget, hret'⟩
      | _ =>
        simp only [hop] at hget
        simp only [Event.addedAt, hop, Option.none_or]
        exact ⟨hget, hret'⟩

/-- The record of an identity is accounted for from the time it was added. -/
theorem Manager.Runs.exists_accounted {cfg : Config F} {m : Manager F}
    (h : (Manager.new cfg start).Runs es m) (hclock : Monotone start es) (hes : NoRestore es)
    (hr : m.get? i = some r) :
    ∃ added, addedAt cfg start es i = some added ∧ Accounted start added es i r := by
  have hacc := h.accounted hclock hes i
  cases hadd : addedAt cfg start es i with
  | none =>
    simp only [hadd, hr] at hacc
    cases hacc.1
  | some added =>
    simp only [hadd, hr, Option.some.injEq, exists_eq_left'] at hacc
    exact ⟨added, rfl, hacc⟩

/-! ## The cap -/

omit [Add F] [Sub F] [Mul F] [OfScientific F] [LinearOrder F] in
/-- `capFor` of a warming identity: the table entry of its stage, or the last one. -/
theorem Record.capFor_warming {t : Tuning F} (h : r.state = .warming) : capFor t r =
    stageAt t.warmupStages (min r.warmupStage (t.warmupStages.length - 1)) := by
  unfold capFor
  rw [if_pos h]
  dsimp only
  congr 1
  split <;> omega

omit [Add F] [Sub F] [Mul F] [OfScientific F] [LinearOrder F] in
/-- A limit of the ramp is one of its stages. -/
theorem Record.mem_of_stageAt {stages : List Int} {n limit : Int}
    (h : stageAt stages n = some limit) : limit ∈ stages := by
  unfold stageAt at h
  split at h
  · cases h
  · exact List.mem_of_getElem? h

omit [Add F] [Sub F] [Mul F] in
/-- The stages in force are positive if those of the configuration are. -/
private theorem pos_of_mem_warmupStages {cfg : Config F} (h : ∀ s ∈ cfg.warmupStages, 0 < s) :
    ∀ s ∈ (Manager.tuningOf cfg).warmupStages, 0 < s := by
  unfold Manager.tuningOf
  dsimp only
  split
  · simp
  · exact h

/-- No run changes the stages and the cap. -/
theorem Manager.Runs.fixed_tuning {cfg : Config F} {m : Manager F}
    (h : (Manager.new cfg start).Runs es m) :
    m.warmupStages = (tuningOf cfg).warmupStages ∧ m.activeDailyCap = cfg.activeDailyCap := by
  refine h.invariant (P := fun m => m.warmupStages = (tuningOf cfg).warmupStages ∧
    m.activeDailyCap = cfg.activeDailyCap) ⟨rfl, rfl⟩ fun a e b _ ha hstep => ?_
  obtain ⟨-, -, hstages, hcap, -⟩ := hstep.fixed_tuning
  rw [hstages, hcap]
  exact ha

/-- The daily cap. In every execution from `New` without `Restore`, with positive warm-up
    stages and a clock that does not go backwards: `capFor` never leaves the warm-up
    table; and a `Binding` that returns `i`, as the `k`-th of a day of `i`, finds `k` within
    the cap of the stage of `i` if it is warming, and within a configured cap if it is
    active. -/
theorem daily_cap {cfg : Config F} {m : Manager F} (hstages : ∀ s ∈ cfg.warmupStages, 0 < s)
    (hrun : (Manager.new cfg start).Runs es m) (hclock : Monotone start es) (hes : NoRestore es) :
    (∀ now op, (m.exec now op).isSome) ∧
    (∀ now i r, (m.reconcileLocked now).get? i = some r → (Record.capFor m.toTuning r).isSome) ∧
    ∀ e m' i, m.Step e m' → Monotone start (es ++ [e]) → e.returns i = true →
      ∃ added r, addedAt cfg start es i = some added ∧ m'.get? i = some r ∧
        let stages := (Manager.tuningOf cfg).warmupStages
        let k := chargedOn added es i (window added e.now) + 1
        (r.state = .warming → ∃ limit,
          Record.stageAt stages (min r.warmupStage (stages.length - 1)) = some limit ∧ k ≤ limit) ∧
        (r.state = .active → 0 < cfg.activeDailyCap → k ≤ cfg.activeDailyCap) := by
  have hm := hrun.reachable hes
  refine ⟨hm.exec_isSome, fun now _ _ hr => hm.capFor_isSome now hr, ?_⟩
  intro e m' i hstep hclock' hret
  obtain ⟨task, hop⟩ := hstep.op_of_returns hret
  obtain ⟨r, hr, hel⟩ := hstep.eligible_of_returns hop hret
  obtain ⟨added, hadd, hacc⟩ := hrun.exists_accounted hclock hes hr
  obtain ⟨-, -, hused⟩ := hacc.reconcile m.warmupStages.length (monotone_snoc.mp hclock').2
  obtain ⟨hstate, hstage, -⟩ := Event.effect_binding_frame hop r
  rw [hstep.1] at hstate hstage
  obtain ⟨hsame, hactive⟩ := hrun.fixed_tuning
  have hget : (m.reconcileLocked e.now).get? i =
      some (r.reconcile m.warmupStages.length e.now) := by
    rw [Manager.get?_reconcileLocked, hr, Option.map_some]
  -- state and stage after the step are those of the reconciled record that was eligible
  refine ⟨added, e.effect r, hadd, hstep.get? hr, ?_, ?_⟩
  · intro hw
    rw [hstate] at hw
    obtain ⟨limit, hlimit⟩ := Option.isSome_iff_exists.mp (hm.capFor_isSome e.now hget)
    have hentry := hlimit
    rw [Record.capFor_warming hw] at hentry
    -- a limit that is not positive would mean no limit
    have hpos : 0 < limit := by
      apply pos_of_mem_warmupStages hstages
      rw [← hsame]
      exact Record.mem_of_stageAt hentry
    have hlt := hel.below_cap limit hlimit hpos
    rw [hused] at hlt
    rw [hstage, ← hsame]
    exact ⟨limit, hentry, by omega⟩
  · intro ha hpos
    rw [hstate] at ha
    have hlimit : Record.capFor m.toTuning (r.reconcile m.warmupStages.length e.now) =
        some cfg.activeDailyCap := by
      rw [Record.capFor, if_neg (by rw [ha]; decide), hactive]
    have hlt := hel.below_cap _ hlimit hpos
    rw [hused] at hlt
    omega

/-- One identity that warms up through two stages. -/
def rampConfig : Config ℚ where
  identities := [{ id := "a", warmUp := true }]
  healthAlpha := 0
  warmupStages := [2, 3]

/-- Two probes on the first day of a ramp. -/
theorem daily_cap_ramp : ∃ es m e m', (Manager.new rampConfig 0).Runs es m ∧ m.Step e m' ∧
    es.map Event.now = [5] ∧ e.now = 7 ∧ e.returns "a" = true ∧
    ∃ added r, addedAt rampConfig 0 es "a" = some added ∧ m'.get? "a" = some r ∧
      (r.state = .warming → ∃ limit, Record.stageAt [2, 3] (min r.warmupStage 1) = some limit ∧
        chargedOn added es "a" (window added 7) + 1 ≤ limit) := by
  obtain ⟨e₁, m, e₂, m', hstep₁, hstep, h₁, h₂, -, hreturns⟩ :=
    (Manager.new rampConfig 0).exists_steps (5, .binding gmailTask) (7, .binding gmailTask)
      (·.returns "a") true true (by decide +kernel)
  have hrun₁ : (Manager.new rampConfig 0).Runs [e₁] m := Run.singleton_iff.mpr hstep₁
  have hclock : Monotone 0 ([e₁] ++ [e₂]) := by simp [Monotone, h₁, h₂]
  have hes : NoRestore [e₁] := by simp [NoRestore, h₁, Op.IsRestore]
  obtain ⟨-, -, hcap⟩ := daily_cap (by decide) hrun₁ (monotone_snoc.mp hclock).1 hes
  obtain ⟨added, r, hadd, hr, hwarm, -⟩ := hcap e₂ m' "a" hstep hclock hreturns
  rw [h₂.1] at hwarm
  exact ⟨[e₁], m, e₂, m', hrun₁, hstep, by simp [h₁], h₂.1, hreturns, added, r, hadd, hr, hwarm⟩

end Rcptto.Native
