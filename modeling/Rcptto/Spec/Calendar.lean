import Rcptto.Spec.WarmUp

/-!
# Warming up by the calendar

An identity that is added with warm-up climbs one stage for every full day since then, whenever
`Binding` happens to be called. Resets are lazy: the record stays on the day of the last `Binding`,
and the next one applies all the resets that have fallen due in between. How the time is split over
the calls makes no difference, since a reset moves the record from one day to the next.

## Key results

- `OnDay.dailyReset`: one reset is one more day
- `OnDay.reconcile`: a `Binding` brings the record up to date
- `warmUp_calendar`: stage, state and last reset after every `Binding`
-/

namespace Rcptto.Native

variable {F : Type} [Add F] [Sub F] [Mul F] [OfScientific F] [LinearOrder F]
  {S : Int} {stages k : Nat} {e : Event F} {i : String} {r : Record F} {m m' : Manager F}

/-- The record of an identity that was added at `S`, on its day number `k`. -/
structure OnDay (S : Int) (stages k : Nat) (r : Record F) : Prop where
  lastReset : r.lastReset = S + k * dailyResetInterval
  warmupStage : r.warmupStage = min k stages
  state : r.state = if stages ≤ k then .active else .warming

/-! ## One step -/

namespace OnDay

omit [Add F] [Sub F] [Mul F] [OfScientific F] [LinearOrder F]

/-- An identity that has just been added. -/
theorem fresh {spec : Spec} (hwarm : spec.warmUp = true) (hlen : 0 < stages) :
    OnDay S stages 0 (.fresh spec S : Record F) := by
  refine ⟨by simp [Record.fresh], by simp [Record.fresh], ?_⟩
  rw [if_neg (by omega)]
  simp [Record.fresh, hwarm]

/-- Only the lifecycle fields matter. -/
theorem of_frame {r' : Record F} (h : OnDay S stages k r) (hs : r'.state = r.state)
    (hw : r'.warmupStage = r.warmupStage) (hl : r'.lastReset = r.lastReset) :
    OnDay S stages k r' :=
  ⟨hl.trans h.lastReset, hw.trans h.warmupStage, hs.trans h.state⟩

/-- One reset is one more day. -/
theorem dailyReset (h : OnDay S stages k r) : OnDay S stages (k + 1) (r.dailyReset stages) := by
  have hlast : (r.dailyReset stages).lastReset = S + (k + 1 : Nat) * dailyResetInterval := by
    rw [Record.dailyReset_lastReset, h.lastReset]
    push_cast
    ring
  have hstage := h.warmupStage
  have hstate := h.state
  by_cases hk : stages ≤ k
  · -- the record is active and stays as it is
    rw [if_pos hk] at hstate
    have hne : r.state ≠ .warming := by simp [hstate]
    refine ⟨hlast, ?_, ?_⟩
    · rw [Record.dailyReset_warmupStage_of_ne stages hne, hstage]
      omega
    · rw [Record.dailyReset_state_of_ne stages hne, hstate, if_pos (by omega)]
  · rw [if_neg hk] at hstate
    obtain ⟨hstage', hstate'⟩ := Record.dailyReset_warming stages hstate
    refine ⟨hlast, ?_, ?_⟩
    · rw [hstage', hstage]
      omega
    · rw [hstate', hstage]
      by_cases hnext : stages ≤ k + 1
      · rw [if_pos (by omega), if_pos hnext]
      · rw [if_neg (by omega), if_neg hnext]

/-- Some more daily resets. -/
theorem iterate (h : OnDay S stages k r) (n : Nat) :
    OnDay S stages (k + n) ((fun r => r.dailyReset stages)^[n] r) := by
  induction n with
  | zero => exact h
  | succ n ih =>
    rw [Function.iterate_succ_apply']
    exact ih.dailyReset

/-- There is no quarantine that could expire. -/
theorem expire (h : OnDay S stages k r) (now : Int) : r.expire now = r := by
  rw [Record.expire, if_neg]
  rintro ⟨hq, -⟩
  rw [h.state] at hq
  split at hq <;> cases hq

/-- Reconciliation brings the record up to date. -/
theorem reconcile (h : OnDay S stages k r) {now : Int} (hlast : r.lastReset ≤ now) :
    ∃ k' : Nat, (now - S) / dailyResetInterval = k' ∧
      OnDay S stages k' (r.reconcile stages now) := by
  refine ⟨k + r.pendingResets now, ?_, ?_⟩
  · have hday := h.lastReset
    unfold Record.pendingResets
    rw [Record.dailyResetInterval_eq] at *
    omega
  · rw [Record.reconcile_eq_iterate, Record.expire_pendingResets, h.expire]
    exact h.iterate _

end OnDay

omit [LinearOrder F] in
/-- An operation that does not interfere leaves the record on some day. -/
theorem OnDay.effect (h : ∃ k, OnDay S e.pre.warmupStages.length k r)
    (hpre : e.pre.get? r.id = some r) (hd : ¬ e.Interferes r.id) :
    ∃ k, OnDay S e.pre.warmupStages.length k (e.effect r) := by
  obtain ⟨k, h⟩ := h
  rcases Event.effect_lifecycle hpre hd with ⟨task, hop⟩ | ⟨hs, hw, hl⟩
  · obtain ⟨hs, hw, hl, -, -⟩ := Event.effect_binding_frame hop r
    rw [Record.reconcile_eq_iterate, h.expire] at hs hw hl
    exact ⟨_, (h.iterate _).of_frame hs hw hl⟩
  · exact ⟨k, h.of_frame hs hw hl⟩

/-! ## Executions -/

/-- The identity `i` has just been added with warm-up, at the time `S`: by `New`, or by the last
    event, which has found it unregistered. -/
def JustAdded (S : Int) (i : String) (start : Int) (es : List (Event F)) (m : Manager F) : Prop :=
  (∃ r, m.get? i = some r ∧ r.spec.warmUp = true) ∧
    (es = [] ∧ S = start ∨ ∃ es' e, es = es' ++ [e] ∧ e.pre.get? i = none ∧ e.now = S)

/-- An identity that has just been added has a fresh record. -/
theorem JustAdded.fresh {cfg : Config F} {start : Int} {es : List (Event F)}
    (hrun : (Manager.new cfg start).Runs es m) (h : JustAdded S i start es m) :
    ∃ spec, spec.warmUp = true ∧ m.get? i = some (.fresh spec S) := by
  obtain ⟨⟨r, hr, hwarm⟩, ⟨rfl, rfl⟩ | ⟨es', e, rfl, hpre, rfl⟩⟩ := h
  · obtain rfl := Run.nil_iff.mp hrun
    obtain ⟨spec, -, -, rfl⟩ := Manager.exists_of_get?_new hr
    exact ⟨spec, hwarm, hr⟩
  · obtain ⟨m₀, -, hstep⟩ := Run.snoc_iff.mp hrun
    rw [hstep.1] at hpre
    obtain ⟨spec, -, -, rfl⟩ := hstep.fresh_of_get?_none hpre hr
    exact ⟨spec, hwarm, hr⟩

omit [Add F] [Sub F] [Mul F] [OfScientific F] [LinearOrder F] in
/-- What comes after it has been added comes later. -/
theorem JustAdded.monotone {start : Int} {es fs : List (Event F)} (h : JustAdded S i start es m)
    (hclock : Monotone start (es ++ fs)) : Monotone S fs := by
  obtain ⟨-, ⟨rfl, rfl⟩ | ⟨es', e, rfl, -, rfl⟩⟩ := h
  · exact hclock
  · refine hclock.sublist ?_
    simp

/-- In every execution with a clock that does not go backwards, and for every identity that is added
    with warm-up at `S` and is not quarantined, disabled, enabled or restored afterwards: after
    every `Binding` at a time `t`, whenever the calls before it were made, its stage is the number
    of full days since `S`, up to the number of stages; it is active if that many days have passed,
    and warming otherwise; and its last reset was at the beginning of the day. -/
theorem warmUp_calendar {cfg : Config F} {start t : Int} {es fs : List (Event F)} {task : Task}
    (hrun : (Manager.new cfg start).Runs es m) (hadd : JustAdded S i start es m)
    (hrun' : m.Runs (fs ++ [e]) m') (hclock : Monotone start (es ++ (fs ++ [e])))
    (hquiet : ∀ f ∈ fs ++ [e], ¬ f.Interferes i) (hop : e.op = .binding task) (ht : e.now = t) :
    ∃ r, m'.get? i = some r ∧
      r.warmupStage = min ((t - S) / dailyResetInterval) m.warmupStages.length ∧
      r.state = (if m.warmupStages.length ≤ (t - S) / dailyResetInterval then .active
        else .warming) ∧
      r.lastReset = S + dailyResetInterval * ((t - S) / dailyResetInterval) := by
  subst ht
  obtain ⟨spec, hwarm, hfresh⟩ := hadd.fresh hrun
  have hlen : 0 < m.warmupStages.length := by
    rw [(Manager.Runs.fixed_tuning hrun).1]
    exact List.length_pos_iff.mpr Manager.warmupStages_tuningOf_ne_nil
  obtain ⟨hmono, hle⟩ := monotone_snoc.mp (hadd.monotone hclock)
  obtain ⟨m₁, hfs, hstep⟩ := Run.snoc_iff.mp hrun'
  -- before the `Binding`, the record is on some day up to now
  obtain ⟨hstages, r, hr, ⟨k, hday⟩, a, ha, hlast⟩ := Manager.Runs.undisturbed
    (P := fun r => ∃ k, OnDay S m.warmupStages.length k r) hfs hfresh ⟨0, .fresh hwarm hlen⟩ le_rfl
    hmono (fun f hf => hquiet f (List.mem_append_left _ hf)) fun f r hpre hr hd h => by
      rw [← hpre] at h ⊢
      exact OnDay.effect h hr hd
  -- and the `Binding` brings it up to date
  obtain ⟨k', hk', hday'⟩ := hday.reconcile (hlast.trans (hle a ha))
  obtain ⟨hs, hw, hl, -, -⟩ := Event.effect_binding_frame hop r
  rw [hstep.1, hstages] at hs hw hl
  have htoday := hday'.of_frame hs hw hl
  refine ⟨e.effect r, hstep.get? hr, ?_, ?_, ?_⟩
  · rw [htoday.warmupStage, hk', Nat.cast_min]
  · rw [htoday.state, hk']
    simp only [Nat.cast_le]
  · rw [htoday.lastReset, hk', mul_comm]

/-- One identity that warms up. -/
def warmConfig : Config ℚ where
  identities := [{ id := "a", warmUp := true }]
  healthAlpha := 0

/-- A `Binding` after thirty hours and one after forty-nine: the identity is at its stage 2. -/
theorem warmUp_calendar_third_day : ∃ e₁ e₂ m r,
    (Manager.new warmConfig 0).Runs [e₁, e₂] m ∧
    (e₁.now = 30 * hour ∧ e₁.op = .binding gmailTask) ∧
    (e₂.now = 49 * hour ∧ e₂.op = .binding gmailTask) ∧
    m.get? "a" = some r ∧ r.warmupStage = 2 ∧ r.state = .warming ∧ r.lastReset = 48 * hour := by
  obtain ⟨e₁, m₁, e₂, m₂, hstep₁, hstep₂, h₁, h₂, -⟩ := (Manager.new warmConfig 0).exists_steps
    (30 * hour, .binding gmailTask) (49 * hour, .binding gmailTask) (fun e => e.returns "a")
    true true (by decide +kernel)
  have hrun : (Manager.new warmConfig 0).Runs ([e₁] ++ [e₂]) m₂ :=
    .cons hstep₁ (Run.singleton_iff.mpr hstep₂)
  -- the identity is there from the start
  have hadd : JustAdded 0 "a" 0 [] (Manager.new warmConfig 0) := by
    refine ⟨?_, .inl ⟨rfl, rfl⟩⟩
    rw [Manager.get?_new]
    exact ⟨_, rfl, rfl⟩
  have hclock : Monotone 0 ([] ++ ([e₁] ++ [e₂])) := by
    simp [Monotone, h₁.1, h₂.1, hour, minute]
  have hquiet : ∀ f ∈ [e₁] ++ [e₂], ¬ f.Interferes "a" := by
    simp [Event.Interferes, Event.Disturbs, h₁.2, h₂.2]
  obtain ⟨r, hr, hstage, hstate, hlast⟩ :=
    warmUp_calendar (.nil _) hadd hrun hclock hquiet h₂.2 h₂.1
  exact ⟨e₁, e₂, m₂, r, hrun, h₁, h₂, hr, hstage.trans (by decide), hstate.trans (by decide),
    hlast.trans (by decide)⟩

end Rcptto.Native
