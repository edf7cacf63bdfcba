import Rcptto.ForStd.Grid
import Rcptto.Spec.DailyCap
import Rcptto.Spec.Quarantine

/-!
# Warming up again after a quarantine

An identity that leaves quarantine is to ramp up from the bottom: one stage for each of
its daily resets since the quarantine ended. Expiry and resets are applied together by
the first `Binding` after the end of the quarantine, expiry first. Resets that fell due
while the identity was still quarantined are then counted as well, so the ramp is right
exactly when there are none of them, or when enough resets have passed since anyway.

## Key results

- `Ramping.dailyReset`: one reset moves the stage and the number of resets together
- `Event.effect_lifecycle`: an operation that does not interfere leaves the ramp to `Binding`
- `Manager.Runs.undisturbed`: the induction rule for executions that do not interfere
- `ramped_iff`: the ramp is right throughout if and only if no reset fell due during the
  quarantine, or as many as there are stages fell due after it
-/

namespace Rcptto.Native

variable {F : Type} [Add F] [Sub F] [Mul F] [OfScientific F] [LinearOrder F]

/-- At the time `t`, an identity whose resets lie on the grid of `L` and whose quarantine
    ended at `Q` has at most one stage for each reset since, and is active only after as
    many resets as there are stages. -/
def Ramped (Q L t : Int) (stages : Nat) (r : Record F) : Prop :=
  r.warmupStage ≤ Int.ticks dailyResetInterval L Q t ∧
    (r.state = .active → stages ≤ Int.ticks dailyResetInterval L Q t)

/-- The event takes the identity `i` off its ramp: it quarantines, enables or disables it,
    or restores states. -/
def Event.Disturbs (e : Event F) (i : String) : Prop :=
  match e.op with
  | .emit signals =>
    ∃ r, e.pre.get? i = some r ∧ Trips e.pre.quarantineThreshold r.blockStreak i signals
  | .quarantine id _ => id = i
  | .enable id => id = i
  | .disable id _ => id = i
  | .restore _ => True
  | _ => False

/-- The same, where a restored state counts only if it is one of `i`. -/
def Event.Interferes (e : Event F) (i : String) : Prop :=
  match e.op with
  | .restore states => i ∈ states.map (·.id)
  | _ => e.Disturbs i

/-! ## One step -/

/-- What holds of a record on its ramp, whatever the clock says. The number of resets
    between `Q` and `lastReset` is written as a difference of grid indices. -/
structure Ramping (Q L : Int) (stages : Nat) (r : Record F) : Prop where
  aligned : ∃ k : Int, r.lastReset = L + k * dailyResetInterval
  recent : Q < r.lastReset + dailyResetInterval
  state : r.state = .warming ∨ r.state = .active
  stage_le : r.warmupStage ≤
    (r.lastReset - L) / dailyResetInterval - (Q - L) / dailyResetInterval
  active_le : r.state = .active →
    stages ≤ (r.lastReset - L) / dailyResetInterval - (Q - L) / dailyResetInterval

variable {Q L : Int} {stages : Nat} {e : Event F} {i : String} {r : Record F} {m m' : Manager F}

omit [Add F] [Sub F] [Mul F] [OfScientific F] [LinearOrder F] in
/-- The number of resets is a difference of days, counted from `L`. -/
theorem ramped_iff_index {t : Int} (hQ : Q ≤ t) : Ramped Q L t stages r ↔
    r.warmupStage ≤ (t - L) / dailyResetInterval - (Q - L) / dailyResetInterval ∧
      (r.state = .active →
        stages ≤ (t - L) / dailyResetInterval - (Q - L) / dailyResetInterval) := by
  have hticks := Int.ticks_eq (L := L) (show 0 < dailyResetInterval by decide) hQ
  rw [Ramped, ← hticks]
  simp only [Nat.cast_le]

omit [LinearOrder F] in
/-- An operation that does not interfere with an identity leaves its place on the ramp alone,
    unless it is a `Binding`. -/
theorem Event.effect_lifecycle (hpre : e.pre.get? r.id = some r) (hd : ¬ e.Interferes r.id) :
    (∃ task, e.op = .binding task) ∨ (e.effect r).state = r.state ∧
      (e.effect r).warmupStage = r.warmupStage ∧ (e.effect r).lastReset = r.lastReset := by
  unfold Interferes Disturbs at hd
  cases hc : e.op with
  | binding task => exact .inl ⟨task, rfl⟩
  | emit signals =>
    simp only [hc] at hd
    -- signals that do not trip the quarantine leave the state alone
    have htrip : ¬ Trips e.pre.quarantineThreshold r.blockStreak r.id signals :=
      fun ht => hd ⟨r, hpre, ht⟩
    simp only [effect, hc]
    refine .inr ⟨((r.applySignals_state e.pre.toTuning e.now signals).2 htrip).1, ?_, ?_⟩
    · exact Record.applySignals_proj Record.warmupStage (by simp) r signals
    · exact Record.applySignals_proj Record.lastReset (by simp) r signals
  | restore states =>
    simp only [hc] at hd
    simp only [effect, hc]
    rw [Record.restoreAll_of_notMem hd]
    exact .inr ⟨rfl, rfl, rfl⟩
  | setThresholds quarantine circuit =>
    have heffect : e.effect r = r := by simp only [effect, hc]
    rw [heffect]
    exact .inr ⟨rfl, rfl, rfl⟩
  | setOnline id online =>
    simp only [effect, hc]
    split <;> exact .inr ⟨rfl, rfl, rfl⟩
  | addIdentity spec =>
    simp only [effect, hc]
    split <;> exact .inr ⟨rfl, rfl, rfl⟩
  | _ =>
    simp only [hc] at hd
    simp only [effect, hc]
    rw [if_neg hd]
    exact .inr ⟨rfl, rfl, rfl⟩

omit [Add F] [Sub F] [Mul F] [OfScientific F] [LinearOrder F] in
theorem Event.Interferes.disturbs (h : e.Interferes i) : e.Disturbs i := by
  unfold Interferes at h
  split at h
  · next hop => simp [Disturbs, hop]
  · exact h

namespace Ramping

omit [Add F] [Sub F] [Mul F] [OfScientific F] [LinearOrder F] in
/-- Only the lifecycle fields matter. -/
theorem of_frame {r' : Record F} (h : Ramping Q L stages r) (hl : r'.lastReset = r.lastReset)
    (hs : r'.state = r.state) (hw : r'.warmupStage = r.warmupStage) :
    Ramping Q L stages r' := by
  obtain ⟨h₁, h₂, h₃, h₄, h₅⟩ := h
  exact ⟨by rwa [hl], by rwa [hl], by rwa [hs], by rwa [hl, hw], by rwa [hl, hs]⟩

omit [Add F] [Sub F] [Mul F] [OfScientific F] [LinearOrder F] in
/-- One daily reset is one more grid instant, and at most one more stage. -/
theorem dailyReset (h : Ramping Q L stages r) : Ramping Q L stages (r.dailyReset stages) := by
  obtain ⟨⟨k, hk⟩, hrecent, hstate, hstage, hactive⟩ := h
  have hnext : (r.lastReset + dailyResetInterval - L) / dailyResetInterval =
      (r.lastReset - L) / dailyResetInterval + 1 := by
    rw [Record.dailyResetInterval_eq] at *
    omega
  have haligned : ∃ k : Int, (r.dailyReset stages).lastReset = L + k * dailyResetInterval := by
    refine ⟨k + 1, ?_⟩
    rw [Record.dailyReset_lastReset, hk]
    ring
  have hrecent' : Q < (r.dailyReset stages).lastReset + dailyResetInterval := by
    rw [Record.dailyReset_lastReset]
    rw [Record.dailyResetInterval_eq] at *
    omega
  -- a warming record climbs one stage with the reset, an active one stays where it is
  rcases hstate with hw | ha
  · obtain ⟨hstage', hstate'⟩ := Record.dailyReset_warming stages hw
    refine ⟨haligned, hrecent', ?_, ?_, ?_⟩
    · rw [hstate']
      split <;> simp
    · rw [hstage', Record.dailyReset_lastReset, hnext]
      omega
    · rw [hstate', Record.dailyReset_lastReset, hnext]
      split
      · intro _
        omega
      · exact fun h => by cases h
  · have hne : r.state ≠ .warming := by simp [ha]
    have hle := hactive ha
    refine ⟨haligned, hrecent', ?_, ?_, fun _ => ?_⟩
    · exact .inr ((Record.dailyReset_state_of_ne stages hne).trans ha)
    · rw [Record.dailyReset_warmupStage_of_ne stages hne, Record.dailyReset_lastReset, hnext]
      omega
    · rw [Record.dailyReset_lastReset, hnext]
      omega

omit [Add F] [Sub F] [Mul F] [OfScientific F] [LinearOrder F] in
/-- Reconciliation keeps the ramp: nothing expires any more. -/
theorem reconcile (h : Ramping Q L stages r) (now : Int) :
    Ramping Q L stages (r.reconcile stages now) := by
  refine Record.reconcile_induction ?_ fun _ hr => hr.dailyReset
  rw [Record.expire, if_neg]
  · exact h
  · rintro ⟨hs, -⟩
    rcases h.state with hw | ha
    · exact absurd (hw.symm.trans hs) (by simp)
    · exact absurd (ha.symm.trans hs) (by simp)

omit [LinearOrder F] in
/-- Every operation that does not interfere keeps the ramp. -/
theorem effect (h : Ramping Q L e.pre.warmupStages.length r) (hpre : e.pre.get? r.id = some r)
    (hd : ¬ e.Interferes r.id) : Ramping Q L e.pre.warmupStages.length (e.effect r) := by
  rcases Event.effect_lifecycle hpre hd with ⟨task, hop⟩ | ⟨hs, hw, hl⟩
  · obtain ⟨hs, hw, hl, -, -⟩ := Event.effect_binding_frame hop r
    exact (h.reconcile e.now).of_frame hl hs hw
  · exact h.of_frame hl hs hw

end Ramping

/-! ## Recovery -/

omit [Add F] [Sub F] [Mul F] [OfScientific F] [LinearOrder F] in
/-- A `Binding` that finds the quarantine of a record expired counts every pending reset
    as a day of warming up. -/
theorem Record.reconcile_recovery (hlen : 0 < stages) (hq : r.state = .quarantined) {now : Int}
    (hexp : r.quarantinedUntil < now) :
    (r.reconcile stages now).warmupStage = min (r.pendingResets now) stages ∧
      (r.reconcile stages now).state =
        if stages ≤ r.pendingResets now then .active else .warming := by
  rw [reconcile_eq_iterate, expire_pendingResets, expire, if_pos ⟨hq, hexp⟩]
  exact iterate_dailyReset_warming hlen rfl rfl _

omit [Add F] [Sub F] [Mul F] [OfScientific F] [LinearOrder F] in
/-- No reset fell due during the quarantine, or enough did since: the record is on its ramp
    after the recovery. -/
theorem Record.ramping_recovery (hlen : 0 < stages) (hq : r.state = .quarantined) {now : Int}
    (hexp : r.quarantinedUntil < now) (hlast : r.lastReset ≤ now)
    (hok : r.quarantinedUntil < r.lastReset + dailyResetInterval ∨
      stages ≤ Int.ticks dailyResetInterval r.lastReset r.quarantinedUntil now) :
    Ramping r.quarantinedUntil r.lastReset stages (r.reconcile stages now) := by
  rcases hok with hrecent | henough
  · -- nothing is pending when the quarantine ends: the loop starts at the bottom of the ramp
    refine reconcile_induction ?_ fun _ hr => hr.dailyReset
    rw [expire, if_pos ⟨hq, hexp⟩]
    refine ⟨⟨0, by simp⟩, hrecent, .inl rfl, ?_, fun h => by cases h⟩
    dsimp only
    rw [dailyResetInterval_eq] at *
    omega
  · -- resets of the quarantine were counted too, but the top of the ramp is due anyway
    obtain ⟨hstage, hstate⟩ := reconcile_recovery hlen hq hexp
    have hreset : (r.reconcile stages now).lastReset =
        r.lastReset + r.pendingResets now * dailyResetInterval := reconcile_lastReset
    have hticks := Int.ticks_eq (L := r.lastReset) (show 0 < dailyResetInterval by decide) hexp.le
    -- the last reset is the latest grid instant up to now
    have hindex : ((r.reconcile stages now).lastReset - r.lastReset) / dailyResetInterval =
        (now - r.lastReset) / dailyResetInterval := by
      rw [hreset, pendingResets]
      rw [dailyResetInterval_eq] at *
      omega
    have hlt := r.reconcile_lastReset_lt stages now
    refine ⟨⟨_, hreset⟩, by omega, ?_, ?_, fun _ => ?_⟩
    · rw [hstate]
      split <;> simp
    · rw [hindex, ← hticks, hstage]
      omega
    · rw [hindex, ← hticks]
      omega

omit [Add F] [Sub F] [Mul F] [OfScientific F] [LinearOrder F] in
/-- Conversely, a recovery that leaves the record where it should be has counted no reset of
    the quarantine, or enough passed since. -/
theorem Record.ok_of_ramped_recovery (hlen : 0 < stages) (hq : r.state = .quarantined) {now : Int}
    (hexp : r.quarantinedUntil < now) (hlast : r.lastReset ≤ now)
    (h : Ramped r.quarantinedUntil r.lastReset now stages (r.reconcile stages now)) :
    r.quarantinedUntil < r.lastReset + dailyResetInterval ∨
      stages ≤ Int.ticks dailyResetInterval r.lastReset r.quarantinedUntil now := by
  have hticks := Int.ticks_eq (L := r.lastReset) (show 0 < dailyResetInterval by decide) hexp.le
  have hstage := h.1
  rw [(reconcile_recovery hlen hq hexp).1, pendingResets] at hstage
  by_contra hnot
  push Not at hnot
  obtain ⟨hpending, hfew⟩ := hnot
  -- fewer resets than stages since, so the stage is the number of all pending resets
  rw [dailyResetInterval_eq] at *
  omega

/-! ## Executions -/

omit [LinearOrder F] in
/-- An event that does not interfere sets no reset in the future. -/
theorem Event.effect_lastReset_le (hpre : e.pre.get? r.id = some r) (hd : ¬ e.Interferes r.id)
    (h : r.lastReset ≤ e.now) : (e.effect r).lastReset ≤ e.now := by
  rcases effect_lifecycle hpre hd with ⟨task, hop⟩ | ⟨-, -, hl⟩
  · rw [(effect_binding_frame hop r).2.2.1]
    exact Record.reconcile_lastReset_le h
  · rwa [hl]

/-- Along an execution that does not interfere with an identity, its record keeps what each of the
    operations keeps, and its last reset stays in the past. -/
theorem Manager.Runs.undisturbed {P : Record F → Prop} {fs : List (Event F)} {now : Int}
    (h : m.Runs fs m') (hr : m.get? i = some r) (hP : P r) (hlast : r.lastReset ≤ now)
    (hclock : Monotone now fs) (hfs : ∀ f ∈ fs, ¬ f.Interferes i)
    (hkeep : ∀ (f : Event F) r, f.pre.warmupStages = m.warmupStages → f.pre.get? r.id = some r →
      ¬ f.Interferes r.id → P r → P (f.effect r)) :
    m'.warmupStages = m.warmupStages ∧ ∃ r', m'.get? i = some r' ∧ P r' ∧
      ∃ a ∈ now :: fs.map Event.now, r'.lastReset ≤ a := by
  revert hclock hfs
  -- the clock goes along with the property, since a reset must not lie in the future
  refine h.history (I := fun fs m' => Monotone now fs → (∀ f ∈ fs, ¬ f.Interferes i) →
    m'.warmupStages = m.warmupStages ∧ ∃ r', m'.get? i = some r' ∧ P r' ∧
      ∃ a ∈ now :: fs.map Event.now, r'.lastReset ≤ a) ?_ ?_
  · exact fun _ _ => ⟨rfl, r, hr, hP, now, by simp, hlast⟩
  · intro fs a f b _ ih hstep hclock hfs
    obtain ⟨hmono, hle⟩ := monotone_snoc.mp hclock
    obtain ⟨hstages, r, hr, hP, t, ht, hlast⟩ := ih hmono fun g hg => hfs g (by simp [hg])
    have hd := hfs f (by simp)
    obtain rfl : r.id = i := a.pool.key_eq i r hr
    have hpre : f.pre.get? r.id = some r := by rw [hstep.1]; exact hr
    rw [hstep.fixed_tuning.2.2.1]
    refine ⟨hstages, f.effect r, hstep.get? hr, ?_, f.now, by simp, ?_⟩
    · exact hkeep f r (by rw [hstep.1]; exact hstages) hpre hd hP
    · exact Event.effect_lastReset_le hpre hd (hlast.trans (hle t ht))

/-- The ramp of an identity that leaves quarantine by expiry, in every execution from `New`
    with a clock that does not go backwards. The `Binding` `e` finds the quarantine of `i`
    expired; from then on, for as long as nothing quarantines, enables or disables `i`, its
    stage is at most the number of its resets since the end of the quarantine, and it is
    active only after as many resets as there are stages, if and only if no reset fell due
    between the last one and the end of the quarantine, or as many resets as there are
    stages have fallen due since. -/
theorem ramped_iff {cfg : Config F} {start : Int} {es : List (Event F)} {task : Task}
    (hrun : (Manager.new cfg start).Runs es m) (hclock : Monotone start (es ++ [e]))
    (hes : NoRestore es) (hr : m.get? i = some r) (hq : r.state = .quarantined)
    (hstep : m.Step e m') (hop : e.op = .binding task) (hexp : r.quarantinedUntil < e.now) :
    (∀ fs f m'', m'.Runs fs m'' → Monotone e.now fs → (∀ g ∈ fs, ¬ g.Disturbs i) →
      (e :: fs).getLast? = some f → ∃ r'', m''.get? i = some r'' ∧
        Ramped r.quarantinedUntil r.lastReset f.now m.warmupStages.length r'') ↔
    r.quarantinedUntil < r.lastReset + dailyResetInterval ∨
      m.warmupStages.length ≤
        Int.ticks dailyResetInterval r.lastReset r.quarantinedUntil e.now := by
  have hlen : 0 < m.warmupStages.length :=
    List.length_pos_iff.mpr (hrun.reachable hes).warmupStages_ne_nil
  have hlast : r.lastReset ≤ e.now := by
    obtain ⟨hmono, hle⟩ := monotone_snoc.mp hclock
    obtain ⟨added, -, hacc⟩ := hrun.exists_accounted hmono hes hr
    obtain ⟨a, ha, hra⟩ := hacc.past
    exact hra.trans (hle a ha)
  obtain ⟨hs, hw, hl, -, -⟩ := Event.effect_binding_frame hop r
  rw [hstep.1] at hs hw hl
  constructor
  · -- the bound right after the recovery is enough
    intro h
    obtain ⟨r'', hr'', hramped⟩ := h [] e m' (.nil _) (by simp [Monotone]) (by simp) rfl
    rw [hstep.get? hr, Option.some.injEq] at hr''
    subst hr''
    apply Record.ok_of_ramped_recovery hlen hq hexp hlast
    unfold Ramped at hramped ⊢
    rwa [hs, hw] at hramped
  · intro hok fs f m'' hrun' hclock' hfs hf
    have hstart : Ramping r.quarantinedUntil r.lastReset m.warmupStages.length (e.effect r) ∧
        (e.effect r).lastReset ≤ e.now := by
      refine ⟨(Record.ramping_recovery hlen hq hexp hlast hok).of_frame hl hs hw, ?_⟩
      rw [hl]
      exact Record.reconcile_lastReset_le hlast
    have hstages : m'.warmupStages = m.warmupStages := hstep.fixed_tuning.2.2.1
    obtain ⟨-, r'', hr'', hramping, a, ha, hlast''⟩ :=
      hrun'.undisturbed (hstep.get? hr) hstart.1 hstart.2 hclock'
        (fun f hf h => hfs f hf h.disturbs) fun f r hpre hr hd h => by
          rw [← hstages, ← hpre] at h ⊢
          exact h.effect hr hd
    refine ⟨r'', hr'', ?_⟩
    have hle := hclock'.le_last hf
    have hlate := hle e.now (by simp)
    -- resets are lazy: by now at least as many grid instants have passed as were applied
    have hindex : (r''.lastReset - r.lastReset) / dailyResetInterval ≤
        (f.now - r.lastReset) / dailyResetInterval :=
      Int.ediv_le_ediv (by decide) (by have := hle a ha; omega)
    have hstage := hramping.stage_le
    have hactive := hramping.active_le
    rw [ramped_iff_index (by omega)]
    exact ⟨by omega, fun ha => by have := hactive ha; omega⟩

/-- What the ramp depends on, of the identity `a`. -/
private def rampOf (m : Manager ℚ) : Option (State × Int × Int × Int) :=
  (m.get? "a").map fun r => (r.state, r.warmupStage, r.quarantinedUntil, r.lastReset)

private theorem exists_of_rampOf {m : Manager ℚ} {s : State} {stage till last : Int}
    (h : rampOf m = some (s, stage, till, last)) : ∃ r, m.get? "a" = some r ∧ r.state = s ∧
      r.warmupStage = stage ∧ r.quarantinedUntil = till ∧ r.lastReset = last := by
  simp only [rampOf, Option.map_eq_some_iff, Prod.mk.injEq] at h
  exact h

/-- A quarantine that ends on the day on which it began. -/
theorem ramped_iff_same_day : ∃ es m r e m', (Manager.new pairConfig 0).Runs es m ∧
    m.get? "a" = some r ∧ r.state = .quarantined ∧ r.quarantinedUntil = 2 * hour ∧
    m.Step e m' ∧ e.op = .binding gmailTask ∧ e.now = 3 * hour ∧
    ∀ fs f m'', m'.Runs fs m'' → Monotone e.now fs → (∀ g ∈ fs, ¬ g.Disturbs "a") →
      (e :: fs).getLast? = some f → ∃ r'', m''.get? "a" = some r'' ∧
        Ramped (2 * hour) 0 f.now m.warmupStages.length r'' := by
  obtain ⟨es, m, hrun, hcalls, -, hramp⟩ := (Manager.new pairConfig 0).exists_runs
    [(hour, .quarantine "a" "listed")] Event.ret rampOf [none] (some (.quarantined, 0, 2 * hour, 0))
    (by decide +kernel) (by decide +kernel)
  obtain ⟨q, rest, rfl, hqe, hnil⟩ := List.map_eq_cons_iff.mp hcalls
  obtain rfl := List.map_eq_nil_iff.mp hnil
  simp only [Prod.mk.injEq] at hqe
  have hes : NoRestore [q] := by simp [NoRestore, hqe, Op.IsRestore]
  -- quarantined after one hour, for one hour
  obtain ⟨r, hr, hs, -, htill, hlast⟩ := exists_of_rampOf hramp
  obtain ⟨⟨m', ret⟩, hexec⟩ := Option.isSome_iff_exists.mp
    ((hrun.reachable hes).exec_isSome (3 * hour) (.binding gmailTask))
  have hstep : m.Step { pre := m, now := 3 * hour, op := .binding gmailTask, ret := ret } m' :=
    ⟨rfl, hexec⟩
  have hiff := ramped_iff hrun (by simp [Monotone, hqe, hour, minute]) hes hr hs hstep rfl
    (by rw [htill]; exact (by decide : 2 * hour < 3 * hour))
  rw [htill, hlast] at hiff
  exact ⟨_, m, r, _, m', hrun, hr, hs, htill, hstep, rfl, rfl, hiff.mpr (.inl (by decide))⟩

/-- With the default tuning, an identity quarantined from 23:30 to 24:30 of its first day and
    asked for at 24:45 is at stage 1, although no reset has fallen due since 24:30. -/
theorem not_ramped_overnight : ∃ es m r, (Manager.new pairConfig 0).Runs es m ∧
    es.map (fun e => (e.now, e.op)) =
      [(23 * hour + 30 * minute, .quarantine "a" "listed"),
        (24 * hour + 45 * minute, .binding gmailTask)] ∧
    m.get? "a" = some r ∧ r.state = .warming ∧ r.warmupStage = 1 ∧
    r.quarantinedUntil = 24 * hour + 30 * minute ∧
    Int.ticks dailyResetInterval 0 r.quarantinedUntil (24 * hour + 45 * minute) = 0 ∧
    ¬ Ramped r.quarantinedUntil 0 (24 * hour + 45 * minute) m.warmupStages.length r := by
  obtain ⟨es, m, hrun, hcalls, -, hramp⟩ := (Manager.new pairConfig 0).exists_runs
    [(23 * hour + 30 * minute, .quarantine "a" "listed"),
      (24 * hour + 45 * minute, .binding gmailTask)] Event.ret rampOf
    [none, some (.ok { id := "a", helo := "", mailFrom := "", transport := {} })]
    (some (.warming, 1, 24 * hour + 30 * minute, 24 * hour)) (by decide +kernel)
    (by decide +kernel)
  obtain ⟨r, hr, hs, hw, htill, -⟩ := exists_of_rampOf hramp
  -- both times lie between the resets at 24:00 and at 48:00
  have hticks :
      Int.ticks dailyResetInterval 0 r.quarantinedUntil (24 * hour + 45 * minute) = 0 := by
    rw [htill, ← Int.natCast_eq_zero, Int.ticks_eq (by decide) (by decide)]
    decide
  refine ⟨es, m, r, hrun, hcalls, hr, hs, hw, htill, hticks, fun h => ?_⟩
  have := h.1
  rw [hw, hticks] at this
  exact absurd this (by decide)

end Rcptto.Native
