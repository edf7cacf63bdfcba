import Mathlib.Logic.Function.Iterate
import Rcptto.Native.Manager

/-!
# Reconciliation of one record

`Record.reconcile` is the quarantine expiry followed by the daily-reset loop. The loop
runs exactly `pendingResets` times (`reconcile_eq_iterate`), which makes its fuel
invisible from here on: after it, less than one interval is pending
(`reconcile_lastReset_lt`), so that a second pass at the same time changes nothing
(`reconcile_idem`).

Reconciliation moves `state`, `warmupStage`, `blockStreak`, `usedToday` and `lastReset`;
`reconcile_proj` is the frame rule for everything else.
-/

namespace Rcptto.Native.Record

variable {F : Type} {r : Record F} {stages n : Nat} {now : Int}

/-- The interval as a numeral, for linear arithmetic with division. -/
theorem dailyResetInterval_eq : dailyResetInterval = 86400000000000 := rfl

/-! ## The daily-reset loop -/

@[simp] theorem dailyReset_lastReset :
    (r.dailyReset stages).lastReset = r.lastReset + dailyResetInterval := by
  unfold dailyReset
  dsimp only
  split_ifs <;> rfl

@[simp] theorem dailyReset_usedToday : (r.dailyReset stages).usedToday = 0 := by
  unfold dailyReset
  dsimp only
  split_ifs <;> rfl

/-- A reset that is due is one of those that are pending. -/
theorem pendingResets_dailyReset (stages : Nat) (h : now - r.lastReset ≥ dailyResetInterval) :
    r.pendingResets now = (r.dailyReset stages).pendingResets now + 1 := by
  unfold pendingResets
  rw [dailyReset_lastReset]
  rw [dailyResetInterval_eq] at *
  omega

theorem pendingResets_eq_zero (h : ¬ now - r.lastReset ≥ dailyResetInterval) :
    r.pendingResets now = 0 := by
  unfold pendingResets
  rw [dailyResetInterval_eq] at *
  omega

/-- The bound on the number of iterations is exact: the loop body runs that often. -/
theorem dailyResets_eq_iterate :
    dailyResets stages now (r.pendingResets now) r =
      (fun r => r.dailyReset stages)^[r.pendingResets now] r := by
  generalize hk : r.pendingResets now = k
  -- by induction on the number of pending resets, which each reset lowers by one
  induction k generalizing r with
  | zero => rfl
  | succ k ih =>
    by_cases hguard : now - r.lastReset ≥ dailyResetInterval
    · rw [dailyResets, if_pos hguard, Function.iterate_succ_apply]
      apply ih
      have := pendingResets_dailyReset stages hguard
      omega
    · rw [pendingResets_eq_zero hguard] at hk
      omega

/-- Reconciliation without its fuel. -/
theorem reconcile_eq_iterate : r.reconcile stages now =
    (fun r => r.dailyReset stages)^[(r.expire now).pendingResets now] (r.expire now) :=
  dailyResets_eq_iterate

/-- An induction rule for reconciliation: what the expiry establishes and each daily
    reset keeps holds afterwards. -/
theorem reconcile_induction {P : Record F → Prop} (hexpire : P (r.expire now))
    (hreset : ∀ r : Record F, P r → P (r.dailyReset stages)) : P (r.reconcile stages now) := by
  rw [reconcile_eq_iterate]
  generalize (r.expire now).pendingResets now = n
  induction n with
  | zero => exact hexpire
  | succ n ih => rw [Function.iterate_succ_apply']; exact hreset _ ih

/-- Frame rule: a part of the record that neither the expiry nor a daily reset writes
    is left as it was. -/
theorem reconcile_proj {α : Type*} (g : Record F → α) (hexpire : g (r.expire now) = g r)
    (hreset : ∀ r : Record F, g (r.dailyReset stages) = g r) :
    g (r.reconcile stages now) = g r :=
  reconcile_induction (P := fun r' => g r' = g r) hexpire fun r' h => (hreset r').trans h

section Frame

/-- Everything that reconciliation does not write. -/
private theorem expire_frame : (r.expire now).spec = r.spec ∧ (r.expire now).online = r.online ∧
    (r.expire now).quarantinedUntil = r.quarantinedUntil ∧
    (r.expire now).quarantineReason = r.quarantineReason ∧
    (r.expire now).health = r.health ∧ (r.expire now).circuits = r.circuits ∧
    (r.expire now).usedToday = r.usedToday ∧ (r.expire now).lastReset = r.lastReset := by
  unfold expire
  split <;> simp

/-- What a daily reset leaves alone. -/
private theorem dailyReset_frame : (r.dailyReset stages).spec = r.spec ∧
    (r.dailyReset stages).online = r.online ∧
    (r.dailyReset stages).quarantinedUntil = r.quarantinedUntil ∧
    (r.dailyReset stages).quarantineReason = r.quarantineReason ∧
    (r.dailyReset stages).health = r.health ∧ (r.dailyReset stages).circuits = r.circuits ∧
    (r.dailyReset stages).blockStreak = r.blockStreak := by
  unfold dailyReset
  dsimp only
  split_ifs <;> simp

@[simp] theorem reconcile_spec : (r.reconcile stages now).spec = r.spec :=
  reconcile_proj Record.spec expire_frame.1 fun _ => dailyReset_frame.1

@[simp] theorem reconcile_online : (r.reconcile stages now).online = r.online :=
  reconcile_proj Record.online expire_frame.2.1 fun _ => dailyReset_frame.2.1

@[simp] theorem reconcile_quarantinedUntil :
    (r.reconcile stages now).quarantinedUntil = r.quarantinedUntil :=
  reconcile_proj Record.quarantinedUntil expire_frame.2.2.1 fun _ => dailyReset_frame.2.2.1

@[simp] theorem reconcile_quarantineReason :
    (r.reconcile stages now).quarantineReason = r.quarantineReason :=
  reconcile_proj Record.quarantineReason expire_frame.2.2.2.1 fun _ => dailyReset_frame.2.2.2.1

@[simp] theorem reconcile_health : (r.reconcile stages now).health = r.health :=
  reconcile_proj Record.health expire_frame.2.2.2.2.1 fun _ => dailyReset_frame.2.2.2.2.1

@[simp] theorem reconcile_circuits : (r.reconcile stages now).circuits = r.circuits :=
  reconcile_proj Record.circuits expire_frame.2.2.2.2.2.1 fun _ => dailyReset_frame.2.2.2.2.2.1

@[simp] theorem expire_lastReset : (r.expire now).lastReset = r.lastReset :=
  expire_frame.2.2.2.2.2.2.2

@[simp] theorem expire_usedToday : (r.expire now).usedToday = r.usedToday :=
  expire_frame.2.2.2.2.2.2.1

@[simp] theorem dailyReset_blockStreak : (r.dailyReset stages).blockStreak = r.blockStreak :=
  dailyReset_frame.2.2.2.2.2.2

@[simp] theorem dailyReset_quarantinedUntil :
    (r.dailyReset stages).quarantinedUntil = r.quarantinedUntil :=
  dailyReset_frame.2.2.1

end Frame

/-! ## What the loop computes -/

theorem expire_pendingResets : (r.expire now).pendingResets now = r.pendingResets now := by
  simp [pendingResets]

/-- Any number of resets move `lastReset` on by as many days. -/
private theorem iterate_lastReset : ((fun r => r.dailyReset stages)^[n] r).lastReset =
    r.lastReset + n * dailyResetInterval := by
  induction n generalizing r with
  | zero => simp
  | succ n ih =>
    rw [Function.iterate_succ_apply, ih, dailyReset_lastReset]
    rw [dailyResetInterval_eq]
    omega

/-- Any number of resets but none start the count again. -/
private theorem iterate_usedToday : ((fun r => r.dailyReset stages)^[n] r).usedToday =
    if n = 0 then r.usedToday else 0 := by
  cases n with
  | zero => rfl
  | succ n => rw [Function.iterate_succ_apply', dailyReset_usedToday]; simp

/-- The daily-reset instant is moved forward by the pending intervals. -/
theorem reconcile_lastReset : (r.reconcile stages now).lastReset =
    r.lastReset + r.pendingResets now * dailyResetInterval := by
  rw [reconcile_eq_iterate, iterate_lastReset, expire_lastReset, expire_pendingResets]

theorem reconcile_usedToday : (r.reconcile stages now).usedToday =
    if r.pendingResets now = 0 then r.usedToday else 0 := by
  rw [reconcile_eq_iterate, iterate_usedToday, expire_usedToday, expire_pendingResets]

/-- After reconciliation the current interval has not run out yet. -/
theorem reconcile_lastReset_lt (r : Record F) (stages : Nat) (now : Int) :
    now < (r.reconcile stages now).lastReset + dailyResetInterval := by
  rw [reconcile_lastReset, pendingResets, dailyResetInterval_eq]
  omega

/-- Reconciliation does not move the reset instant past the clock. -/
theorem reconcile_lastReset_le (h : r.lastReset ≤ now) :
    (r.reconcile stages now).lastReset ≤ now := by
  rw [reconcile_lastReset, pendingResets, dailyResetInterval_eq]
  omega

/-! ## Lifecycle state -/

theorem dailyReset_state_of_ne (stages : Nat) (h : r.state ≠ .warming) :
    (r.dailyReset stages).state = r.state := by
  simp [dailyReset, h]

theorem dailyReset_warmupStage_of_ne (stages : Nat) (h : r.state ≠ .warming) :
    (r.dailyReset stages).warmupStage = r.warmupStage := by
  simp [dailyReset, h]

/-- A warming identity gets to the next stage, and becomes active behind the last one. -/
theorem dailyReset_warming (stages : Nat) (h : r.state = .warming) :
    (r.dailyReset stages).warmupStage = r.warmupStage + 1 ∧
      (r.dailyReset stages).state =
        if (stages : Int) ≤ r.warmupStage + 1 then .active else .warming := by
  unfold dailyReset
  dsimp only
  rw [if_pos h]
  split_ifs <;> simp [h]

/-- From the bottom of the ramp, `n` resets lead `n` stages up, until the identity is
    active. -/
theorem iterate_dailyReset_warming (hlen : 0 < stages) (hs : r.state = .warming)
    (hw : r.warmupStage = 0) (n : Nat) :
    ((fun r => r.dailyReset stages)^[n] r).warmupStage = min n stages ∧
      ((fun r => r.dailyReset stages)^[n] r).state =
        if stages ≤ n then .active else .warming := by
  induction n with
  | zero => simp [hs, hw, Nat.ne_of_gt hlen]
  | succ n ih =>
    rw [Function.iterate_succ_apply']
    obtain ⟨hstage, hstate⟩ := ih
    by_cases hn : stages ≤ n
    · -- already active
      rw [if_pos hn] at hstate
      have hne : ((fun r => r.dailyReset stages)^[n] r).state ≠ .warming := by simp [hstate]
      rw [dailyReset_warmupStage_of_ne stages hne, dailyReset_state_of_ne stages hne, hstate,
        hstage, if_pos (by omega)]
      exact ⟨by omega, rfl⟩
    · rw [if_neg hn] at hstate
      obtain ⟨hstage', hstate'⟩ := dailyReset_warming stages hstate
      rw [hstage', hstate', hstage]
      refine ⟨by omega, ?_⟩
      by_cases hn' : stages ≤ n + 1
      · rw [if_pos hn', if_pos (by omega)]
      · rw [if_neg hn', if_neg (by omega)]

/-- Only the warming state ever changes in the daily-reset loop. -/
theorem iterate_dailyReset_of_ne (h : r.state ≠ .warming) :
    ((fun r => r.dailyReset stages)^[n] r).state = r.state ∧
      ((fun r => r.dailyReset stages)^[n] r).warmupStage = r.warmupStage := by
  induction n generalizing r with
  | zero => exact ⟨rfl, rfl⟩
  | succ n ih =>
    have hstate := dailyReset_state_of_ne stages h
    rw [Function.iterate_succ_apply]
    have ⟨hs, hw⟩ := ih (r := r.dailyReset stages) (by rw [hstate]; exact h)
    exact ⟨hs.trans hstate, hw.trans (dailyReset_warmupStage_of_ne stages h)⟩

/-- A daily reset leads to no state but warming and active. -/
theorem dailyReset_state_ne {s : State} (hs : s ≠ .warming) (ha : s ≠ .active) (h : r.state ≠ s) :
    (r.dailyReset stages).state ≠ s := by
  by_cases hr : r.state = .warming
  · rw [(dailyReset_warming stages hr).2]
    split
    · exact ha.symm
    · exact hs.symm
  · rwa [dailyReset_state_of_ne stages hr]

/-- A daily reset moves an identity on by one stage at most. -/
theorem dailyReset_warmupStage_le :
    r.warmupStage ≤ (r.dailyReset stages).warmupStage ∧
      (r.dailyReset stages).warmupStage ≤ r.warmupStage + 1 := by
  by_cases hr : r.state = .warming
  · rw [(dailyReset_warming stages hr).1]; omega
  · rw [dailyReset_warmupStage_of_ne stages hr]; omega

/-- Reconciliation clears the block streak exactly when it ends a quarantine. -/
theorem reconcile_blockStreak : (r.reconcile stages now).blockStreak =
    if r.state = .quarantined ∧ now > r.quarantinedUntil then 0 else r.blockStreak := by
  have hloop : (r.reconcile stages now).blockStreak = (r.expire now).blockStreak :=
    reconcile_induction (P := fun r' => r'.blockStreak = (r.expire now).blockStreak) rfl
      fun _ h => dailyReset_blockStreak.trans h
  rw [hloop, expire]
  split <;> rfl

/-- A state other than warming that does not expire now survives reconciliation. -/
theorem reconcile_state_of_ne (hw : r.state ≠ .warming)
    (hq : r.state = .quarantined → now ≤ r.quarantinedUntil) :
    (r.reconcile stages now).state = r.state := by
  have hexp : r.expire now = r := by
    rw [expire, if_neg]
    rintro ⟨hs, hlt⟩
    have := hq hs
    omega
  rw [reconcile_eq_iterate, hexp]
  exact (iterate_dailyReset_of_ne hw).1

/-- An expired quarantine is over after reconciliation. -/
theorem reconcile_not_expired :
    ¬ ((r.reconcile stages now).state = .quarantined ∧
      now > (r.reconcile stages now).quarantinedUntil) := by
  apply reconcile_induction
    (P := fun r => ¬ (r.state = .quarantined ∧ now > r.quarantinedUntil))
  · -- after `expire` no quarantine is over, and a daily reset quarantines nobody
    unfold expire
    split
    · simp
    · assumption
  · intro r h
    rw [dailyReset_quarantinedUntil]
    rintro ⟨hs, hlt⟩
    exact dailyReset_state_ne (s := .quarantined) (by decide) (by decide)
      (fun hq => h ⟨hq, hlt⟩) hs

/-- A second pass at the same time changes nothing. -/
theorem reconcile_idem :
    (r.reconcile stages now).reconcile stages now = r.reconcile stages now := by
  have hexp : (r.reconcile stages now).expire now = r.reconcile stages now := by
    rw [expire, if_neg reconcile_not_expired]
  -- all resets that were due have been made
  have hpend : (r.reconcile stages now).pendingResets now = 0 := by
    apply pendingResets_eq_zero
    have := r.reconcile_lastReset_lt stages now
    omega
  calc (r.reconcile stages now).reconcile stages now
      = (fun r => r.dailyReset stages)^[0] (r.reconcile stages now) := by
        rw [reconcile_eq_iterate (r := r.reconcile stages now), hexp, hpend]
    _ = r.reconcile stages now := rfl

end Rcptto.Native.Record
