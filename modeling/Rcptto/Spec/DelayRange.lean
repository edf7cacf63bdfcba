import Rcptto.Spec.Limiter
import Rcptto.Spec.Settings

/-!
# The range of delays

`reserve` divides the deficit of a bucket by the rate and converts the result to an integer of 64
bits before it compares it with the longest wait. A bucket cannot be deep in debt, since a call
that would have to wait for longer than that is refused. So the result fits as long as the rates
are not extremely small. What it becomes otherwise is up to the machine, and on amd64 it is a
negative number, which is a delay that is granted and not waited for.

The conversion drops the fraction. A deficit that is earned in less than a nanosecond is not waited
for either.

## Key results

- `Pacing.neg_le_take`: a call does not leave a bucket deep in debt
- `Limiter.Solvent.execAll`: nor does any history of calls
- `delay_in_range`: every call with a balance below one, if no rate is extremely small
- `delay_out_of_range`: a slow rate, and a deficit of less than a nanosecond
-/

namespace Rcptto.Native

/-! ## One call -/

section Take

variable {F D : Type} [OfScientific F] [LinearOrder F] [Add F] [Sub F] [Mul F] [Div F]
  [Zero D] [IntCast D] [LinearOrder D]

/-- The number of nanoseconds that `reserve` converts. -/
def Pacing.delayValue (p : Pacing F) (x : F) : F := (1.0 - x) / p.rate * 1e9

omit [Add F] in
/-- A balance below one is not enough: the call has to wait, or is refused. -/
theorem Pacing.take_of_lt {p : Pacing F} (u : Units F D) {x : F} (h : x < 1.0) :
    p.take u x = if u.duration (p.delayValue x) > (p.maxWait : D) then ((0, false), x)
      else ((u.duration (p.delayValue x), true), x - 1.0) := by
  rw [take, if_neg (not_le.mpr h)]
  rfl

omit [Add F] in
theorem Pacing.take_of_le {p : Pacing F} (u : Units F D) {x : F} (h : 1.0 ≤ x) :
    p.take u x = ((0, true), x - 1.0) := if_pos h

end Take

theorem val_deficit (x : Binary64) : (1.0 - x).val = (Binary64.round (1 - x.val)).val := by
  show (Binary64.round ((1.0 : Binary64).val - x.val)).val = _
  rw [Binary64.val_one]

theorem val_rest (x : Binary64) : (x - 1.0).val = -(1.0 - x).val := by
  show (Binary64.round (x.val - (1.0 : Binary64).val)).val = _
  rw [Binary64.val_one, val_deficit, ← Binary64.val_round_neg, neg_sub]

/-- A whole balance is still exact when a token is taken. -/
theorem val_rest_of_eq_intCast {x : Binary64} {n : ℤ} (hx : x.val = n) (hn : |n - 1| ≤ 2 ^ 53) :
    (x - 1.0).val = n - 1 := by
  rw [Binary64.val_sub, hx, Binary64.val_one]
  exact_mod_cast Binary64.val_round_intCast hn

/-- A duration in seconds is not rounded below a whole number of them. -/
theorem Units.le_seconds {n d : Int} (hn : 0 ≤ n) (hle : n ≤ 2 ^ 53) (h : n * second ≤ d) :
    n ≤ (Units.go.seconds d).val := by
  have hbound : |n| ≤ 2 ^ 53 := by rwa [abs_of_nonneg hn]
  have hd : 0 ≤ d := (mul_nonneg hn (by decide)).trans h
  have hwhole : (n : ℚ) ≤ ((d.tdiv second : Int) : Binary64).val := by
    refine Binary64.intCast_le_val_round hbound ?_
    have : n ≤ d.tdiv second := by
      rw [Int.tdiv_eq_ediv_of_nonneg hd]
      exact (Int.le_ediv_iff_mul_le (by decide)).mpr h
    exact_mod_cast this
  -- the fraction is not negative, so the sum is not below the whole seconds
  have hpart : 0 ≤ (((d.tmod second : Int) : Binary64) / 1e9).val := by
    refine Binary64.val_round_nonneg (div_nonneg (Binary64.val_round_nonneg ?_) (by simp))
    exact_mod_cast Int.tmod_nonneg _ hd
  refine Binary64.intCast_le_val_round hbound ?_
  linarith

/-- A number that fits becomes its integer part, on every machine. -/
theorem Units.duration_eq_floor {overflow : Binary64 → Int} {y : Binary64} (hpos : 0 < y.val)
    (hlt : y.val < 2 ^ 63) : (Units.int64 overflow).duration y = ⌊y.val⌋ := by
  have htruncate : y.val.truncate = ⌊y.val⌋ := if_pos hpos.le
  have hfits : ⌊y.val⌋ < 2 ^ 63 := by
    rw [Int.floor_lt]
    exact_mod_cast hlt
  have hnonneg : 0 ≤ ⌊y.val⌋ := Int.floor_nonneg.mpr hpos.le
  simp only [Units.int64, htruncate]
  rw [if_pos ⟨by omega, hfits⟩]

namespace Pacing

variable {p : Pacing Binary64} {x : Binary64} {overflow : Binary64 → Int} {hi : ℚ}

/-- A deficit takes time, however little. -/
theorem delayValue_pos (hrate : 0 < p.rate.val) (hx : x < 1.0) : 0 < (p.delayValue x).val := by
  have hlt : x.val < 1 := by simpa [Binary64.lt_def] using hx
  have hdeficit : 0 < (1.0 - x).val := by
    rw [val_deficit]
    exact Binary64.val_round_pos (by linarith)
  have hquotient : 0 < ((1.0 - x) / p.rate).val :=
    Binary64.val_round_pos (div_pos hdeficit hrate)
  exact Binary64.val_round_pos (mul_pos hquotient (by simp))

/-- A deficit that takes longer than the longest wait has a delay that is longer. -/
theorem le_delayValue (hrate : 0 < p.rate.val) (h : 61 / 2 * p.rate.val < (1.0 - x).val) :
    30500000000 ≤ (p.delayValue x).val := by
  have hquotient : (61 / 2 : ℚ) ≤ ((1.0 - x) / p.rate).val :=
    Binary64.le_val_round ⟨61 / 2, 61, -1, by norm_num, by norm_num⟩
      ((lt_div_iff₀ hrate).mpr h).le
  have hproduct : ((30500000000 : ℤ) : ℚ) ≤ ((1.0 - x) / p.rate).val * (1e9 : Binary64).val := by
    rw [Binary64.val_billion]
    push_cast
    linarith
  exact_mod_cast Binary64.intCast_le_val_round (by norm_num) hproduct

/-- A deficit that is earned in time has a delay that fits. -/
theorem delayValue_le (hrate : 0 < p.rate.val)
    (h : (1.0 - x).val ≤ 9223000000 * p.rate.val) :
    (p.delayValue x).val ≤ 9223000000000000000 := by
  have hquotient : ((1.0 - x) / p.rate).val ≤ ((9223000000 : ℤ) : ℚ) :=
    Binary64.val_round_le_intCast (by norm_num) (by
      rw [div_le_iff₀ hrate]
      exact_mod_cast h)
  push_cast at hquotient
  -- the bound is representable, so the product is not rounded above it
  refine Binary64.val_round_le
    ⟨9223000000000000000, 9223 * 5 ^ 15, 15, by norm_num, by norm_num⟩ ?_
  show ((1.0 - x) / p.rate).val * (1e9 : Binary64).val ≤ _
  rw [Binary64.val_billion]
  dsimp only
  linarith

/-- An empty bucket has a delay that does not fit, if the rate is that small. -/
theorem le_delayValue_of_empty (hrate : 0 < p.rate.val) (hslow : p.rate.val ≤ 10842 / 10 ^ 14)
    (hx : x.val = 0) : 2 ^ 63 ≤ (p.delayValue x).val := by
  have hdeficit : (1.0 - x).val = 1 := by
    rw [val_deficit, hx, sub_zero]
    exact_mod_cast Binary64.val_round_intCast (n := 1) (by norm_num)
  have hquotient : ((9223390000 : ℤ) : ℚ) ≤ ((1.0 - x) / p.rate).val := by
    refine Binary64.intCast_le_val_round (by norm_num) ?_
    rw [hdeficit, le_div_iff₀ hrate]
    push_cast
    linarith
  -- the bound is a power of two, so the product is not rounded below it
  refine Binary64.le_val_round ⟨2 ^ 63, 1, 63, by norm_num, by norm_num⟩ ?_
  show _ ≤ ((1.0 - x) / p.rate).val * (1e9 : Binary64).val
  rw [Binary64.val_billion]
  push_cast at hquotient
  dsimp only
  linarith

/-- A bucket that is not deep in debt has a deficit that fits. -/
theorem deficit_le (hhi : 1 / 10 ^ 10 ≤ hi) (hx : -(61 / 2 * hi) ≤ x.val) :
    (1.0 - x).val ≤ 1 + 31 * hi := by
  have hle : 1 - x.val ≤ 1 + 61 / 2 * hi := by linarith
  have herr := abs_le.mp (Binary64.abs_val_round_sub_le (1 + 61 / 2 * hi))
  rw [abs_of_pos (by linarith)] at herr
  calc (1.0 - x).val ≤ (Binary64.round (1 + 61 / 2 * hi)).val := by
        rw [val_deficit]
        exact Binary64.val_round_mono hle
    _ ≤ 1 + 31 * hi := by linarith [herr.2]

/-- A limiter whose rate lies between these bounds, with the default for the longest wait. -/
structure Brisk (lo hi : ℚ) (p : Pacing Binary64) : Prop where
  lo_le : lo ≤ p.rate.val
  le_hi : p.rate.val ≤ hi
  burst_pos : 0 < p.burst.val
  maxWait_eq : p.maxWait = 30 * second

variable {lo : ℚ}

/-- The bounds that keep the delays in range. -/
def InRange (lo hi : ℚ) : Prop := 1 + 31 * hi ≤ 9223000000 * lo

theorem Brisk.hi_pos (h : p.Brisk lo hi) (hrange : InRange lo hi) : 1 / 10 ^ 10 ≤ hi := by
  have hle := h.lo_le.trans h.le_hi
  unfold InRange at hrange
  linarith

theorem Brisk.rate_pos (h : p.Brisk lo hi) (hrange : InRange lo hi) : 0 < p.rate.val := by
  have hhi := h.hi_pos hrange
  have hle := h.lo_le
  unfold InRange at hrange
  linarith

/-- The number that is converted is positive and fits. -/
theorem Brisk.delayValue_le (h : p.Brisk lo hi) (hrange : InRange lo hi)
    (hx : -(61 / 2 * hi) ≤ x.val) : (p.delayValue x).val ≤ 9223000000000000000 := by
  refine Pacing.delayValue_le (h.rate_pos hrange) ?_
  have hdeficit := deficit_le (h.hi_pos hrange) hx
  have hle := h.lo_le
  unfold InRange at hrange
  linarith

/-- So its fraction is dropped, on every machine. -/
theorem Brisk.duration_eq (h : p.Brisk lo hi) (hrange : InRange lo hi) (hlt : x < 1.0)
    (hx : -(61 / 2 * hi) ≤ x.val) :
    (Units.int64 overflow).duration (p.delayValue x) = ⌊(p.delayValue x).val⌋ := by
  have hle := h.delayValue_le hrange hx
  exact Units.duration_eq_floor (delayValue_pos (h.rate_pos hrange) hlt) (by linarith)

/-- A call does not leave a bucket deep in debt. -/
theorem Brisk.neg_le_take (h : p.Brisk lo hi) (hrange : InRange lo hi)
    (hx : -(61 / 2 * hi) ≤ x.val) :
    -(61 / 2 * hi) ≤ (p.take (Units.int64 overflow) x).2.val := by
  have hhi := h.hi_pos hrange
  rcases lt_or_ge x 1.0 with hlt | hge
  · rw [take_of_lt _ hlt, h.duration_eq hrange hlt hx]
    split
    · exact hx
    · next hwait =>
      -- the delay was compared with the longest wait, so the deficit is earned by then
      have hdelay : (p.delayValue x).val < 30500000000 := by
        rw [h.maxWait_eq, not_lt] at hwait
        have hfloor : ⌊(p.delayValue x).val⌋ < 30500000000 := lt_of_le_of_lt hwait (by decide)
        rw [Int.floor_lt] at hfloor
        exact_mod_cast hfloor
      have hdeficit : (1.0 - x).val ≤ 61 / 2 * p.rate.val := by
        by_contra hlarge
        exact absurd (le_delayValue (h.rate_pos hrange) (not_le.mp hlarge)) (not_le.mpr hdelay)
      rw [val_rest]
      have hle := h.le_hi
      linarith
  · rw [take_of_le _ hge]
    have hnonneg : 0 ≤ (x - 1.0).val := by
      have hval : 1 ≤ x.val := by simpa [Binary64.le_def] using hge
      refine Binary64.val_round_nonneg ?_
      rw [Binary64.val_one]
      linarith
    dsimp only
    linarith

/-- The refill step does not lower a balance, except to the burst. -/
theorem le_refill (hrate : 0 < p.rate.val) {bound : ℚ} {b : Bucket Binary64}
    (hb : bound ≤ b.tokens.val) (hburst : bound ≤ p.burst.val) (now : Int) :
    bound ≤ (p.refill (Units.int64 overflow) b now).tokens.val := by
  unfold refill
  dsimp only
  split
  · next helapsed =>
    split
    · exact hburst
    · -- the sum of the balance and what is earned is not rounded below the balance
      refine hb.trans (Binary64.le_val_round b.tokens ?_)
      have hseconds : 0 ≤ (Units.go.seconds (now - b.last)).val := by
        exact_mod_cast Units.le_seconds (n := 0) le_rfl (by norm_num) (by omega)
      have hearned : 0 ≤ (Units.go.seconds (now - b.last) * p.rate).val :=
        Binary64.val_round_nonneg (mul_nonneg hseconds hrate.le)
      exact le_add_of_nonneg_right hearned
  · exact hb

/-- A call does not find a bucket deep in debt. -/
theorem Brisk.neg_le_found (h : p.Brisk lo hi) (hrange : InRange lo hi)
    {b : Option (Bucket Binary64)} (hb : ∀ b' ∈ b, -(61 / 2 * hi) ≤ b'.tokens.val) (now : Int) :
    -(61 / 2 * hi) ≤ (p.found (Units.int64 overflow) b now).tokens.val := by
  have hburst : -(61 / 2 * hi) ≤ p.burst.val := by
    have hhi := h.hi_pos hrange
    linarith [h.burst_pos]
  refine le_refill (h.rate_pos hrange) ?_ hburst now
  cases b with
  | none => exact hburst
  | some b' => exact hb b' rfl

end Pacing

/-! ## Histories -/

/-- Settings that `Validate` accepts, with a rate between these bounds. -/
def Settings.Within (lo hi : ℚ) (s : Settings Binary64) : Prop :=
  s.validate = .ok () ∧ lo ≤ s.probeRate.val ∧ s.probeRate.val ≤ hi

/-- The call reserves, or it puts accepted settings with such a rate in force. -/
def LimiterOp.Within (lo hi : ℚ) : LimiterOp Binary64 → Prop
  | .reserve _ => True
  | .setRate rate burst =>
    ∃ s : Settings Binary64, s.Within lo hi ∧ rate = s.probeRate ∧ burst = s.probeBurst

/-- Accepted settings have a positive rate and burst. -/
theorem Settings.pos_of_validate {s : Settings Binary64} (h : s.validate = .ok ()) :
    0 < s.probeRate.val ∧ 0 < s.probeBurst.val := by
  obtain ⟨⟨hrate, -⟩, ⟨hburst, -⟩, -⟩ := Settings.validate_eq_ok_iff.mp h
  simp only [not_le, Binary64.lt_def, Binary64.val_zero] at hrate hburst
  exact ⟨hrate, hburst⟩

/-- The limiter that is started with these settings. -/
def Settings.limiter (s : Settings Binary64) : Limiter Binary64 :=
  Limiter.new { rate := s.probeRate, burst := s.probeBurst }

/-- It takes over the rate and the burst, and has the defaults for the rest. -/
theorem Settings.toPacing_limiter {s : Settings Binary64} (h : s.validate = .ok ()) :
    s.limiter.toPacing =
      { rate := s.probeRate, burst := s.probeBurst, maxWait := 30 * second, maxIdle := 10 * minute }
    := by
  obtain ⟨hrate, hburst⟩ := Settings.pos_of_validate h
  have hrate : ¬ s.probeRate ≤ 0.0 := by simpa [Binary64.lt_def] using hrate
  have hburst : ¬ s.probeBurst ≤ 0.0 := by simpa [Binary64.lt_def] using hburst
  simp only [Settings.limiter, Limiter.new, LimiterConfig.pacing, if_neg hrate, if_neg hburst]
  rfl

namespace Limiter

variable {l : Limiter Binary64} {overflow : Binary64 → Int} {lo hi : ℚ}

/-- The rate is between the bounds, and no bucket is deep in debt. -/
structure Solvent (lo hi : ℚ) (l : Limiter Binary64) : Prop where
  brisk : l.Brisk lo hi
  debt : ∀ k b, l.buckets k = some b → -(61 / 2 * hi) ≤ b.tokens.val

theorem Solvent.seen (h : l.Solvent lo hi) {k : String} {now : Int} :
    ∀ b ∈ l.seen k now, -(61 / 2 * hi) ≤ b.tokens.val :=
  fun b hb => h.debt k b (Option.filter_eq_some_iff.mp hb).1

theorem Solvent.new {s : Settings Binary64} (h : s.Within lo hi) : s.limiter.Solvent lo hi := by
  obtain ⟨-, hburst⟩ := Settings.pos_of_validate h.1
  refine ⟨?_, fun k b hb => by cases hb⟩
  rw [Settings.toPacing_limiter h.1]
  exact ⟨h.2.1, h.2.2, hburst, rfl⟩

/-- One reservation. -/
theorem Solvent.reserve (hrange : Pacing.InRange lo hi) (h : l.Solvent lo hi) (key : String)
    (now : Int) : (l.reserve (Units.int64 overflow) key now).2.Solvent lo hi := by
  refine ⟨h.brisk, fun k b hb => ?_⟩
  rw [buckets_reserve] at hb
  by_cases hk : k = key
  · subst hk
    rw [Function.update_self, Option.some.injEq, Pacing.serve_eq_found] at hb
    subst hb
    exact h.brisk.neg_le_take hrange (h.brisk.neg_le_found hrange h.seen now)
  · rw [Function.update_of_ne hk] at hb
    exact h.seen b hb

/-- One change of the settings, which leaves the buckets alone. -/
theorem Solvent.setRate {s : Settings Binary64} (h : l.Solvent lo hi) (hs : s.Within lo hi) :
    (l.setRate s.probeRate s.probeBurst).Solvent lo hi := by
  obtain ⟨hrate, hburst⟩ := Settings.pos_of_validate hs.1
  have hrate' : s.probeRate > 0.0 := by simpa [Binary64.lt_def] using hrate
  have hburst' : s.probeBurst > 0.0 := by simpa [Binary64.lt_def] using hburst
  refine ⟨⟨?_, ?_, ?_, h.brisk.maxWait_eq⟩, h.debt⟩
  · simpa only [Limiter.setRate, if_pos hrate'] using hs.2.1
  · simpa only [Limiter.setRate, if_pos hrate'] using hs.2.2
  · simpa only [Limiter.setRate, if_pos hburst'] using hburst

/-- One call of either kind. -/
theorem Solvent.exec (hrange : Pacing.InRange lo hi) (h : l.Solvent lo hi)
    {c : LimiterCall Binary64} (hc : c.op.Within lo hi) :
    (l.exec (Units.int64 overflow) c).Solvent lo hi := by
  obtain ⟨now, op⟩ := c
  cases op with
  | reserve key => exact h.reserve hrange key now
  | setRate rate burst =>
    obtain ⟨s, hs, rfl, rfl⟩ := hc
    exact h.setRate hs

/-- No history of calls leaves a bucket deep in debt. -/
theorem Solvent.execAll (hrange : Pacing.InRange lo hi) (h : l.Solvent lo hi)
    {calls : List (LimiterCall Binary64)} (hcalls : ∀ c ∈ calls, c.op.Within lo hi) :
    (l.execAll (Units.int64 overflow) calls).Solvent lo hi := by
  induction calls generalizing l with
  | nil => exact h
  | cons c cs ih =>
    exact ih (h.exec hrange (hcalls c (by simp))) fun c' hc' => hcalls c' (by simp [hc'])

/-- What a call does that finds a balance below one, if the number that it converts fits. -/
theorem reserve_eq_of_lt (overflow : Binary64 → Int) (hrate : 0 < l.rate.val)
    (hwait : l.maxWait = 30 * second) (k : String) (now : Int) {x : Binary64}
    (hx : (l.found (Units.int64 overflow) (l.seen k now) now).tokens = x) (hlt : x < 1.0)
    (hfits : (l.delayValue x).val < 2 ^ 63) :
    (l.reserve (Units.int64 overflow) k now).1 =
      if ⌊(l.delayValue x).val⌋ > 30 * second then (0, false)
      else (⌊(l.delayValue x).val⌋, true) := by
  rw [fst_reserve, Pacing.serve_eq_found, hx, Pacing.take_of_lt _ hlt,
    Units.duration_eq_floor (Pacing.delayValue_pos hrate hlt) hfits, hwait]
  simp only [Int.cast_id]
  split <;> rfl

/-- No call makes the rate of a limiter negative or changes its longest wait. -/
theorem execAll_tuning {u : Units Binary64 Int} (hrate : 0 < l.rate.val)
    (calls : List (LimiterCall Binary64)) :
    0 < (l.execAll u calls).rate.val ∧ (l.execAll u calls).maxWait = l.maxWait := by
  induction calls generalizing l with
  | nil => exact ⟨hrate, rfl⟩
  | cons c cs ih =>
    obtain ⟨now, op⟩ := c
    -- a rate that is not positive is ignored
    cases op with
    | reserve key => exact ih (l := (l.reserve u key now).2) hrate
    | setRate rate burst =>
      refine ih (l := l.setRate rate burst) ?_
      rw [setRate]
      split
      · next hpos => simpa [Binary64.lt_def] using hpos
      · exact hrate

/-! ## A burst that is used up -/

/-- A call takes a token, and one at the same time finds the rest. -/
theorem found_reserve_self {u : Units Binary64 Int} {k : String} {now : Int}
    (hidle : 0 ≤ l.maxIdle) (hlast : ∀ b ∈ l.seen k now, b.last ≤ now)
    (hge : 1 ≤ (l.found u (l.seen k now) now).tokens.val) :
    let m := (l.reserve u k now).2
    (∀ b ∈ m.seen k now, b.last ≤ now) ∧
      (m.found u (m.seen k now) now).tokens = (l.found u (l.seen k now) now).tokens - 1.0 := by
  intro m
  have hseen : m.seen k now = some (l.serve u (l.seen k now) now).2 := by
    rw [seen_reserve_self, if_neg (by omega)]
  have hfound := Pacing.found_eq (p := l.toPacing) (u := u) hlast
  have hclock : (l.serve u (l.seen k now) now).2.last = now := by
    rw [Pacing.serve_eq_found, hfound]
  have htake : l.take u (l.found u (l.seen k now) now).tokens =
      ((0, true), (l.found u (l.seen k now) now).tokens - 1.0) :=
    Pacing.take_of_le u (by simpa [Binary64.le_def] using hge)
  constructor
  · intro b hb
    rw [hseen, Option.mem_some] at hb
    exact hb ▸ hclock.le
  · -- no time has passed, so nothing is refilled
    rw [hseen, Pacing.found, Option.getD_some, Pacing.refill_of_le hclock.ge,
      Pacing.serve_eq_found, htake]

/-- The calls at one time find one token less each. Integers are exact up to `2 ^ 53`. -/
theorem found_of_replicate {u : Units Binary64 Int} {k : String} {now : Int} {n : ℕ}
    (hn : n ≤ 2 ^ 53) (hempty : l.seen k now = none) (hburst : l.burst.val = n)
    (hidle : 0 ≤ l.maxIdle) {i : ℕ} (hi : i ≤ n) :
    let m := l.execAll u (List.replicate i ⟨now, .reserve k⟩)
    m.toPacing = l.toPacing ∧ (∀ b ∈ m.seen k now, b.last ≤ now) ∧
      (m.found u (m.seen k now) now).tokens.val = n - i := by
  -- by induction on the calls, each of which takes one token
  induction i with
  | zero =>
    show l.toPacing = l.toPacing ∧ (∀ b ∈ l.seen k now, b.last ≤ now) ∧
      (l.found u (l.seen k now) now).tokens.val = _
    rw [hempty, Pacing.found_none]
    simp [hburst]
  | succ i ih =>
    obtain ⟨hpacing, hlast, htokens⟩ := ih (by omega)
    rw [List.replicate_succ', execAll_snoc]
    have hrest : (i : ℚ) + 1 ≤ n := by exact_mod_cast hi
    obtain ⟨hlast', hfound⟩ := found_reserve_self (hpacing ▸ hidle) hlast
      (by rw [htokens]; linarith)
    refine ⟨hpacing, hlast', (congrArg Binary64.val hfound).trans ?_⟩
    have hint := val_rest_of_eq_intCast (n := n - i) (by rw [htokens]; push_cast; rfl)
      (by rw [abs_of_nonneg] <;> omega)
    rw [hint]
    push_cast
    ring

/-- `Wait` returns at once if the call is granted without a positive delay. -/
theorem wait_eq_none_iff {F D : Type} [OfScientific F] [LinearOrder F] [Add F] [Sub F] [Mul F]
    [Div F] [Zero D] [IntCast D] [LinearOrder D] {u : Units F D} {l : Limiter F} {k : String}
    {now : Int} : (l.wait u k now).1 = .ok none ↔
      (l.reserve u k now).1.2 = true ∧ (l.reserve u k now).1.1 ≤ 0 := by
  unfold Limiter.wait
  obtain ⟨⟨delay, ok⟩, l'⟩ := l.reserve u k now
  cases ok <;> simp

end Limiter

/-- For every machine, accepted settings to start with, and history of reservations and changes of
    the settings. When a call finds a balance below one after the refill, the number that it
    converts is positive. If it fits into 64 bits, the call is refused if the integer part is longer
    than the longest wait, and otherwise granted with the integer part as its delay; and `Wait`
    returns at once only if the number is less than a nanosecond. It fits if all the rates lie
    between two bounds that are not extremely far apart or extremely small. For a slower rate it
    does not fit when a burst is used up. -/
theorem delay_in_range (overflow : Binary64 → Int) {s : Settings Binary64}
    (hs : s.validate = .ok ()) (calls : List (LimiterCall Binary64)) (k : String) (now : Int) :
    let u := Units.int64 overflow
    let l := s.limiter.execAll u calls
    let x := (l.found u (l.seen k now) now).tokens
    (x < 1.0 → 0 < (l.delayValue x).val ∧
      ((l.delayValue x).val < 2 ^ 63 →
        (l.reserve u k now).1 = (if ⌊(l.delayValue x).val⌋ > 30 * second then (0, false)
          else (⌊(l.delayValue x).val⌋, true)) ∧
        ((l.wait u k now).1 = .ok none ↔ (l.delayValue x).val < 1)) ∧
      ∀ lo hi, Pacing.InRange lo hi → s.Within lo hi → (∀ c ∈ calls, c.op.Within lo hi) →
        (l.delayValue x).val < 2 ^ 63) ∧
    ∀ n : ℕ, n ≤ 2 ^ 53 → s.probeBurst.val = n → s.probeRate.val ≤ 10842 / 10 ^ 14 →
      let m := s.limiter.execAll u (List.replicate n ⟨now, .reserve k⟩)
      let y := (m.found u (m.seen k now) now).tokens
      y < 1.0 ∧ 2 ^ 63 ≤ (m.delayValue y).val := by
  intro u l x
  have hpos : 0 < s.limiter.rate.val := by
    rw [Settings.toPacing_limiter hs]
    exact (Settings.pos_of_validate hs).1
  obtain ⟨hrate, hwait⟩ := Limiter.execAll_tuning (u := u) hpos calls
  rw [Settings.toPacing_limiter hs] at hwait
  refine ⟨fun hlt => ⟨Pacing.delayValue_pos hrate hlt, fun hfits => ?_, ?_⟩, ?_⟩
  · have hreserve := Limiter.reserve_eq_of_lt overflow hrate hwait k now rfl hlt hfits
    refine ⟨hreserve, ?_⟩
    have hfloor : ⌊(l.delayValue x).val⌋ ≤ 0 ↔ (l.delayValue x).val < 1 := by
      rw [← Int.lt_add_one_iff, zero_add, Int.floor_lt, Int.cast_one]
    rw [Limiter.wait_eq_none_iff, hreserve]
    split
    · next hrefused =>
      -- a call that is refused would have to wait for a long time
      have hlong : ¬ ⌊(l.delayValue x).val⌋ ≤ 0 :=
        fun h => absurd hrefused (not_lt.mpr (h.trans (by decide)))
      simpa using hfloor.not.mp hlong
    · simpa using hfloor
  · intro lo hi hrange hwithin hcalls
    have hsolvent : l.Solvent lo hi := (Limiter.Solvent.new hwithin).execAll hrange hcalls
    have hbound : -(61 / 2 * hi) ≤ x.val :=
      hsolvent.brisk.neg_le_found hrange hsolvent.seen now
    have hle := hsolvent.brisk.delayValue_le hrange hbound
    linarith
  · intro n hn hburst hslow m y
    have htuned := Settings.toPacing_limiter hs
    have hminutes : (0 : Int) ≤ 10 * minute := by decide
    have hempty : s.limiter.seen k now = none := rfl
    obtain ⟨hpacing, -, htokens⟩ := Limiter.found_of_replicate (u := u) hn hempty
      (by rw [htuned, hburst]) (by rwa [htuned]) le_rfl
    have hzero : y.val = 0 := by rw [htokens, sub_self]
    refine ⟨by simp [Binary64.lt_def, hzero], ?_⟩
    rw [hpacing]
    exact Pacing.le_delayValue_of_empty hpos (by rwa [htuned]) hzero

/-- The default settings, with another rate and burst. -/
def paceSettings (rate burst : Binary64) : Settings Binary64 :=
  { Settings.default with probeRate := rate, probeBurst := burst }

/-- Calls for one destination at these times. -/
def reserveAt (times : List Int) : List (LimiterCall Binary64) :=
  times.map fun now => ⟨now, .reserve "k"⟩

/-- Five calls at once, and then the rate is doubled. -/
def doubledCalls : List (LimiterCall Binary64) :=
  reserveAt [0, 0, 0, 0, 0] ++ [⟨0, .setRate 2.0 5.0⟩]

/-- The burst is used up, and the next call waits for half a second. -/
theorem delay_in_range_doubled :
    let l := (paceSettings 1.0 5.0).limiter.execAll Units.amd64 doubledCalls
    (l.reserve Units.amd64 "k" 0).1 = (500000000, true) ∧
      (l.wait Units.amd64 "k" 0).1 ≠ .ok none := by
  intro l
  have hrange : Pacing.InRange 1 2 := by
    unfold Pacing.InRange
    norm_num
  have hone : (paceSettings 1.0 5.0).Within 1 2 :=
    ⟨by decide +kernel, by decide +kernel, by decide +kernel⟩
  have htwo : (paceSettings 2.0 5.0).Within 1 2 :=
    ⟨by decide +kernel, by decide +kernel, by decide +kernel⟩
  have hcalls : ∀ c ∈ doubledCalls, c.op.Within 1 2 := by
    intro c hc
    rcases List.mem_append.mp hc with hc | hc
    · obtain ⟨now, -, rfl⟩ := List.mem_map.mp hc
      trivial
    · obtain rfl := List.mem_singleton.mp hc
      exact ⟨_, htwo, rfl, rfl⟩
  obtain ⟨hcall, -⟩ := delay_in_range (fun _ => -2 ^ 63) hone.1 doubledCalls "k" 0
  obtain ⟨-, hfits, hwithin⟩ := hcall (by decide +kernel)
  obtain ⟨hreserve, hwait⟩ := hfits (hwithin 1 2 hrange hone hcalls)
  -- one token is missing, which takes half a second at the new rate
  have hvalue : (l.delayValue (l.found Units.amd64 (l.seen "k" 0) 0).tokens).val = 500000000 := by
    decide +kernel
  refine ⟨hreserve.trans ?_, hwait.not.mpr ?_⟩
  · show (if ⌊(l.delayValue (l.found Units.amd64 (l.seen "k" 0) 0).tokens).val⌋ > 30 * second then
      _ else _) = _
    rw [hvalue]
    decide +kernel
  · show ¬ (l.delayValue (l.found Units.amd64 (l.seen "k" 0) 0).tokens).val < 1
    rw [hvalue]
    norm_num

/-- With a rate of one probe in 10¹⁰ seconds the second call has to wait for 10¹⁹ nanoseconds,
    which become a negative number: the call is granted, and `Wait` returns at once. With ten
    probes per second, a call that comes a nanosecond before its token is not delayed at all. -/
theorem delay_out_of_range :
    (let s := paceSettings 1e-10 1.0
      let l := s.limiter.execAll Units.amd64 (reserveAt [0])
      let x := (l.found Units.amd64 (l.seen "k" 0) 0).tokens
      s.validate = .ok () ∧ x < 1.0 ∧ 2 ^ 63 ≤ (l.delayValue x).val ∧
        (l.reserve Units.amd64 "k" 0).1 = (-2 ^ 63, true) ∧
        (l.wait Units.amd64 "k" 0).1 = .ok none) ∧
    let s := paceSettings 10.0 1.0
    let l := s.limiter.execAll Units.amd64 (reserveAt [0])
    let x := (l.found Units.amd64 (l.seen "k" 99999999) 99999999).tokens
    s.validate = .ok () ∧ x < 1.0 ∧ 0 < (l.delayValue x).val ∧
      (l.wait Units.amd64 "k" 99999999).1 = .ok none := by
  refine ⟨⟨?_, ?_, ?_, ?_, ?_⟩, ?_, ?_, ?_, ?_⟩ <;> decide +kernel

end Rcptto.Native
