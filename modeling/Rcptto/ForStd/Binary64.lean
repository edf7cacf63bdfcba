import Mathlib.Data.Int.Log
import Mathlib.Data.Rat.Floor
import Mathlib.Order.Lattice

/-!
# Rounded arithmetic with 53 significant bits

The binary64 format of IEEE 754: a number is an integer of at most 53 bits times a power of
two, and the result of an operation is the exact result rounded to the nearest such number,
ties to even. The exponent is not bounded here, so there is no overflow, no subnormal number
and no infinity; within the range of normal numbers the results are those of the format.
-/

namespace Rat

/-- The integer nearest to `x`, the even one if there are two. -/
def roundHalfEven (x : ℚ) : ℤ :=
  if x - ⌊x⌋ < 1 / 2 then ⌊x⌋
  else if 1 / 2 < x - ⌊x⌋ then ⌊x⌋ + 1
  else if ⌊x⌋ % 2 = 0 then ⌊x⌋
  else ⌊x⌋ + 1

/-- The integer part of `x`, the fraction dropped towards zero. -/
def truncate (x : ℚ) : ℤ := if 0 ≤ x then ⌊x⌋ else ⌈x⌉

variable {x y : ℚ}

/-- The integer below or the integer above is taken. -/
theorem roundHalfEven_cases (x : ℚ) :
    roundHalfEven x = ⌊x⌋ ∧ x - ⌊x⌋ ≤ 1 / 2 ∨ roundHalfEven x = ⌊x⌋ + 1 ∧ 1 / 2 ≤ x - ⌊x⌋ := by
  unfold roundHalfEven
  split_ifs with h₁ h₂ h₃
  · exact .inl ⟨rfl, h₁.le⟩
  · exact .inr ⟨rfl, h₂.le⟩
  · exact .inl ⟨rfl, not_lt.mp h₂⟩
  · exact .inr ⟨rfl, not_lt.mp h₁⟩

theorem roundHalfEven_intCast (n : ℤ) : roundHalfEven n = n := by
  simp [roundHalfEven]

/-- Rounding is off by a half at most. -/
theorem abs_roundHalfEven_sub_le (x : ℚ) : |(roundHalfEven x : ℚ) - x| ≤ 1 / 2 := by
  have hfloor := Int.floor_le x
  have hlt := Int.lt_floor_add_one x
  rw [abs_le]
  rcases roundHalfEven_cases x with ⟨h, hhalf⟩ | ⟨h, hhalf⟩
  · rw [h]
    exact ⟨by linarith, by linarith⟩
  · rw [h]
    push_cast
    exact ⟨by linarith, by linarith⟩

/-- Rounding keeps the order. -/
theorem roundHalfEven_mono (h : x ≤ y) : roundHalfEven x ≤ roundHalfEven y := by
  have hfloor : ⌊x⌋ ≤ ⌊y⌋ := Int.floor_le_floor h
  rcases hfloor.lt_or_eq with hlt | heq
  · -- there is an integer between the two
    rcases roundHalfEven_cases x with ⟨hx, -⟩ | ⟨hx, -⟩ <;>
      rcases roundHalfEven_cases y with ⟨hy, -⟩ | ⟨hy, -⟩ <;> omega
  · -- the fraction of `x` is the smaller one
    unfold roundHalfEven
    rw [← heq]
    split_ifs <;> first | omega | (exfalso; linarith)

/-- Rounding to an integer does not leave an interval with integer ends. -/
theorem abs_roundHalfEven_le {n : ℤ} (h : |x| ≤ n) : |roundHalfEven x| ≤ n := by
  obtain ⟨hlo, hhi⟩ := abs_le.mp h
  have hle := roundHalfEven_mono hhi
  have hge := roundHalfEven_mono (x := ((-n : ℤ) : ℚ)) (by push_cast; exact hlo)
  rw [roundHalfEven_intCast] at hle hge
  exact abs_le.mpr ⟨hge, hle⟩

/-- Rounding is symmetric. -/
theorem roundHalfEven_neg (x : ℚ) : roundHalfEven (-x) = -roundHalfEven x := by
  by_cases hint : x = ⌊x⌋
  · rw [hint, ← Int.cast_neg, roundHalfEven_intCast, roundHalfEven_intCast]
  · have hlt : (⌊x⌋ : ℚ) < x := lt_of_le_of_ne (Int.floor_le x) (Ne.symm hint)
    have hfloor : ⌊-x⌋ = -⌊x⌋ - 1 := by
      rw [Int.floor_eq_iff]
      push_cast
      have := Int.lt_floor_add_one x
      exact ⟨by linarith, by linarith⟩
    -- the fractions add up to one, and of the two floors one is even
    unfold roundHalfEven
    rw [hfloor]
    push_cast
    split_ifs <;> first | omega | (exfalso; linarith)

end Rat

/-- A number with 53 significant bits. -/
@[ext] structure Binary64 where
  val : ℚ
  representable : ∃ m e : ℤ, |m| ≤ 2 ^ 53 ∧ val = m * 2 ^ e

namespace Binary64

/-- The exponent that leaves 53 bits before the point. -/
def exponent (x : ℚ) : ℤ := Int.log 2 |x| - 52

/-- The mantissa has 53 bits. -/
theorem abs_div_exponent_le (x : ℚ) : |x / 2 ^ exponent x| ≤ (2 ^ 53 : ℤ) := by
  have hpos : (0 : ℚ) < 2 ^ exponent x := zpow_pos (by norm_num) _
  have hlog : |x| < 2 ^ (Int.log 2 |x| + 1) := by
    exact_mod_cast Int.lt_zpow_succ_log_self (by norm_num : 1 < 2) |x|
  rw [abs_div, abs_of_pos hpos, div_le_iff₀ hpos]
  calc |x| ≤ 2 ^ (Int.log 2 |x| + 1) := hlog.le
    _ = 2 ^ ((53 : ℤ) + exponent x) := by congr 1; unfold exponent; omega
    _ = (2 ^ 53 : ℤ) * 2 ^ exponent x := by
      rw [zpow_add₀ (by norm_num : (2 : ℚ) ≠ 0)]
      norm_num

/-- The number nearest to `x`. -/
def round (x : ℚ) : Binary64 where
  val := Rat.roundHalfEven (x / 2 ^ exponent x) * 2 ^ exponent x
  representable := ⟨_, _, Rat.abs_roundHalfEven_le (abs_div_exponent_le x), rfl⟩

instance : Add Binary64 := ⟨fun a b => round (a.val + b.val)⟩

instance : Sub Binary64 := ⟨fun a b => round (a.val - b.val)⟩

instance : Mul Binary64 := ⟨fun a b => round (a.val * b.val)⟩

instance : Div Binary64 := ⟨fun a b => round (a.val / b.val)⟩

instance : IntCast Binary64 := ⟨fun n => round n⟩

instance : OfScientific Binary64 := ⟨fun m s e => round (OfScientific.ofScientific m s e)⟩

instance : LinearOrder Binary64 := LinearOrder.lift' val fun _ _ => Binary64.ext

theorem le_def {a b : Binary64} : a ≤ b ↔ a.val ≤ b.val := Iff.rfl

theorem lt_def {a b : Binary64} : a < b ↔ a.val < b.val := Iff.rfl

@[simp] theorem val_zero : (0.0 : Binary64).val = 0 := by decide +kernel

@[simp] theorem val_one : (1.0 : Binary64).val = 1 := by decide +kernel

@[simp] theorem val_billion : (1e9 : Binary64).val = 1000000000 := by decide +kernel

/-! ## Rounding -/

variable {x y : ℚ}

theorem exponent_neg (x : ℚ) : exponent (-x) = exponent x := by
  rw [exponent, exponent, abs_neg]

theorem val_round_neg (x : ℚ) : (round (-x)).val = -(round x).val := by
  simp only [round, exponent_neg, neg_div, Rat.roundHalfEven_neg]
  push_cast
  ring

theorem two_zpow_pos (e : ℤ) : (0 : ℚ) < 2 ^ e := zpow_pos (by norm_num) e

/-- With 53 bits before the point a number other than 0 is large. -/
theorem le_abs_div_exponent (hx : x ≠ 0) : 2 ^ 52 ≤ |x| / 2 ^ exponent x := by
  have hlog : (2 : ℚ) ^ Int.log 2 |x| ≤ |x| := by
    exact_mod_cast Int.zpow_log_le_self (by norm_num : 1 < 2) (abs_pos.mpr hx)
  rw [le_div_iff₀ (two_zpow_pos _)]
  calc (2 : ℚ) ^ 52 * 2 ^ exponent x = 2 ^ ((52 : ℤ) + exponent x) := by
        rw [zpow_add₀ (by norm_num)]
        norm_num
    _ = 2 ^ Int.log 2 |x| := by congr 1; unfold exponent; omega
    _ ≤ |x| := hlog

/-- The relative error of rounding is half a unit in the last place. -/
theorem abs_val_round_sub_le (x : ℚ) : |(round x).val - x| ≤ |x| / 2 ^ 53 := by
  by_cases hx : x = 0
  · subst hx
    simp [round, Rat.roundHalfEven]
  · have hpos := two_zpow_pos (exponent x)
    have herr := Rat.abs_roundHalfEven_sub_le (x / 2 ^ exponent x)
    have hlarge := le_abs_div_exponent hx
    -- the error is that of the mantissa, which is a half at most, and the mantissa is at least `2 ^
    -- 52`
    have hval : (round x).val - x =
        (Rat.roundHalfEven (x / 2 ^ exponent x) - x / 2 ^ exponent x) * 2 ^ exponent x := by
      rw [sub_mul, div_mul_cancel₀ _ hpos.ne']
      rfl
    rw [hval, abs_mul, abs_of_pos hpos, le_div_iff₀ (by norm_num)]
    rw [le_div_iff₀ hpos] at hlarge
    calc _ ≤ (1 / 2 : ℚ) * 2 ^ exponent x * 2 ^ 53 := by gcongr
      _ = 2 ^ 52 * 2 ^ exponent x := by ring
      _ ≤ |x| := hlarge

/-- What rounding can at most multiply a number with that is not negative. -/
def slack : ℚ := 1 + 1 / 2 ^ 53

theorem one_le_slack : 1 ≤ slack := by decide +kernel

/-- One more rounding, in a computation with numbers that are not negative. -/
theorem val_round_le_slack {n : ℕ} (hx : 0 ≤ x) (h : x ≤ y * slack ^ n) :
    (round x).val ≤ y * slack ^ (n + 1) := by
  have herr := (abs_le.mp (abs_val_round_sub_le x)).2
  rw [abs_of_nonneg hx] at herr
  calc (round x).val ≤ x * slack := by rw [slack]; linarith
    _ ≤ y * slack ^ n * slack := mul_le_mul_of_nonneg_right h (zero_le_one.trans one_le_slack)
    _ = y * slack ^ (n + 1) := by rw [pow_succ, mul_assoc]

/-- A number that is an integer in units of the last place is not changed. -/
theorem val_round_of_int {n : ℤ} (h : x / 2 ^ exponent x = n) : (round x).val = x := by
  have hx : x = n * 2 ^ exponent x := by
    rw [← h, div_mul_cancel₀ _ (two_zpow_pos _).ne']
  show (Rat.roundHalfEven (x / 2 ^ exponent x) : ℚ) * 2 ^ exponent x = x
  rw [h, Rat.roundHalfEven_intCast]
  exact hx.symm

/-- The numbers with fewer than 53 significant bits. -/
theorem val_round_of_lt {m e : ℤ} (hm : |m| < 2 ^ 53) :
    (round (m * 2 ^ e)).val = m * 2 ^ e := by
  by_cases hzero : m = 0
  · subst hzero
    simp [round, Rat.roundHalfEven]
  · have hexp : exponent (m * 2 ^ e) ≤ e := by
      have habs : |(m * 2 ^ e : ℚ)| < (2 : ℕ) ^ (53 + e) := by
        have hm' : |(m : ℚ)| < 2 ^ 53 := by exact_mod_cast hm
        rw [abs_mul, abs_of_pos (two_zpow_pos e), Nat.cast_ofNat, zpow_add₀ (by norm_num)]
        exact mul_lt_mul_of_pos_right (by exact_mod_cast hm') (two_zpow_pos e)
      have hne : (m * 2 ^ e : ℚ) ≠ 0 :=
        mul_ne_zero (by exact_mod_cast hzero) (two_zpow_pos e).ne'
      have hlog := (Int.lt_zpow_iff_log_lt (by norm_num) (abs_pos.mpr hne)).mp habs
      unfold exponent
      omega
    -- so the number is an integer multiple of the power that it is rounded to
    obtain ⟨k, hk⟩ := Int.eq_ofNat_of_zero_le (Int.sub_nonneg_of_le hexp)
    refine val_round_of_int (n := m * 2 ^ k) ?_
    have hsplit : (2 : ℚ) ^ e = 2 ^ k * 2 ^ exponent (m * 2 ^ e) := by
      rw [← zpow_natCast, ← zpow_add₀ (by norm_num), ← hk]
      congr 1
      omega
    rw [div_eq_iff (two_zpow_pos _).ne']
    push_cast
    rw [mul_assoc, ← hsplit]

/-- Rounding does not change a number of the format. -/
theorem round_val (a : Binary64) : round a.val = a := by
  obtain ⟨m, e, hm, ha⟩ := a.representable
  ext
  rcases hm.lt_or_eq with hlt | heq
  · rw [ha, val_round_of_lt hlt]
  · -- a power of two, for which one bit is enough
    obtain ⟨n, hn, rfl⟩ : ∃ n : ℤ, |n| < 2 ^ 53 ∧ m = 2 * n := by
      rcases (abs_eq (by norm_num)).mp heq with rfl | rfl
      · exact ⟨2 ^ 52, by norm_num, by norm_num⟩
      · exact ⟨-2 ^ 52, by norm_num, by norm_num⟩
    have hshift : ((2 * n : ℤ) : ℚ) * 2 ^ e = n * 2 ^ (e + 1) := by
      rw [zpow_add₀ (by norm_num), zpow_one]
      push_cast
      ring
    rw [ha, hshift, val_round_of_lt hn]

/-- What is not negative is not rounded below zero. -/
theorem val_round_nonneg (hx : 0 ≤ x) : 0 ≤ (round x).val := by
  have hdiv : 0 ≤ x / 2 ^ exponent x := div_nonneg hx (two_zpow_pos _).le
  have hround := Rat.roundHalfEven_mono hdiv
  rw [← Int.cast_zero, Rat.roundHalfEven_intCast] at hround
  exact mul_nonneg (by exact_mod_cast hround) (two_zpow_pos _).le

/-- Numbers of different exponents are separated by a power of two. -/
theorem val_round_le_of_exponent_lt (hy : 0 < y) (h : exponent x < exponent y) :
    (round x).val ≤ (round y).val := by
  have hle : (Rat.roundHalfEven (x / 2 ^ exponent x) : ℚ) ≤ 2 ^ 53 := by
    have habs := Rat.abs_roundHalfEven_le (abs_div_exponent_le x)
    exact_mod_cast (le_abs_self _).trans habs
  have hge : (2 ^ 52 : ℚ) ≤ Rat.roundHalfEven (y / 2 ^ exponent y) := by
    have hlarge := le_abs_div_exponent hy.ne'
    rw [abs_of_pos hy] at hlarge
    have hround := Rat.roundHalfEven_mono (x := ((2 ^ 52 : ℤ) : ℚ)) (by exact_mod_cast hlarge)
    rw [Rat.roundHalfEven_intCast] at hround
    exact_mod_cast hround
  -- between the two there is a power of two
  calc (round x).val ≤ 2 ^ 53 * 2 ^ exponent x :=
        mul_le_mul_of_nonneg_right hle (two_zpow_pos _).le
    _ = 2 ^ 52 * 2 ^ (exponent x + 1) := by
        rw [zpow_add₀ (by norm_num), zpow_one]
        ring
    _ ≤ 2 ^ 52 * 2 ^ exponent y := by
        have := zpow_le_zpow_right₀ (by norm_num : (1 : ℚ) ≤ 2) (Int.add_one_le_of_lt h)
        linarith
    _ ≤ (round y).val := mul_le_mul_of_nonneg_right hge (two_zpow_pos _).le

/-- Rounding keeps the order of positive numbers. -/
theorem val_round_mono_of_pos (hx : 0 < x) (h : x ≤ y) : (round x).val ≤ (round y).val := by
  have hy : 0 < y := hx.trans_le h
  have hexp : exponent x ≤ exponent y := by
    have := Int.log_mono_right (b := 2) (abs_pos.mpr hx.ne') (abs_le_abs_of_nonneg hx.le h)
    unfold exponent
    omega
  rcases hexp.lt_or_eq with hlt | heq
  · exact val_round_le_of_exponent_lt hy hlt
  · -- with equal exponents the mantissas are in the same order
    have hdiv : x / 2 ^ exponent x ≤ y / 2 ^ exponent y := by
      rw [heq]
      exact div_le_div_of_nonneg_right h (two_zpow_pos _).le
    have hround : (Rat.roundHalfEven (x / 2 ^ exponent x) : ℚ) ≤
        Rat.roundHalfEven (y / 2 ^ exponent y) := by
      exact_mod_cast Rat.roundHalfEven_mono hdiv
    show _ * (2 : ℚ) ^ exponent x ≤ _ * (2 : ℚ) ^ exponent y
    rw [heq] at hround ⊢
    exact mul_le_mul_of_nonneg_right hround (two_zpow_pos _).le

/-- Rounding keeps the order. -/
theorem val_round_mono (h : x ≤ y) : (round x).val ≤ (round y).val := by
  rcases lt_or_ge 0 x with hx | hx
  · exact val_round_mono_of_pos hx h
  · have hneg : (round x).val ≤ 0 := by
      have := val_round_nonneg (neg_nonneg.mpr hx)
      rw [val_round_neg] at this
      linarith
    rcases lt_or_ge y 0 with hy | hy
    · -- both are negative, and their opposites are in the other order
      have := val_round_mono_of_pos (neg_pos.mpr hy) (neg_le_neg h)
      rw [val_round_neg, val_round_neg] at this
      linarith
    · exact hneg.trans (val_round_nonneg hy)

/-- Rounding does not cross a number of the format. -/
theorem le_val_round (a : Binary64) (h : a.val ≤ x) : a.val ≤ (round x).val := by
  calc a.val = (round a.val).val := by rw [round_val]
    _ ≤ (round x).val := val_round_mono h

/-- A number below a floating-point number is not rounded above it. -/
theorem val_round_le (a : Binary64) (h : x ≤ a.val) : (round x).val ≤ a.val := by
  calc (round x).val ≤ (round a.val).val := val_round_mono h
    _ = a.val := by rw [round_val]

theorem intCast_le_val_round {n : ℤ} (hn : |n| ≤ 2 ^ 53) (h : n ≤ x) : n ≤ (round x).val :=
  le_val_round ⟨n, n, 0, hn, by simp⟩ h

theorem val_round_le_intCast {n : ℤ} (hn : |n| ≤ 2 ^ 53) (h : x ≤ n) : (round x).val ≤ n :=
  val_round_le ⟨n, n, 0, hn, by simp⟩ h

/-- A small integer is not rounded. -/
theorem val_round_intCast {n : ℤ} (hn : |n| ≤ 2 ^ 53) : (round n).val = n :=
  congrArg val (round_val ⟨n, n, 0, hn, by simp⟩)

/-- A positive number is not rounded to zero: there is no least exponent. -/
theorem val_round_pos (hx : 0 < x) : 0 < (round x).val := by
  have herr := abs_le.mp (abs_val_round_sub_le x)
  rw [abs_of_pos hx] at herr
  linarith

/-! ## Numbers around one -/

theorem val_add (a b : Binary64) : (a + b).val = (round (a.val + b.val)).val := rfl

theorem val_sub (a b : Binary64) : (a - b).val = (round (a.val - b.val)).val := rfl

theorem val_mul (a b : Binary64) : (a * b).val = (round (a.val * b.val)).val := rfl

/-- Rounding moves a number by at most half of its last bit. -/
theorem abs_val_round_sub_le_exponent (x : ℚ) : |(round x).val - x| ≤ 2 ^ exponent x / 2 := by
  have hpos := two_zpow_pos (exponent x)
  have hround := Rat.abs_roundHalfEven_sub_le (x / 2 ^ exponent x)
  calc |(round x).val - x|
      = |(Rat.roundHalfEven (x / 2 ^ exponent x) : ℚ) - x / 2 ^ exponent x| * 2 ^ exponent x := by
        rw [← abs_of_pos hpos, ← abs_mul, abs_of_pos hpos, sub_mul, div_mul_cancel₀ _ hpos.ne']
        rfl
    _ ≤ 1 / 2 * 2 ^ exponent x := by gcongr
    _ = 2 ^ exponent x / 2 := by ring

/-- Below one, half of the last bit is at most `1 / 2 ^ 54`. -/
theorem abs_val_round_sub_le_of_lt_one (hx : 0 ≤ x) (h : x < 1) :
    |(round x).val - x| ≤ 1 / 2 ^ 54 := by
  -- the logarithm is defined for a positive number only
  rcases hx.eq_or_lt with rfl | hpos
  · have hzero : (round 0).val = 0 := by decide +kernel
    rw [hzero]
    norm_num
  · have hlog : Int.log 2 |x| < 0 := by
      rw [abs_of_pos hpos]
      exact (Int.lt_zpow_iff_log_lt (by norm_num) hpos).mp (by simpa using h)
    have hexp : exponent x ≤ -53 := by unfold exponent; omega
    calc |(round x).val - x| ≤ 2 ^ exponent x / 2 := abs_val_round_sub_le_exponent x
      _ ≤ 2 ^ (-53 : ℤ) / 2 := by gcongr; norm_num
      _ = 1 / 2 ^ 54 := by norm_num

/-- What is not further from one than half of the last bit below it is rounded to one. -/
theorem val_round_eq_one (h : |x - 1| ≤ 1 / 2 ^ 54) : (round x).val = 1 := by
  obtain ⟨hlo, hhi⟩ := abs_le.mp h
  have hbelow : (round (1 - 1 / 2 ^ 54)).val = 1 := by decide +kernel
  have habove : (round (1 + 1 / 2 ^ 54)).val = 1 := by decide +kernel
  apply le_antisymm
  · rw [← habove]
    exact val_round_mono (by linarith)
  · rw [← hbelow]
    exact val_round_mono (by linarith)

theorem val_round_le_one (h : x ≤ 1 + 1 / 2 ^ 54) : (round x).val ≤ 1 := by
  calc (round x).val ≤ (round (1 + 1 / 2 ^ 54)).val := val_round_mono h
    _ = 1 := val_round_eq_one (by norm_num)

/-- Halving is exact. -/
theorem val_mul_half (a : Binary64) : (a * 0.5).val = a.val / 2 := by
  obtain ⟨m, e, hm, hval⟩ := a.representable
  have hhalf : (0.5 : Binary64).val = 1 / 2 := by decide +kernel
  let b : Binary64 := ⟨a.val / 2, m, e - 1, hm, by
    rw [hval, zpow_sub_one₀ (by norm_num : (2 : ℚ) ≠ 0)]
    ring⟩
  rw [val_mul, hhalf, mul_one_div]
  exact congrArg val (round_val b)

end Binary64
