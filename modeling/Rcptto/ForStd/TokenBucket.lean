import Mathlib.Algebra.Order.Field.Basic
import Mathlib.Data.List.ReduceOption
import Mathlib.Tactic.Linarith
import Mathlib.Tactic.Ring
import Rcptto.ForStd.Run

/-!
# Token buckets with a negative balance

A bucket earns `rate` tokens per unit of time, up to `capacity`. A granted request takes one
token; if the balance does not suffice it becomes negative, and the request is released when
the bucket has earned the deficit back. A refused request takes nothing.

The number of requests released in an interval is bounded by what the bucket can hold and
what it earns during the interval. The potential behind the bound is `level - rate * time`:
it never grows, and each granted request lowers it by one.
-/

/-- The balance of a bucket at the time of the last request. -/
structure TokenBucket (K : Type*) where
  level : K
  time : K

namespace TokenBucket

variable {K : Type*} [Field K] [LinearOrder K]

/-- One request, with the balance `x` before it is served. The label is the release time of
    a granted request, and `none` for a refused one. -/
def Step (capacity rate : K) (s : TokenBucket K) (l : Option K) (s' : TokenBucket K) : Prop :=
  s.time ≤ s'.time ∧ ∃ x, x ≤ capacity ∧ x ≤ s.level + rate * (s'.time - s.time) ∧
    match l with
    | none => s'.level = x
    | some release => s'.level = x - 1 ∧ release = s'.time + max 0 ((1 - x) / rate)

variable [IsStrictOrderedRing K] {capacity rate : K} {s s' : TokenBucket K} {l : Option K}
  {ls : List (Option K)} {release : K}

/-- The potential never grows, and a granted request lowers it by one. -/
theorem Step.potential (h : Step capacity rate s l s') :
    s'.level - rate * s'.time + (if l.isSome then 1 else 0) ≤ s.level - rate * s.time := by
  obtain ⟨-, x, -, hx, hl⟩ := h
  cases l with
  | none =>
    simp only [Option.isSome_none, Bool.false_eq_true, if_false] at hl ⊢
    rw [hl]
    linarith
  | some release =>
    simp only [Option.isSome_some, if_true] at hl ⊢
    rw [hl.1]
    linarith

/-- A granted request is released at once, or when the deficit has been earned back,
    whichever is later. -/
theorem Step.release_eq (hrate : 0 < rate) (h : Step capacity rate s (some release) s') :
    rate * release = rate * s'.time + max 0 (-s'.level) := by
  obtain ⟨-, x, -, -, hlevel, hrelease⟩ := h
  rw [hrelease, mul_add, mul_max_of_nonneg _ _ hrate.le, mul_zero, mul_div_cancel₀ _ hrate.ne',
    hlevel, neg_sub]

theorem Step.level_le (h : Step capacity rate s (some release) s') : s'.level ≤ capacity - 1 := by
  obtain ⟨-, x, hx, -, hlevel, -⟩ := h
  linarith

/-! ## The number of releases -/

/-- Of the requests released from the time `a` on, all but what the bucket can hold have been
    earned since. -/
theorem countP_add_level_le (hrate : 0 < rate) (a : K) (h : Run (Step capacity rate) s ls s') :
    ls.reduceOption.countP (a ≤ ·) = 0 ∨
      (ls.reduceOption.countP (a ≤ ·) : K) + s'.level - rate * s'.time ≤
        max capacity 1 - rate * a := by
  refine h.history (I := fun ls s' => ls.reduceOption.countP (a ≤ ·) = 0 ∨
    (ls.reduceOption.countP (a ≤ ·) : K) + s'.level - rate * s'.time ≤
      max capacity 1 - rate * a) (.inl rfl) ?_
  intro ls s l s' _ ih hstep
  have hpot := hstep.potential
  cases l with
  | none =>
    simp only [Option.isSome_none, Bool.false_eq_true, if_false, add_zero] at hpot
    simp only [List.reduceOption_append, List.reduceOption_singleton, Option.toList_none,
      List.append_nil]
    rcases ih with hzero | hle
    · exact .inl hzero
    · exact .inr (by linarith)
  | some release =>
    simp only [Option.isSome_some, if_true] at hpot
    simp only [List.reduceOption_append, List.reduceOption_singleton, Option.toList_some,
      List.countP_append, List.countP_singleton, decide_eq_true_eq]
    by_cases ha : a ≤ release
    · right
      rw [if_pos ha, Nat.cast_add, Nat.cast_one]
      rcases ih with hzero | hle
      · -- the first release that counts: its bucket holds at most the capacity
        rw [hzero, Nat.cast_zero]
        have hrel := hstep.release_eq hrate
        have hlevel := hstep.level_le
        have hra : rate * a ≤ rate * release := mul_le_mul_of_nonneg_left ha hrate.le
        rcases max_cases (0 : K) (-s'.level) with ⟨hmax, -⟩ | ⟨hmax, -⟩
        · have := le_max_left capacity 1
          linarith
        · have := le_max_right capacity 1
          linarith
      · linarith
    · rw [if_neg ha, Nat.add_zero]
      rcases ih with hzero | hle
      · exact .inl hzero
      · exact .inr (by linarith)

/-- In an interval of time a bucket releases at most what it can hold and what it earns. -/
theorem countP_release_le (hrate : 0 < rate) {a b : K} (hab : a ≤ b)
    (h : Run (Step capacity rate) s ls s') :
    (ls.reduceOption.countP (fun r => a ≤ r ∧ r ≤ b) : K) ≤ max capacity 1 + rate * (b - a) := by
  induction ls using List.reverseRecOn generalizing s' with
  | nil =>
    have : 0 ≤ rate * (b - a) := mul_nonneg hrate.le (by linarith)
    have := le_max_right capacity 1
    simp only [List.reduceOption_nil, List.countP_nil, Nat.cast_zero]
    linarith
  | append_singleton ls l ih =>
    obtain ⟨t, hrun, hstep⟩ := Run.snoc_iff.mp h
    cases l with
    | none =>
      simpa only [List.reduceOption_append, List.reduceOption_singleton, Option.toList_none,
        List.append_nil] using ih hrun
    | some release =>
      by_cases hmem : a ≤ release ∧ release ≤ b
      · -- the last release of the interval: count from its start on
        have hcount := countP_add_level_le hrate a h
        have hmono : (ls ++ [some release]).reduceOption.countP (fun r => a ≤ r ∧ r ≤ b) ≤
            (ls ++ [some release]).reduceOption.countP (a ≤ ·) :=
          List.countP_mono_left fun r _ hr => by
            simp only [decide_eq_true_eq] at hr ⊢
            exact hr.1
        have hmono : ((ls ++ [some release]).reduceOption.countP (fun r => a ≤ r ∧ r ≤ b) : K) ≤
            (ls ++ [some release]).reduceOption.countP (a ≤ ·) := by exact_mod_cast hmono
        have hpos : 0 ≤ rate * (b - a) := mul_nonneg hrate.le (by linarith)
        have hmax := le_max_right capacity 1
        rcases hcount with hzero | hle
        · rw [hzero, Nat.cast_zero] at hmono
          linarith
        · have hrel := hstep.release_eq hrate
          have hneg := le_max_right (0 : K) (-s'.level)
          have hrb : rate * release ≤ rate * b := mul_le_mul_of_nonneg_left hmem.2 hrate.le
          linarith
      · simp only [List.reduceOption_append, List.reduceOption_singleton, Option.toList_some,
          List.countP_append, List.countP_singleton, decide_eq_true_eq, if_neg hmem, Nat.add_zero]
        exact ih hrun

/-! ## The order of releases -/

/-- The earliest time at which one more request could be released never moves back. -/
theorem Step.horizon_le (hrate : 0 < rate) (h : Step capacity rate s l s') :
    rate * s.time + max 0 (-s.level) ≤ rate * s'.time + max 0 (-s'.level) := by
  have hpot := h.potential
  have htime : rate * s.time ≤ rate * s'.time := mul_le_mul_of_nonneg_left h.1 hrate.le
  have hone : (0 : K) ≤ if l.isSome then 1 else 0 := by split <;> norm_num
  have hzero := le_max_left (0 : K) (-s'.level)
  have hlevel := le_max_right (0 : K) (-s'.level)
  rcases max_cases (0 : K) (-s.level) with ⟨hmax, -⟩ | ⟨hmax, -⟩
  · linarith
  · linarith

/-- Every request so far is released no later than one more request could be. -/
theorem release_le_horizon (hrate : 0 < rate) (h : Run (Step capacity rate) s ls s') :
    ∀ r ∈ ls.reduceOption, rate * r ≤ rate * s'.time + max 0 (-s'.level) := by
  refine h.history (I := fun ls s' => ∀ r ∈ ls.reduceOption,
    rate * r ≤ rate * s'.time + max 0 (-s'.level)) (by simp) ?_
  intro ls s l s' _ ih hstep r hr
  rw [List.reduceOption_append, List.reduceOption_singleton, List.mem_append,
    Option.mem_toList] at hr
  rcases hr with hr | rfl
  · exact (ih r hr).trans (hstep.horizon_le hrate)
  · exact (hstep.release_eq hrate).le

/-- Requests are released in the order in which they are made. -/
theorem pairwise_release (hrate : 0 < rate) (h : Run (Step capacity rate) s ls s') :
    ls.reduceOption.Pairwise (· ≤ ·) := by
  refine h.history (I := fun ls _ => ls.reduceOption.Pairwise (· ≤ ·)) (by simp) ?_
  intro ls s l s' hrun ih hstep
  rw [List.reduceOption_append, List.reduceOption_singleton, List.pairwise_append]
  refine ⟨ih, by cases l <;> simp, fun r hr r' hr' => ?_⟩
  obtain rfl : l = some r' := Option.mem_toList.mp hr'
  apply le_of_mul_le_mul_left _ hrate
  calc rate * r ≤ rate * s.time + max 0 (-s.level) := release_le_horizon hrate hrun r hr
    _ ≤ rate * s'.time + max 0 (-s'.level) := hstep.horizon_le hrate
    _ = rate * r' := (hstep.release_eq hrate).symm

end TokenBucket
