import Mathlib.Algebra.Order.Field.Basic
import Mathlib.Data.List.Induction
import Mathlib.Tactic.Linarith
import Mathlib.Tactic.Ring
import Rcptto.Native.Limiter

/-!
# Calls of the rate limiter

What a call for `k` finds is `Limiter.seen`: the bucket of `k` after the sweep. Everything
that a call does is a function of it (`Pacing.serve`).

Without rounding the bucket matters only through its `Pacing.level`: the balance after the
refill. It is the same whether the time since the last call is added in one step or in two.

## Key results

- `Limiter.seen_reserve_self`, `Limiter.seen_reserve_of_ne`: what a call leaves to find
- `Pacing.serve_eq_take`: a call is determined by the level
- `Limiter.tracked_after`: buckets never exceed the burst and remember the last call
-/

namespace Rcptto.Native

section Calls

variable {F D : Type} [OfScientific F] [LinearOrder F] [Add F] [Sub F] [Mul F] [Div F]
  [Zero D] [IntCast D] [LinearOrder D]

/-- The bucket right after the refill step of a call, with its new access time. -/
def Pacing.found (p : Pacing F) (u : Units F D) (b : Option (Bucket F)) (now : Int) : Bucket F :=
  { p.refill u (b.getD { tokens := p.burst, last := now, lastAccess := 0 }) now with
    lastAccess := now }

theorem Pacing.serve_eq_found (p : Pacing F) (u : Units F D) (b : Option (Bucket F)) (now : Int) :
    p.serve u b now = ((p.take u (p.found u b now).tokens).1,
      { p.found u b now with tokens := (p.take u (p.found u b now).tokens).2 }) := rfl

section Refill

omit [OfScientific F] [Sub F] [Div F] [Zero D] [IntCast D] [LinearOrder D]

variable {p : Pacing F} {u : Units F D} {now : Int}

/-- After some time the balance has gone up by what was earned, to the burst at most. -/
theorem Pacing.refill_of_lt {b : Bucket F} (h : b.last < now) : p.refill u b now =
    { b with
      tokens := min p.burst (b.tokens + u.seconds (now - b.last) * p.rate)
      last := now } := by
  have helapsed : now - b.last > 0 := by omega
  unfold refill
  dsimp only
  rw [if_pos helapsed]
  split
  · next hlt => rw [min_eq_left (le_of_lt hlt)]
  · next hle => rw [min_eq_right (not_lt.mp hle)]

theorem Pacing.refill_of_le {b : Bucket F} (h : now ≤ b.last) : p.refill u b now = b := by
  have helapsed : ¬now - b.last > 0 := by omega
  exact if_neg helapsed

theorem Pacing.found_none :
    p.found u none now = { tokens := p.burst, last := now, lastAccess := now } := by
  rw [found, Option.getD_none, refill_of_le le_rfl]

/-- The refill step brings the clock of a bucket up to date. -/
theorem Pacing.found_eq {b : Option (Bucket F)} (hb : ∀ b' ∈ b, b'.last ≤ now) :
    p.found u b now = { tokens := (p.found u b now).tokens, last := now, lastAccess := now } := by
  cases b with
  | none => rw [found_none]
  | some b' =>
    rw [found, Option.getD_some]
    rcases (hb b' rfl).lt_or_eq with hlt | rfl
    · rw [refill_of_lt hlt]
    · rw [refill_of_le le_rfl]

/-- After the refill step the balance is within the burst, unless the bucket is found at the very
    time of its last refill and holds more than that. -/
theorem Pacing.found_le_burst_iff {b : Option (Bucket F)} :
    (p.found u b now).tokens ≤ p.burst ↔ ∀ b' ∈ b, b'.last < now ∨ b'.tokens ≤ p.burst := by
  cases b with
  | none => simp [found_none]
  | some b' =>
    rw [found, Option.getD_some]
    simp only [Option.mem_some, forall_eq']
    -- only time that has passed caps the balance
    rcases lt_or_ge b'.last now with hlt | hle
    · rw [refill_of_lt hlt]
      simp [hlt]
    · rw [refill_of_le hle]
      simp [not_lt.mpr hle]

end Refill

omit [Add F] in
/-- A refused call leaves what it found. -/
theorem Pacing.take_of_refused {p : Pacing F} {u : Units F D} {x : F}
    (h : (p.take u x).1.2 = false) : (p.take u x).2 = x := by
  unfold take at h ⊢
  split
  · simp_all
  · rename_i hlt
    simp only [if_neg hlt] at h ⊢
    split <;> simp_all

namespace Limiter

variable {u : Units F D} {l : Limiter F} {k key : String} {now later : Int}
  {calls calls' : List Reservation} {c : Reservation}

/-! ## What a call finds -/

/-- The bucket of `k` that a call at the time `now` finds. -/
def seen (l : Limiter F) (k : String) (now : Int) : Option (Bucket F) :=
  (l.evictIdleLocked now).buckets k

omit [OfScientific F] [LinearOrder F] [Add F] [Sub F] [Mul F] [Div F] in
theorem seen_eq : l.seen k now =
    (l.buckets k).filter fun b => !(now - b.lastAccess > l.maxIdle) := rfl

theorem fst_reserve : (l.reserve u k now).1 = (l.serve u (l.seen k now) now).1 := rfl

@[simp] theorem toPacing_reserve : (l.reserve u key now).2.toPacing = l.toPacing := rfl

/-- A call leaves its own bucket behind, and the buckets that it has not swept. -/
theorem buckets_reserve : (l.reserve u key now).2.buckets =
    Function.update (l.seen · now) key (some (l.serve u (l.seen key now) now).2) := rfl

/-- The bucket that a call leaves behind is found again until it has been idle for too long. -/
theorem seen_reserve_self : (l.reserve u k now).2.seen k later =
    if later - now > l.maxIdle then none else some (l.serve u (l.seen k now) now).2 := by
  have haccess : (l.serve u (l.seen k now) now).2.lastAccess = now := rfl
  rw [seen_eq, buckets_reserve, Function.update_self, toPacing_reserve]
  by_cases hidle : later - now > l.maxIdle
  · rw [if_pos hidle]
    exact Option.filter_some_neg (by simpa [haccess] using hidle)
  · rw [if_neg hidle]
    exact Option.filter_some_pos (by simpa [haccess] using hidle)

/-- A call for another key is not seen by a later call: the later one sweeps, too. -/
theorem seen_reserve_of_ne (hne : k ≠ key) (hle : now ≤ later) :
    (l.reserve u key now).2.seen k later = l.seen k later := by
  rw [seen_eq, buckets_reserve, Function.update_of_ne hne, toPacing_reserve, seen_eq, seen_eq,
    Option.filter_filter]
  congr 1
  funext b
  rw [Bool.eq_iff_iff]
  simp only [Bool.and_eq_true, Bool.not_eq_true', decide_eq_false_iff_not]
  omega

/-! ## Histories -/

/-- The limiter after a history of calls. -/
def after (u : Units F D) (l : Limiter F) (calls : List Reservation) : Limiter F :=
  calls.foldl (fun l c => (l.reserve u c.key c.now).2) l

@[simp] theorem after_cons :
    l.after u (c :: calls) = (l.reserve u c.key c.now).2.after u calls := rfl

@[simp] theorem after_snoc :
    l.after u (calls ++ [c]) = ((l.after u calls).reserve u c.key c.now).2 := by
  simp [after]

section RateChanges

variable {c : LimiterCall F} {calls : List (LimiterCall F)}

@[simp] theorem execAll_cons : l.execAll u (c :: calls) = (l.exec u c).execAll u calls := rfl

@[simp] theorem execAll_snoc : l.execAll u (calls ++ [c]) = (l.execAll u calls).exec u c := by
  simp [execAll]

end RateChanges

@[simp] theorem toPacing_after : (l.after u calls).toPacing = l.toPacing := by
  induction calls generalizing l with
  | nil => rfl
  | cons c cs ih => rw [after_cons, ih, toPacing_reserve]

/-- The log of two histories, one after the other. -/
theorem log_append :
    l.log u (calls ++ calls') = l.log u calls ++ (l.after u calls).log u calls' := by
  induction calls generalizing l with
  | nil => rfl
  | cons c cs ih => simp only [List.cons_append, log, after_cons, ih]

@[simp] theorem length_log : (l.log u calls).length = calls.length := by
  induction calls generalizing l with
  | nil => rfl
  | cons c cs ih => simp [log, ih]

end Limiter

end Calls

/-! ## Exact arithmetic -/

section Exact

variable {K D : Type} [Field K] [LinearOrder K] [IsStrictOrderedRing K]
  [Zero D] [IntCast D] [LinearOrder D]

/-- The elapsed time is converted to seconds without rounding. -/
def Units.Exact (u : Units K D) : Prop := ∀ d : Int, u.seconds d = (Units.exact K).seconds d

/-- A bucket whose balance is within the burst, and that was last refilled when it was last
    used, not after `now`. -/
structure Bucket.Sound (p : Pacing K) (now : Int) (b : Bucket K) : Prop where
  tokens_le : b.tokens ≤ p.burst
  last_eq : b.last = b.lastAccess
  last_le : b.last ≤ now

namespace Pacing

variable {p : Pacing K} {u : Units K D} {b : Option (Bucket K)} {now later : Int}

/-- The balance that a call at the time `now` finds after the refill. -/
def level (p : Pacing K) (b : Option (Bucket K)) (now : Int) : K :=
  match b with
  | none => p.burst
  | some b => min p.burst (b.tokens + ((now - b.last : Int) : K) / 1e9 * p.rate)

omit [IsStrictOrderedRing K] in
theorem level_le_burst : p.level b now ≤ p.burst := by
  cases b with
  | none => exact le_rfl
  | some b => exact min_le_left _ _

omit [IsStrictOrderedRing K] in
/-- A call is determined by the level: it takes a token from it or not, and leaves a bucket
    behind whose clock is the call's. -/
theorem serve_eq_take (hu : u.Exact) (hb : ∀ x ∈ b, Bucket.Sound p now x) :
    p.serve u b now = ((p.take u (p.level b now)).1,
      { tokens := (p.take u (p.level b now)).2, last := now, lastAccess := now }) := by
  have hfound : p.found u b now =
      { tokens := p.level b now, last := now, lastAccess := now } := by
    cases b with
    | none => exact found_none
    | some b =>
      obtain ⟨htokens, -, hlast⟩ := hb b rfl
      rw [found, Option.getD_some, level]
      -- a bucket that was refilled at this very time is not refilled again
      rcases hlast.lt_or_eq with hlt | rfl
      · rw [refill_of_lt hlt, hu]
        rfl
      · rw [refill_of_le le_rfl]
        simp [htokens]
  rw [serve_eq_found, hfound]

/-- A bucket that was refilled at `now` without a token being taken is as good as the one
    before: what it holds later is the same. -/
theorem level_refilled (hrate : 0 ≤ p.rate) (hle : now ≤ later) :
    p.level (some { tokens := p.level b now, last := now, lastAccess := now }) later =
      p.level b later := by
  have hearned : 0 ≤ ((later - now : Int) : K) / 1e9 * p.rate := by
    have : (0 : K) ≤ ((later - now : Int) : K) := by exact_mod_cast (by omega : 0 ≤ later - now)
    exact mul_nonneg (div_nonneg this (by norm_num)) hrate
  -- no bucket is full, and what a bucket has earned in two parts it has earned in one
  cases b with
  | none => exact min_eq_left (le_add_of_nonneg_right hearned)
  | some b =>
    have hsplit : ((later - b.last : Int) : K) / 1e9 * p.rate =
        ((now - b.last : Int) : K) / 1e9 * p.rate + ((later - now : Int) : K) / 1e9 * p.rate := by
      push_cast
      ring
    simp only [level]
    rw [hsplit, ← add_assoc, ← min_add_add_right, ← min_assoc,
      min_eq_left (le_add_of_nonneg_right hearned)]

/-- A call never leaves more behind than it found. -/
theorem take_le (x : K) : (p.take u x).2 ≤ x := by
  have hone : x - 1.0 ≤ x := by
    have : (0 : K) ≤ 1.0 := by norm_num
    linarith
  unfold take
  -- a token is taken, or nothing
  split
  · exact hone
  · dsimp only
    split
    · exact le_rfl
    · exact hone

end Pacing

namespace Limiter

variable {l : Limiter K} {u : Units K D} {calls : List Reservation} {k : String} {b : Bucket K}

/-- A bucket is within the burst, and its clock is that of the last call for its key. -/
structure Tracked (l : Limiter K) (calls : List Reservation) : Prop where
  tokens_le : ∀ k b, l.buckets k = some b → b.tokens ≤ l.burst
  last_eq : ∀ k b, l.buckets k = some b → b.last = b.lastAccess
  last_call : ∀ k b, l.buckets k = some b →
    ∃ c, (calls.filter (·.key = k)).getLast? = some c ∧ c.now = b.lastAccess

omit [Field K] [IsStrictOrderedRing K] [Zero D] [IntCast D] [LinearOrder D] in
/-- What a call at the end of the history finds is sound. -/
theorem Tracked.sound {now : Int} (h : l.Tracked calls) (hnow : ∀ c ∈ calls, c.now ≤ now) :
    ∀ b ∈ l.seen k now, Bucket.Sound l.toPacing now b := by
  intro b hb
  have hbucket : l.buckets k = some b := (Option.filter_eq_some_iff.mp hb).1
  obtain ⟨c, hlast, hc⟩ := h.last_call k b hbucket
  have hmem : c ∈ calls := (List.mem_filter.mp (List.mem_of_getLast? hlast)).1
  have hle := hnow c hmem
  refine ⟨h.tokens_le k b hbucket, h.last_eq k b hbucket, ?_⟩
  rw [h.last_eq k b hbucket, ← hc]
  exact hle

/-- One more call keeps the buckets tracked. -/
theorem Tracked.reserve {c : Reservation} (h : l.Tracked calls) (hu : u.Exact)
    (hc : ∀ c' ∈ calls, c'.now ≤ c.now) :
    (l.reserve u c.key c.now).2.Tracked (calls ++ [c]) := by
  have hserve := Pacing.serve_eq_take hu (h.sound (k := c.key) hc)
  -- a bucket after the call is the one of the call, or an older one that was not swept
  have hbuckets : ∀ k b, (l.reserve u c.key c.now).2.buckets k = some b →
      k = c.key ∧ b = (l.serve u (l.seen c.key c.now) c.now).2 ∨
        k ≠ c.key ∧ l.buckets k = some b := by
    intro k b hb
    rw [buckets_reserve] at hb
    by_cases hk : k = c.key
    · subst hk
      rw [Function.update_self, Option.some.injEq] at hb
      exact .inl ⟨rfl, hb.symm⟩
    · rw [Function.update_of_ne hk] at hb
      exact .inr ⟨hk, (Option.filter_eq_some_iff.mp hb).1⟩
  refine ⟨fun k b hb => ?_, fun k b hb => ?_, fun k b hb => ?_⟩
  · rcases hbuckets k b hb with ⟨-, rfl⟩ | ⟨-, hb⟩
    · rw [hserve]
      exact (Pacing.take_le _).trans Pacing.level_le_burst
    · exact h.tokens_le k b hb
  · rcases hbuckets k b hb with ⟨-, rfl⟩ | ⟨-, hb⟩
    · rw [hserve]
    · exact h.last_eq k b hb
  · rcases hbuckets k b hb with ⟨rfl, rfl⟩ | ⟨hk, hb⟩
    · exact ⟨c, by simp, by rw [hserve]⟩
    · obtain ⟨c', hlast, hc'⟩ := h.last_call k b hb
      refine ⟨c', ?_, hc'⟩
      rw [List.filter_append, List.filter_cons_of_neg (by simpa using Ne.symm hk), List.filter_nil,
        List.append_nil]
      exact hlast

/-- Every history of a new limiter keeps its buckets tracked. -/
theorem tracked_after (hu : u.Exact) (cfg : LimiterConfig K) (hcalls : InOrder calls) :
    ((new cfg).after u calls).Tracked calls := by
  induction calls using List.reverseRecOn with
  | nil => exact ⟨by simp [after, new], by simp [after, new], by simp [after, new]⟩
  | append_singleton calls c ih =>
    obtain ⟨hcalls, -, hc⟩ := List.pairwise_append.mp hcalls
    rw [after_snoc]
    exact (ih hcalls).reserve hu fun c' hc' => hc c' hc' c (by simp)

end Limiter

end Exact

end Rcptto.Native
