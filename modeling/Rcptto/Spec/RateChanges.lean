import Mathlib.Algebra.Order.Field.Rat
import Rcptto.Spec.Limiter

/-!
# Changes of the rate

`SetRate` does not touch the buckets. The next call for a key refills its bucket with the rate that
is in force by then, as if it had been in force since the call before. So a rate that is raised
while a key is idle is credited for the time before the change, too. A rate that is lowered is not:
then the key gets less than the two rates would have earned.

The cap at the burst is part of the refill, which does nothing when no time has passed since the
last call. A burst that is lowered right after a call is not yet applied to the next one at the
same time.

## Key results

- `Turn.refilled_eq`: what the second of two consecutive calls for a key finds
- `Limiter.le_accrued`: the least of the rates earns no more than all of them
- `Units.seconds_le`, `earned_le`: what rounding can add
- `credited_iff`: when a key gets no more than the rates in force have earned, and when its balance
  is within the burst
- `retroactive_credit`: histories for which it is not so
-/

namespace Rcptto.Native

section Calls

variable {F D K : Type} [OfScientific F] [LinearOrder F] [Add F] [Sub F] [Mul F] [Div F]
  [Zero D] [IntCast D] [LinearOrder D]

/-- The clock of a history never goes backwards. -/
def Chronological (calls : List (LimiterCall F)) : Prop := calls.Pairwise fun a b => a.now ≤ b.now

instance (calls : List (LimiterCall F)) : Decidable (Chronological calls) :=
  inferInstanceAs (Decidable (List.Pairwise _ _))

/-- Two consecutive calls for a key in a history of a new limiter. -/
structure Turn (F : Type) where
  cfg : LimiterConfig F
  before : List (LimiterCall F)
  key : String
  /-- The time of the first call. -/
  since : Int
  between : List (LimiterCall F)
  /-- The time of the second call. -/
  now : Int
  chronological : Chronological
    (before ++ ⟨since, .reserve key⟩ :: (between ++ [⟨now, .reserve key⟩]))
  consecutive : ∀ c ∈ between, c.op ≠ .reserve key

namespace Limiter

variable {u : Units F D} {l : Limiter F} {c : LimiterCall F} {calls : List (LimiterCall F)}
  {k : String} {now later : Int}

/-! ## The rates in force -/

/-- The rates in force from now on, call by call. -/
def rates (u : Units F D) (l : Limiter F) : List (LimiterCall F) → List F
  | [] => [l.rate]
  | c :: cs => l.rate :: (l.exec u c).rates u cs

/-- The rate in force at the end is one of them. -/
theorem rate_execAll_mem (l : Limiter F) : (l.execAll u calls).rate ∈ l.rates u calls := by
  induction calls generalizing l with
  | nil => simp [rates, execAll]
  | cons c cs ih => exact List.mem_cons_of_mem _ (ih _)

/-- Rates stay positive. -/
theorem rates_pos (h : 0.0 < l.rate) : ∀ r ∈ l.rates u calls, 0.0 < r := by
  -- a call that is given no positive rate leaves the rate as it is
  induction calls generalizing l with
  | nil => simpa [rates] using h
  | cons c cs ih =>
    have hexec : 0.0 < (l.exec u c).rate := by
      obtain ⟨now, op⟩ := c
      cases op with
      | reserve key => exact h
      | setRate rate burst =>
        show 0.0 < if rate > 0.0 then rate else l.rate
        split
        · next hrate => exact hrate
        · exact h
    intro r hr
    rcases List.mem_cons.mp hr with rfl | hr
    · exact h
    · exact ih hexec r hr

/-- What the rates in force earn from the time `since` to the time `now`: the sum of each rate times
    the seconds for which it was in force. -/
def accrued [Field K] (val : F → K) (u : Units F D) (l : Limiter F) (since now : Int) :
    List (LimiterCall F) → K
  | [] => ((now - since : Int) : K) / 1e9 * val l.rate
  | c :: cs =>
    ((c.now - since : Int) : K) / 1e9 * val l.rate + (l.exec u c).accrued val u c.now now cs

section Accrued

variable [Field K] {val : F → K}

/-- In no time nothing is earned. -/
theorem accrued_self (h : ∀ c ∈ calls, c.now = now) : l.accrued val u now now calls = 0 := by
  induction calls generalizing l with
  | nil => simp [accrued]
  | cons c cs ih =>
    obtain rfl : c.now = now := h c (by simp)
    rw [accrued, ih fun c' hc' => h c' (by simp [hc'])]
    simp

variable [LinearOrder K] [IsStrictOrderedRing K]

/-- A rate that was never undercut earns no more than the rates in force. -/
theorem le_accrued {x : K} {since : Int} (hx : ∀ r ∈ l.rates u calls, x ≤ val r)
    (hcalls : Chronological calls) (hsince : ∀ c ∈ calls, since ≤ c.now)
    (hnow : ∀ c ∈ calls, c.now ≤ now) (hle : since ≤ now) :
    ((now - since : Int) : K) / 1e9 * x ≤ l.accrued val u since now calls := by
  have hpart : ∀ (d : Int) (r : K), 0 ≤ d → x ≤ r → (d : K) / 1e9 * x ≤ (d : K) / 1e9 * r := by
    intro d r hd hr
    have hd' : (0 : K) ≤ (d : K) := by exact_mod_cast hd
    exact mul_le_mul_of_nonneg_left hr (div_nonneg hd' (by norm_num))
  -- by induction on the calls: the time up to the first one, and the rest
  induction calls generalizing l since with
  | nil => exact hpart _ _ (by omega) (hx _ (by simp [rates]))
  | cons c cs ih =>
    obtain ⟨hc, hcs⟩ := List.pairwise_cons.mp hcalls
    have hstart : since ≤ c.now := hsince c (by simp)
    have hhead := hpart (c.now - since) (val l.rate) (by omega) (hx l.rate (by simp [rates]))
    have htail : ((now - c.now : Int) : K) / 1e9 * x ≤ (l.exec u c).accrued val u c.now now cs :=
      ih (fun r hr => hx r (by simp [rates, hr])) hcs hc (fun c' hc' => hnow c' (by simp [hc']))
        (hnow c (by simp))
    have hsplit : ((now - since : Int) : K) / 1e9 * x =
        ((c.now - since : Int) : K) / 1e9 * x + ((now - c.now : Int) : K) / 1e9 * x := by
      push_cast
      ring
    rw [hsplit, accrued]
    exact add_le_add hhead htail

end Accrued

/-! ## Histories with rate changes -/

theorem maxIdle_exec : (l.exec u c).maxIdle = l.maxIdle := by
  unfold exec
  split <;> rfl

/-- No history of calls changes after which time a bucket is forgotten. -/
theorem maxIdle_execAll : (l.execAll u calls).maxIdle = l.maxIdle := by
  induction calls generalizing l with
  | nil => rfl
  | cons c cs ih => rw [execAll_cons, ih, maxIdle_exec]

/-- A later call sees neither a rate change nor a call for another key. -/
theorem seen_exec (hne : c.op ≠ .reserve k) (hle : c.now ≤ later) :
    (l.exec u c).seen k later = l.seen k later := by
  obtain ⟨now, op⟩ := c
  cases op with
  | reserve key => exact seen_reserve_of_ne (fun hk => hne (hk ▸ rfl)) hle
  | setRate rate burst => rfl

/-- It sees none of many such calls either. -/
theorem seen_execAll (hne : ∀ c ∈ calls, c.op ≠ .reserve k) (hle : ∀ c ∈ calls, c.now ≤ later) :
    (l.execAll u calls).seen k later = l.seen k later := by
  induction calls generalizing l with
  | nil => rfl
  | cons c cs ih =>
    have htail := ih (l := l.exec u c) (fun c' hc' => hne c' (by simp [hc']))
      fun c' hc' => hle c' (by simp [hc'])
    rw [execAll_cons, htail]
    exact seen_exec (hne c (by simp)) (hle c (by simp))

/-- No bucket was refilled after the time `now`. -/
def UpTo (now : Int) (l : Limiter F) : Prop := ∀ k b, l.buckets k = some b → b.last ≤ now

omit [OfScientific F] [LinearOrder F] [Add F] [Sub F] [Mul F] [Div F] in
theorem UpTo.seen (h : l.UpTo now) (k : String) : ∀ b ∈ l.seen k later, b.last ≤ now :=
  fun b hb => h k b (Option.filter_eq_some_iff.mp hb).1

/-- A call refills at its own time. -/
theorem last_serve (h : l.UpTo now) (k : String) :
    (l.serve u (l.seen k now) now).2.last = now := by
  show (l.found u (l.seen k now) now).last = now
  rw [Pacing.found_eq (h.seen k)]

/-- One call, at a time that is not earlier. -/
theorem UpTo.exec (h : l.UpTo now) (hle : now ≤ c.now) : (l.exec u c).UpTo c.now := by
  have hl : l.UpTo c.now := fun k b hb => (h k b hb).trans hle
  obtain ⟨time, op⟩ := c
  cases op with
  | setRate rate burst => exact hl
  | reserve key =>
    intro k b hb
    change (l.reserve u key time).2.buckets k = some b at hb
    rw [buckets_reserve] at hb
    -- the reservation leaves its own time in its bucket, and the others alone
    by_cases hk : k = key
    · subst hk
      rw [Function.update_self, Option.some.injEq] at hb
      subst hb
      exact (last_serve hl k).le
    · rw [Function.update_of_ne hk] at hb
      exact hl.seen k b hb

/-- In a chronological history no bucket was used later than now. -/
theorem upTo_execAll (cfg : LimiterConfig F) (hcalls : Chronological calls)
    (hnow : ∀ c ∈ calls, c.now ≤ now) : ((new cfg).execAll u calls).UpTo now := by
  -- the last call is split off, since the bound is on the time of that call
  induction calls using List.reverseRecOn generalizing now with
  | nil =>
    intro k b hb
    cases hb
  | append_singleton calls c ih =>
    obtain ⟨hcalls, -, hc⟩ := List.pairwise_append.mp hcalls
    rw [execAll_snoc]
    have hlast := (ih hcalls fun c' hc' => hc c' hc' c (by simp)).exec (u := u) (c := c) le_rfl
    exact fun k b hb => (hlast k b hb).trans (hnow c (by simp))

end Limiter

/-! ## Two consecutive calls -/

namespace Turn

variable {u : Units F D} {t : Turn F}

/-- The limiter that the first call meets. -/
def limiter (u : Units F D) (t : Turn F) : Limiter F := (Limiter.new t.cfg).execAll u t.before

/-- The limiter that the first call leaves. -/
def left (u : Units F D) (t : Turn F) : Limiter F := ((t.limiter u).reserve u t.key t.since).2

/-- The limiter that the second call meets. -/
def met (u : Units F D) (t : Turn F) : Limiter F := (t.left u).execAll u t.between

/-- The bucket that the first call leaves. -/
def bucket (u : Units F D) (t : Turn F) : Bucket F :=
  ((t.limiter u).serve u ((t.limiter u).seen t.key t.since) t.since).2

/-- The balance that the first call leaves. -/
def rest (u : Units F D) (t : Turn F) : F := (t.bucket u).tokens

/-- The balance right after the refill step of the second call. -/
def refilled (u : Units F D) (t : Turn F) : F :=
  ((t.met u).found u ((t.met u).seen t.key t.now) t.now).tokens

/-- The rates in force between the calls. -/
def rates (u : Units F D) (t : Turn F) : List F := (t.left u).rates u t.between

/-- What they earn. -/
def accrued [Field K] (val : F → K) (u : Units F D) (t : Turn F) : K :=
  (t.left u).accrued val u t.since t.now t.between

omit [OfScientific F] [LinearOrder F] [Add F] [Sub F] [Mul F] [Div F] in
/-- The calls before the first reservation are chronological, and none of them is later than it. -/
theorem chronological_before (t : Turn F) :
    Chronological t.before ∧ ∀ c ∈ t.before, c.now ≤ t.since := by
  obtain ⟨hbefore, -, hle⟩ := List.pairwise_append.mp t.chronological
  exact ⟨hbefore, fun c hc => hle c hc ⟨t.since, .reserve t.key⟩ (by simp)⟩

omit [OfScientific F] [LinearOrder F] [Add F] [Sub F] [Mul F] [Div F] in
/-- The calls between the two reservations are chronological, and lie between them in time. -/
theorem chronological_between (t : Turn F) : Chronological t.between ∧
    (∀ c ∈ t.between, t.since ≤ c.now) ∧ ∀ c ∈ t.between, c.now ≤ t.now := by
  obtain ⟨-, htail, -⟩ := List.pairwise_append.mp t.chronological
  obtain ⟨hsince, hrest⟩ := List.pairwise_cons.mp htail
  obtain ⟨hbetween, -, hnow⟩ := List.pairwise_append.mp hrest
  exact ⟨hbetween, fun c hc => hsince c (by simp [hc]),
    fun c hc => hnow c hc ⟨t.now, .reserve t.key⟩ (by simp)⟩

omit [OfScientific F] [LinearOrder F] [Add F] [Sub F] [Mul F] [Div F] in
theorem since_le_now (t : Turn F) : t.since ≤ t.now := by
  obtain ⟨-, htail, -⟩ := List.pairwise_append.mp t.chronological
  exact (List.pairwise_cons.mp htail).1 ⟨t.now, .reserve t.key⟩ (by simp)

theorem last_bucket : (t.bucket u).last = t.since := by
  obtain ⟨hbefore, hle⟩ := t.chronological_before
  exact Limiter.last_serve (Limiter.upTo_execAll t.cfg hbefore hle) t.key

/-- The second call finds the bucket of the first one, unless that has been idle for too long. -/
theorem seen_met : (t.met u).seen t.key t.now =
    if t.now - t.since > (t.met u).maxIdle then none else some (t.bucket u) := by
  obtain ⟨-, -, hnow⟩ := t.chronological_between
  rw [met, Limiter.seen_execAll t.consecutive hnow, Limiter.maxIdle_execAll]
  exact Limiter.seen_reserve_self

/-- The balance after the refill step: a new bucket is full, and one that is found is refilled at
    the rate in force now. -/
theorem refilled_eq : t.refilled u =
    if t.now - t.since > (t.met u).maxIdle then (t.met u).burst
    else if t.since < t.now then
      min (t.met u).burst (t.rest u + u.seconds (t.now - t.since) * (t.met u).rate)
    else t.rest u := by
  rw [refilled, seen_met]
  -- an idle bucket is forgotten, and the clock may stand still
  split
  · rw [Pacing.found_none]
  · rw [Pacing.found, Option.getD_some]
    split
    · next hlt =>
      rw [Pacing.refill_of_lt (last_bucket.trans_lt hlt), last_bucket]
      rfl
    · next hle =>
      rw [Pacing.refill_of_le (by rw [last_bucket]; omega)]
      rfl

/-- What is missing from the burst is not more than what the rates have earned, or the bucket is
    still there and the rate in force now would not have earned more in all the time. -/
def Covered [Field K] [LE K] (val : F → K) (u : Units F D) (t : Turn F) : Prop :=
  val (t.met u).burst - val (t.rest u) ≤ t.accrued val u ∨
    t.now - t.since ≤ (t.met u).maxIdle ∧
      ((t.now - t.since : Int) : K) / 1e9 * val (t.met u).rate ≤ t.accrued val u

/-- A rate that is the least since the first call earns no more than the rates in force. -/
theorem le_accrued [Field K] [LinearOrder K] [IsStrictOrderedRing K] {val : F → K} {x : K}
    (h : ∀ r ∈ t.rates u, x ≤ val r) :
    ((t.now - t.since : Int) : K) / 1e9 * x ≤ t.accrued val u := by
  obtain ⟨hbetween, hsince, hnow⟩ := t.chronological_between
  exact Limiter.le_accrued h hbetween hsince hnow t.since_le_now

/-- The refill is covered if the bucket is not forgotten and the last rate in force is the least. -/
theorem covered_of_least [Field K] [LinearOrder K] [IsStrictOrderedRing K] (val : F → K)
    (t : Turn F) (hidle : t.now - t.since ≤ (t.met u).maxIdle)
    (hleast : ∀ r ∈ t.rates u, val (t.met u).rate ≤ val r) : t.Covered val u :=
  .inr ⟨hidle, le_accrued hleast⟩

theorem rate_mem (u : Units F D) (t : Turn F) : (t.met u).rate ∈ t.rates u :=
  Limiter.rate_execAll_mem _

/-- All rates in force between two reservations are positive. -/
theorem rates_pos (h : (0.0 : F) < 1.0) (u : Units F D) (t : Turn F) :
    ∀ r ∈ t.rates u, 0.0 < r := by
  have hnew : 0.0 < (Limiter.new t.cfg).rate := by
    show 0.0 < if t.cfg.rate ≤ 0.0 then 1.0 else t.cfg.rate
    split
    · exact h
    · next hrate => exact not_le.mp hrate
  exact Limiter.rates_pos (Limiter.rates_pos hnew _ (Limiter.rate_execAll_mem _))

theorem accrued_eq_zero [Field K] {val : F → K} (h : t.now = t.since) : t.accrued val u = 0 := by
  obtain ⟨-, hsince, hnow⟩ := t.chronological_between
  rw [accrued, h]
  exact Limiter.accrued_self fun c hc => le_antisymm ((hnow c hc).trans h.le) (hsince c hc)

end Turn

end Calls

/-! ## Exact arithmetic -/

section Exact

variable {K D : Type} [Field K] [LinearOrder K] [IsStrictOrderedRing K]
  [Zero D] [IntCast D] [LinearOrder D]

/-- The key gets no more than the rates in force have earned, exactly if the turn is covered. -/
theorem Turn.credited_le_iff {u : Units K D} (hu : u.Exact) (t : Turn K) :
    t.refilled u - t.rest u ≤ t.accrued id u ↔ t.Covered id u := by
  rw [refilled_eq, Covered]
  simp only [id_eq]
  -- a bucket that was forgotten is full again, whatever has accrued
  by_cases hidle : t.now - t.since > (t.met u).maxIdle
  · rw [if_pos hidle]
    simp [not_le.mpr hidle]
  · rw [if_neg hidle]
    simp only [not_lt.mp hidle, true_and]
    rcases t.since_le_now.lt_or_eq with hlt | heq
    · have hearned : u.seconds (t.now - t.since) = ((t.now - t.since : Int) : K) / 1e9 := hu _
      rw [if_pos hlt, hearned, sub_le_iff_le_add, min_le_iff, sub_le_iff_le_add,
        add_comm (t.rest u), add_le_add_iff_right]
    · rw [if_neg (by omega), accrued_eq_zero heq.symm, heq]
      simp

end Exact

/-! ## Rounding -/

/-- The seconds of an elapsed time are rounded three times. -/
theorem Units.seconds_le {d : Int} (hd : 0 ≤ d) :
    0 ≤ (Units.go.seconds d).val ∧
      (Units.go.seconds d).val ≤ (d : ℚ) / 1e9 * Binary64.slack ^ 3 := by
  have hwhole : (0 : ℚ) ≤ (d.tdiv second : Int) := by
    exact_mod_cast Int.tdiv_nonneg hd (by decide)
  have hpart : (0 : ℚ) ≤ (d.tmod second : Int) := by exact_mod_cast Int.tmod_nonneg _ hd
  have hsum : (d : ℚ) / 1e9 = (d.tdiv second : Int) + ((d.tmod second : Int) : ℚ) / 1e9 := by
    have hd : ((d.tmod second + second * d.tdiv second : Int) : ℚ) = d := by
      rw [Int.tmod_add_mul_tdiv]
    rw [← hd]
    push_cast [second]
    ring
  have hquotient : 0 ≤ ((d.tmod second : Int) : Binary64).val / (1e9 : Binary64).val :=
    div_nonneg (Binary64.val_round_nonneg hpart) (by simp)
  -- the whole seconds are rounded once, the fraction twice
  have hwhole' : ((d.tdiv second : Int) : Binary64).val ≤
      (d.tdiv second : Int) * Binary64.slack ^ 1 :=
    Binary64.val_round_le_slack hwhole (by simp)
  have hpart' : (((d.tmod second : Int) : Binary64) / 1e9).val ≤
      ((d.tmod second : Int) : ℚ) / 1e9 * Binary64.slack ^ 2 := by
    have hrounded : ((d.tmod second : Int) : Binary64).val ≤
        (d.tmod second : Int) * Binary64.slack ^ 1 :=
      Binary64.val_round_le_slack hpart (by simp)
    refine Binary64.val_round_le_slack hquotient ?_
    rw [Binary64.val_billion, div_mul_eq_mul_div]
    norm_num at hrounded ⊢
    linarith
  have hnonneg : 0 ≤ ((d.tdiv second : Int) : Binary64).val +
      (((d.tmod second : Int) : Binary64) / 1e9).val :=
    add_nonneg (Binary64.val_round_nonneg hwhole) (Binary64.val_round_nonneg hquotient)
  refine ⟨Binary64.val_round_nonneg hnonneg, Binary64.val_round_le_slack hnonneg ?_⟩
  have hslack : (d.tdiv second : Int) * Binary64.slack ^ 1 ≤
      (d.tdiv second : Int) * Binary64.slack ^ 2 :=
    mul_le_mul_of_nonneg_left (pow_le_pow_right₀ Binary64.one_le_slack (by norm_num)) hwhole
  rw [hsum, add_mul]
  linarith

/-- A refill with rounding adds what the elapsed time has earned, and at most a tiny part of that
    and of the balance. -/
theorem earned_le {d : Int} (hd : 0 ≤ d) {rate : Binary64} (hrate : 0 ≤ rate.val) (x : Binary64) :
    (x + Units.go.seconds d * rate).val - x.val ≤
      (d : ℚ) / 1e9 * rate.val + (|x.val| + (d : ℚ) / 1e9 * rate.val) / 2 ^ 50 := by
  obtain ⟨hseconds, hle⟩ := Units.seconds_le hd
  have hearned : 0 ≤ (Units.go.seconds d * rate).val :=
    Binary64.val_round_nonneg (mul_nonneg hseconds hrate)
  -- four roundings up to the product, and a fifth in the sum
  have hearned' : (Units.go.seconds d * rate).val ≤
      (d : ℚ) / 1e9 * rate.val * Binary64.slack ^ 4 := by
    refine Binary64.val_round_le_slack (mul_nonneg hseconds hrate) ?_
    rw [mul_right_comm]
    exact mul_le_mul_of_nonneg_right hle hrate
  have hsum : (x + Units.go.seconds d * rate).val ≤ x.val + (Units.go.seconds d * rate).val +
      (|x.val| + (Units.go.seconds d * rate).val) / 2 ^ 53 := by
    have herr := Binary64.abs_val_round_sub_le (x.val + (Units.go.seconds d * rate).val)
    have habs := abs_add_le x.val (Units.go.seconds d * rate).val
    rw [abs_of_nonneg hearned] at habs
    have hle := (abs_le.mp herr).2
    change (x + Units.go.seconds d * rate).val - _ ≤ _ at hle
    linarith
  have hslack : Binary64.slack ^ 5 ≤ 1 + 1 / 2 ^ 50 := by norm_num [Binary64.slack]
  have hyield : 0 ≤ (d : ℚ) / 1e9 * rate.val := by
    have : (0 : ℚ) ≤ d := by exact_mod_cast hd
    positivity
  have htotal : (Units.go.seconds d * rate).val * Binary64.slack ≤
      (d : ℚ) / 1e9 * rate.val * (1 + 1 / 2 ^ 50) :=
    calc _ ≤ (d : ℚ) / 1e9 * rate.val * Binary64.slack ^ 4 * Binary64.slack :=
          mul_le_mul_of_nonneg_right hearned' (zero_le_one.trans Binary64.one_le_slack)
      _ = (d : ℚ) / 1e9 * rate.val * Binary64.slack ^ 5 := by ring
      _ ≤ _ := mul_le_mul_of_nonneg_left hslack hyield
  have habs := abs_nonneg x.val
  rw [Binary64.slack] at htotal
  linarith

/-- With rounding, the key gets hardly more than the rates have earned if the turn is covered. -/
theorem Turn.credited_le {u : Units Binary64 Int} (hu : u.seconds = Units.go.seconds)
    {t : Turn Binary64} (h : t.Covered Binary64.val u) :
    (t.refilled u).val - (t.rest u).val ≤ t.accrued Binary64.val u +
      (|(t.rest u).val| + t.accrued Binary64.val u) / 2 ^ 50 := by
  have hrates : ∀ r ∈ t.rates u, 0 ≤ r.val := fun r hr => by
    simpa using Binary64.le_def.mp (t.rates_pos (by decide +kernel) u r hr).le
  have haccrued : 0 ≤ t.accrued Binary64.val u := by
    simpa using t.le_accrued (x := 0) hrates
  have hbound : t.accrued Binary64.val u ≤ t.accrued Binary64.val u +
      (|(t.rest u).val| + t.accrued Binary64.val u) / 2 ^ 50 := by
    have := abs_nonneg (t.rest u).val
    linarith
  rw [refilled_eq]
  split
  · next hidle =>
    -- a bucket that was dropped starts full
    rcases h with h | ⟨h, -⟩
    · exact h.trans hbound
    · omega
  · split
    · next hlt =>
      rcases h with h | ⟨-, h⟩
      · have hcap : (min (t.met u).burst
            (t.rest u + u.seconds (t.now - t.since) * (t.met u).rate)).val ≤ (t.met u).burst.val :=
          Binary64.le_def.mp (min_le_left _ _)
        linarith
      · have hcap : (min (t.met u).burst (t.rest u + u.seconds (t.now - t.since) *
            (t.met u).rate)).val ≤ (t.rest u + u.seconds (t.now - t.since) * (t.met u).rate).val :=
          Binary64.le_def.mp (min_le_right _ _)
        have hrate := hrates _ (t.rate_mem u)
        have hearned := earned_le (sub_nonneg.mpr hlt.le) hrate (t.rest u)
        rw [← hu] at hearned
        linarith
    · rw [sub_self]
      exact haccrued.trans hbound

/-! ## All histories -/

/-- For every history. In any arithmetic, the balance after the refill step of a call is within the
    burst unless no time has passed since the last one and the bucket holds more. Without rounding,
    a key gets no more between two consecutive calls than the rates in force have earned exactly if
    the turn is covered, and with rounding hardly more if it is. It is covered if the bucket is
    still there and the rate is the least since the first call. -/
theorem credited_iff {F D K : Type} [OfScientific F] [LinearOrder F] [Add F] [Sub F] [Mul F] [Div F]
    [Zero D] [IntCast D] [LinearOrder D] [Field K] [LinearOrder K] [IsStrictOrderedRing K]
    (overflow : Binary64 → Int) :
    (∀ (u : Units F D) (cfg : LimiterConfig F) (calls : List (LimiterCall F)) (k : String)
        (now : Int),
      let l := (Limiter.new cfg).execAll u calls
      (l.found u (l.seen k now) now).tokens ≤ l.burst ↔
        ∀ b ∈ l.seen k now, b.last < now ∨ b.tokens ≤ l.burst) ∧
    (∀ (u : Units K D), u.Exact → ∀ t : Turn K,
      (t.refilled u - t.rest u ≤ t.accrued id u ↔ t.Covered id u) ∧
      (t.now - t.since ≤ (t.met u).maxIdle → (∀ r ∈ t.rates u, (t.met u).rate ≤ r) →
        t.Covered id u)) ∧
    ∀ t : Turn Binary64,
      let u := Units.int64 overflow
      (t.Covered Binary64.val u → (t.refilled u).val - (t.rest u).val ≤
        t.accrued Binary64.val u + (|(t.rest u).val| + t.accrued Binary64.val u) / 2 ^ 50) ∧
      (t.now - t.since ≤ (t.met u).maxIdle → (∀ r ∈ t.rates u, (t.met u).rate ≤ r) →
        t.Covered Binary64.val u) := by
  refine ⟨fun u cfg calls k now => ?_, fun u hu t => ⟨?_, ?_⟩, fun t => ?_⟩
  · exact Pacing.found_le_burst_iff
  · exact t.credited_le_iff hu
  · exact t.covered_of_least id
  · intro u
    have hseconds : u.seconds = Units.go.seconds := rfl
    clear_value u
    exact ⟨Turn.credited_le hseconds, t.covered_of_least Binary64.val⟩

/-- Five calls, and one two seconds later. The rate is halved in the middle. -/
def slowedTurn : Turn ℚ where
  cfg := { rate := 2, burst := 10 }
  before := List.replicate 4 ⟨0, .reserve "k"⟩
  key := "k"
  since := 0
  between := [⟨1 * second, .setRate 1 10⟩]
  now := 2 * second
  chronological := by decide
  consecutive := by decide

/-- The two seconds are credited at the lower rate. -/
theorem credited_slowed :
    let u := Units.exact ℚ
    slowedTurn.refilled u - slowedTurn.rest u ≤ slowedTurn.accrued id u ∧
      slowedTurn.refilled u - slowedTurn.rest u = 2 ∧ slowedTurn.accrued id u = 3 := by
  intro u
  obtain ⟨-, hexact, -⟩ := credited_iff (F := ℚ) (D := ℚ) (K := ℚ) fun _ => 0
  obtain ⟨hiff, hleast⟩ := hexact u (fun _ => rfl) slowedTurn
  refine ⟨hiff.mpr (hleast ?_ ?_), ?_, ?_⟩ <;> decide +kernel

/-- A call that empties the bucket, and one after a hundred idle seconds. Right before the second
    one the rate is raised. -/
def raisedTurn : Turn Binary64 where
  cfg := { rate := 0.001, burst := 1.0 }
  before := []
  key := "k"
  since := 0
  between := [⟨100 * second, .setRate 10.0 1.0⟩]
  now := 100 * second
  chronological := by decide
  consecutive := by decide +kernel

/-- Two calls at the same time. Between them the burst is lowered. -/
def loweredTurn : Turn Binary64 where
  cfg := { rate := 1.0, burst := 5.0 }
  before := []
  key := "k"
  since := 0
  between := [⟨0, .setRate 1.0 2.0⟩]
  now := 0
  chronological := by decide
  consecutive := by decide +kernel

/-- The hundred seconds have earned a tenth of a token at the rate that was in force, and the key
    gets a whole one. The second of the two calls has a balance of four with a burst of two. -/
theorem retroactive_credit :
    let u := Units.amd64
    (raisedTurn.rest u = 0.0 ∧ raisedTurn.refilled u = 1.0 ∧
      raisedTurn.accrued Binary64.val u < 101 / 1000) ∧
    loweredTurn.refilled u = 4.0 ∧ (loweredTurn.met u).burst = 2.0 := by
  intro u
  refine ⟨⟨?_, ?_, ?_⟩, ?_, ?_⟩ <;> decide +kernel

end Rcptto.Native
