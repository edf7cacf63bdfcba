import Rcptto.Spec.DelayRange

/-!
# Forgetting idle destinations

The limiter drops a bucket that has been idle for ten minutes, and the next call for its key finds
a full one. Nobody can see that if the bucket would have been full by then. It depends on the rate:
a bucket that owes as much as it can, which is what it earns in thirty seconds, is full after ten
minutes if the burst is not more than what it earns in the other nine and a half. With a slower rate
an idle destination gets tokens for being forgotten.

## Key results

- `Limiter.Forgets.log_eq`: forgetting buckets that would be full changes nothing
- `Limiter.paysOff_of_found_eq`: forgetting any other bucket is seen
- `Pacing.Brisk.recovers`, `Pacing.recovers_of_refused`: when buckets are full in time
- `Pacing.not_paysOff`: when they are not
- `eviction_invisible`: when the limiter answers like one that never forgets
- `eviction_visible`: a rate for which it does not
-/

namespace Rcptto.Native

section Keeping

variable {F D : Type} [OfScientific F] [LinearOrder F] [Add F] [Sub F] [Mul F] [Div F]
  [Zero D] [IntCast D] [LinearOrder D]

/-! ## A limiter that never forgets -/

namespace Limiter

/-- `reserve` without the sweep. -/
def reserveKeeping (u : Units F D) (l : Limiter F) (key : String) (now : Int) :
    (D × Bool) × Limiter F :=
  let res := l.serve u (l.buckets key) now
  (res.1, { l with buckets := Function.update l.buckets key (some res.2) })

/-- The calls of a history with their results, without the sweeps. -/
def logKeeping (u : Units F D) (l : Limiter F) :
    List Reservation → List (Reservation × D × Bool)
  | [] => []
  | c :: cs =>
    (c, (l.reserveKeeping u c.key c.now).1) :: (l.reserveKeeping u c.key c.now).2.logKeeping u cs

/-- The limiter after a history of calls, without the sweeps. -/
def afterKeeping (u : Units F D) (l : Limiter F) (calls : List Reservation) : Limiter F :=
  calls.foldl (fun l c => (l.reserveKeeping u c.key c.now).2) l

end Limiter

/-- The balances that calls for one key leave behind in a bucket that is never forgotten. -/
inductive Pacing.Leaves (p : Pacing F) (u : Units F D) : F → Prop where
  | first : p.Leaves u (p.take u p.burst).2
  | next {b : Bucket F} (now : Int) (h : p.Leaves u b.tokens) :
    p.Leaves u (p.take u (p.refill u b now).tokens).2

/-- Each of them is full again when it has been idle for long enough to be dropped. -/
def Pacing.PaysOff (p : Pacing F) (u : Units F D) : Prop :=
  ∀ b now, p.Leaves u b.tokens → now - b.last > p.maxIdle → (p.refill u b now).tokens = p.burst

/-- A property of balances that calls leave behind, and by which buckets are full after they have
    been idle for long enough to be dropped. -/
structure Pacing.Recovers (p : Pacing F) (u : Units F D) (P : F → Prop) : Prop where
  maxIdle_nonneg : 0 ≤ p.maxIdle
  first : P (p.take u p.burst).2
  next : ∀ b now, P b.tokens → P (p.take u (p.refill u b now).tokens).2
  full : ∀ b now, P b.tokens → now - b.last > p.maxIdle → (p.refill u b now).tokens = p.burst

namespace Pacing

variable {p : Pacing F} {u : Units F D} {P : F → Prop} {b : Option (Bucket F)} {now : Int}

/-- The balances themselves are such a property, if they are paid off. -/
theorem PaysOff.recovers (h : p.PaysOff u) (hidle : 0 ≤ p.maxIdle) : p.Recovers u (p.Leaves u) where
  maxIdle_nonneg := hidle
  first := .first
  next _ now hb := .next now hb
  full := h

/-- And they are paid off if there is such a property, since all balances have it. -/
theorem Recovers.paysOff (h : p.Recovers u P) : p.PaysOff u := by
  intro b now hb
  refine h.full b now ?_
  generalize b.tokens = x at hb
  induction hb with
  | first => exact h.first
  | next now _ ih => exact h.next _ now ih

/-- What a call leaves behind has the property. -/
theorem Recovers.serve (h : p.Recovers u P) (hb : ∀ b' ∈ b, P b'.tokens) (now : Int) :
    P (p.serve u b now).2.tokens := by
  rw [serve_eq_found]
  cases b with
  | none =>
    rw [found_none]
    exact h.first
  | some b' => exact h.next b' now (hb b' rfl)

/-- A bucket that was idle for long enough is as good as none. -/
theorem Recovers.found_idle (h : p.Recovers u P) {b' : Bucket F} (hb : P b'.tokens)
    (hidle : now - b'.last > p.maxIdle) : p.found u (some b') now = p.found u none now := by
  have hle : ∀ x ∈ some b', x.last ≤ now := by
    rintro x ⟨⟩
    have := h.maxIdle_nonneg
    omega
  have htokens : (p.found u (some b') now).tokens = p.burst := h.full b' now hb hidle
  rw [found_eq hle, htokens, found_none]

omit [OfScientific F] [Sub F] [Div F] [Zero D] [IntCast D] [LinearOrder D] in
/-- What a refill makes of a balance depends on the time that has passed. -/
theorem refill_tokens_congr {b b' : Bucket F} {now now' : Int} (hb : b.tokens = b'.tokens)
    (hnow : now - b.last = now' - b'.last ∨ now ≤ b.last ∧ now' ≤ b'.last) :
    (p.refill u b now).tokens = (p.refill u b' now').tokens := by
  rcases lt_or_ge b.last now with hlt | hle
  · have helapsed : now - b.last = now' - b'.last := by omega
    rw [refill_of_lt hlt, refill_of_lt (by omega), hb, helapsed]
  · rw [refill_of_le hle, refill_of_le (by omega), hb]

end Pacing

namespace Limiter

variable {u : Units F D} {P : F → Prop} {l l' : Limiter F} {start now : Int}
  {calls : List Reservation}

/-- The second limiter has the buckets that the first one has forgotten, and nobody can see that
    from the time `start` on. -/
structure Forgets (u : Units F D) (P : F → Prop) (start : Int) (l l' : Limiter F) : Prop where
  pacing : l'.toPacing = l.toPacing
  found : ∀ k now, start ≤ now →
    l'.found u (l'.buckets k) now = l.found u (l.seen k now) now
  kept : ∀ k b, l'.buckets k = some b → P b.tokens ∧ b.last ≤ start

/-- A reservation is answered in the same way with and without eviction. -/
theorem Forgets.serve_eq (h : Forgets u P start l l') (hle : start ≤ now) (k : String) :
    l'.serve u (l'.buckets k) now = l.serve u (l.seen k now) now := by
  rw [Pacing.serve_eq_found, Pacing.serve_eq_found, h.found k now hle, h.pacing]

theorem buckets_reserveKeeping (key : String) : (l.reserveKeeping u key now).2.buckets =
    Function.update l.buckets key (some (l.serve u (l.buckets key) now).2) := rfl

/-- What a call leaves behind has the property, and is up to date. -/
theorem Forgets.kept_serve (hp : l.Recovers u P) (h : Forgets u P start l l') (hle : start ≤ now)
    (key : String) : P (l'.serve u (l'.buckets key) now).2.tokens ∧
      (l'.serve u (l'.buckets key) now).2.last = now := by
  have hlast : ∀ b ∈ l'.buckets key, b.last ≤ now := fun b hb => (h.kept key b hb).2.trans hle
  refine ⟨?_, ?_⟩
  · rw [h.pacing]
    exact hp.serve (fun b hb => (h.kept key b hb).1) now
  · show (l'.found u (l'.buckets key) now).last = now
    rw [Pacing.found_eq hlast]

/-- A call has the same result, and keeps the two limiters together. -/
theorem Forgets.reserve (hp : l.Recovers u P) (h : Forgets u P start l l') (hle : start ≤ now)
    (key : String) : (l'.reserveKeeping u key now).1 = (l.reserve u key now).1 ∧
      Forgets u P now (l.reserve u key now).2 (l'.reserveKeeping u key now).2 := by
  have hserve := h.serve_eq hle key
  have hpacing : (l'.reserveKeeping u key now).2.toPacing = l.toPacing := h.pacing
  obtain ⟨htokens, hlast⟩ := h.kept_serve hp hle key
  refine ⟨congrArg (fun r => r.1) hserve, hpacing, fun k later hlater => ?_, fun k b hb => ?_⟩
  · rw [hpacing, toPacing_reserve, buckets_reserveKeeping]
    by_cases hk : k = key
    · subst hk
      rw [Function.update_self, seen_reserve_self, ← hserve]
      split
      · -- the bucket is forgotten, and would be full
        next hidle =>
        exact hp.found_idle htokens (hlast.symm ▸ hidle)
      · rfl
    · rw [Function.update_of_ne hk, seen_reserve_of_ne hk hlater]
      exact h.pacing ▸ h.found k later (hle.trans hlater)
  · rw [buckets_reserveKeeping] at hb
    by_cases hk : k = key
    · subst hk
      rw [Function.update_self, Option.some.injEq] at hb
      subst hb
      exact ⟨htokens, hlast.le⟩
    · rw [Function.update_of_ne hk] at hb
      obtain ⟨hb', hb''⟩ := h.kept k b hb
      exact ⟨hb', hb''.trans hle⟩

omit [OfScientific F] [Sub F] [Div F] [Zero D] [IntCast D] [LinearOrder D] in
theorem Forgets.mono (h : Forgets u P start l l') (hle : start ≤ now) : Forgets u P now l l' :=
  ⟨h.pacing, fun k later hlater => h.found k later (hle.trans hlater),
    fun k b hb => ⟨(h.kept k b hb).1, (h.kept k b hb).2.trans hle⟩⟩

/-- A history has the same results with and without eviction. -/
theorem Forgets.log_eq (hp : l.Recovers u P) (h : Forgets u P start l l') (hcalls : InOrder calls)
    (hstart : ∀ c ∈ calls, start ≤ c.now) : l.log u calls = l'.logKeeping u calls := by
  induction calls generalizing l l' start with
  | nil => rfl
  | cons c cs ih =>
    obtain ⟨hc, hcs⟩ := List.pairwise_cons.mp hcalls
    obtain ⟨hres, hnext⟩ := h.reserve hp (hstart c (by simp)) c.key
    have htail := ih (l := (l.reserve u c.key c.now).2) hp hnext hcs hc
    rw [log, logKeeping, hres, htail]

/-- After a history the limiters are still together. -/
theorem Forgets.after (hp : l.Recovers u P) (h : Forgets u P start l l') (hcalls : InOrder calls)
    (hstart : ∀ c ∈ calls, start ≤ c.now) (hnow : ∀ c ∈ calls, c.now ≤ now) (hle : start ≤ now) :
    Forgets u P now (l.after u calls) (l'.afterKeeping u calls) := by
  induction calls generalizing l l' start with
  | nil => exact h.mono hle
  | cons c cs ih =>
    obtain ⟨hc, hcs⟩ := List.pairwise_cons.mp hcalls
    obtain ⟨-, hnext⟩ := h.reserve hp (hstart c (by simp)) c.key
    exact ih hp hnext hcs hc (fun c' hc' => hnow c' (by simp [hc'])) (hnow c (by simp))

omit [OfScientific F] [Sub F] [Div F] [Zero D] [IntCast D] [LinearOrder D] in
/-- A limiter without buckets has nothing to forget. -/
theorem Forgets.of_empty (h : ∀ k, l.buckets k = none) (start : Int) : Forgets u P start l l := by
  refine ⟨rfl, fun k now _ => ?_, fun k b hb => ?_⟩
  · rw [seen_eq, h k]
    rfl
  · rw [h k] at hb
    cases hb

/-! ## A limiter that is seen to forget -/

theorem afterKeeping_snoc (c : Reservation) : l.afterKeeping u (calls ++ [c]) =
    ((l.afterKeeping u calls).reserveKeeping u c.key c.now).2 := by
  simp [afterKeeping]

/-- Reservations do not change the pacing. -/
@[simp] theorem toPacing_afterKeeping : (l.afterKeeping u calls).toPacing = l.toPacing := by
  induction calls using List.reverseRecOn with
  | nil => rfl
  | append_singleton calls c ih =>
    rw [afterKeeping_snoc]
    exact ih

/-- Each of the balances is in the bucket of a key after calls for it, of which the last one comes
    at the time of the bucket. -/
theorem exists_calls_of_leaves (hempty : ∀ k, l.buckets k = none) {x : F} (hx : l.Leaves u x) :
    ∃ calls last b, InOrder (calls ++ [⟨last, "k"⟩]) ∧
      (l.afterKeeping u (calls ++ [⟨last, "k"⟩])).buckets "k" = some b ∧ b.tokens = x ∧
      b.last = last := by
  induction hx with
  | first =>
    refine ⟨[], 0, (l.serve u none 0).2, by simp [InOrder], ?_, ?_, ?_⟩
    · show Function.update l.buckets "k" (some (l.serve u (l.buckets "k") 0).2) "k" = _
      rw [Function.update_self, hempty]
    · rw [Pacing.serve_eq_found, Pacing.found_none]
    · rw [Pacing.serve_eq_found, Pacing.found_none]
  | @next b' now _ ih =>
    obtain ⟨calls, last, b, horder, hbucket, htokens, hlast⟩ := ih
    -- the next call comes as long after the last one as time has passed for the refill
    let later := last + max 0 (now - b'.last)
    have hle : b.last ≤ later := by omega
    have hrefill : (l.refill u b later).tokens = (l.refill u b' now).tokens :=
      Pacing.refill_tokens_congr htokens (by omega)
    refine ⟨calls ++ [⟨last, "k"⟩], later, (l.serve u (some b) later).2, ?_, ?_, ?_, ?_⟩
    · refine List.pairwise_append.mpr ⟨horder, by simp, fun c hc c' hc' => ?_⟩
      obtain rfl := List.mem_singleton.mp hc'
      rcases List.mem_append.mp hc with hc | hc
      · have := (List.pairwise_append.mp horder).2.2 c hc _ List.mem_cons_self
        dsimp only at this ⊢
        omega
      · obtain rfl := List.mem_singleton.mp hc
        dsimp only
        omega
    · rw [afterKeeping_snoc, buckets_reserveKeeping, Function.update_self, hbucket,
        toPacing_afterKeeping]
    · rw [Pacing.serve_eq_found]
      show (l.take u (l.refill u b later).tokens).2 = _
      rw [hrefill]
    · rw [Pacing.serve_eq_found, Pacing.found_eq (by rintro _ ⟨⟩; exact hle)]

/-- If further calls always find the balance that they would find without the sweeps, all balances
    are paid off. -/
theorem paysOff_of_found_eq (hempty : ∀ k, l.buckets k = none) (hidle : 0 ≤ l.maxIdle)
    (h : ∀ calls, InOrder calls → ∀ k now, (∀ c ∈ calls, c.now ≤ now) →
      ((l.after u calls).found u ((l.after u calls).seen k now) now).tokens =
        ((l.afterKeeping u calls).found u ((l.afterKeeping u calls).buckets k) now).tokens) :
    l.PaysOff u := by
  intro b now hleaves helapsed
  obtain ⟨calls, last, b', horder, hbucket, htokens, hlast⟩ := exists_calls_of_leaves hempty hleaves
  have hnow : ∀ c ∈ calls ++ [⟨last, "k"⟩], c.now ≤ last + (now - b.last) := by
    intro c hc
    rcases List.mem_append.mp hc with hc | hc
    · have := (List.pairwise_append.mp horder).2.2 c hc _ List.mem_cons_self
      dsimp only at this
      omega
    · obtain rfl := List.mem_singleton.mp hc
      dsimp only
      omega
  have hfound := h _ horder "k" (last + (now - b.last)) hnow
  -- one limiter has forgotten the bucket, and the other one refills it
  rw [after_snoc, seen_reserve_self, if_pos (by simp; omega), Pacing.found_none, hbucket,
    toPacing_afterKeeping] at hfound
  have hrefill : (l.refill u b' (last + (now - b.last))).tokens = (l.refill u b now).tokens :=
    Pacing.refill_tokens_congr htokens (by omega)
  rw [← hrefill]
  exact hfound.symm.trans (by rw [toPacing_reserve, toPacing_after])

end Limiter

end Keeping

/-! ## Buckets that are full in time -/

namespace Pacing

variable {p : Pacing Binary64} {overflow : Binary64 → Int}

/-- The refill step does not get above the burst. -/
theorem refill_le {F D : Type} [LinearOrder F] [Add F] [Mul F] {p : Pacing F} {u : Units F D}
    {b : Bucket F} (hb : b.tokens ≤ p.burst) (now : Int) :
    (p.refill u b now).tokens ≤ p.burst := by
  rcases lt_or_ge b.last now with hlt | hle
  · rw [refill_of_lt hlt]
    exact min_le_left _ _
  · rw [refill_of_le hle]
    exact hb

/-- What is earned in ten minutes. -/
theorem le_earned (hrate : 0 < p.rate.val) {elapsed : Int} (h : elapsed > 10 * minute) :
    1199 / 2 * p.rate.val ≤ (Units.go.seconds elapsed * p.rate).val := by
  have hseconds : (600 : ℚ) ≤ (Units.go.seconds elapsed).val := by
    have hle : (600 : Int) * second ≤ elapsed := h.le
    exact_mod_cast Units.le_seconds (n := 600) (by norm_num) (by norm_num) hle
  have hproduct : 600 * p.rate.val ≤ (Units.go.seconds elapsed).val * p.rate.val :=
    mul_le_mul_of_nonneg_right hseconds hrate.le
  -- one rounding error of the product is much less than half a second of the rate
  have herr := Binary64.abs_val_round_sub_le (600 * p.rate.val)
  rw [abs_of_pos (by linarith : 0 < 600 * p.rate.val)] at herr
  calc 1199 / 2 * p.rate.val ≤ (Binary64.round (600 * p.rate.val)).val := by
        linarith [(abs_le.mp herr).1]
    _ ≤ (Units.go.seconds elapsed * p.rate).val := Binary64.val_round_mono hproduct

/-- With a burst of at most what is earned in nine and a half minutes, buckets are full in time. -/
theorem Brisk.recovers (h : p.Brisk p.rate.val p.rate.val)
    (hrange : InRange p.rate.val p.rate.val) (hidle : p.maxIdle = 10 * minute)
    (hburst : p.burst.val ≤ 569 * p.rate.val) :
    p.Recovers (Units.int64 overflow) fun x => -(61 / 2 * p.rate.val) ≤ x.val := by
  have hrate := h.rate_pos hrange
  have hpos := h.burst_pos
  have hdebt : -(61 / 2 * p.rate.val) ≤ p.burst.val := by linarith
  have hnext : ∀ (b : Bucket Binary64) now, -(61 / 2 * p.rate.val) ≤ b.tokens.val →
      -(61 / 2 * p.rate.val) ≤ (p.take (Units.int64 overflow)
        (p.refill (Units.int64 overflow) b now).tokens).2.val := fun b now hb =>
    h.neg_le_take hrange (le_refill hrate hb hdebt now)
  refine ⟨?_, h.neg_le_take hrange hdebt, hnext, fun b now hb helapsed => ?_⟩
  · rw [hidle]
    decide
  · rw [hidle] at helapsed
    have hearned := le_earned hrate helapsed
    -- the debt and the burst are earned together
    have hfull : p.burst ≤ b.tokens + Units.go.seconds (now - b.last) * p.rate :=
      Binary64.le_val_round p.burst (by linarith)
    have hnow : 0 < now - b.last := lt_trans (by decide) helapsed
    rw [refill_of_lt (by omega)]
    exact min_eq_left hfull

/-- So they are if even a full bucket is not enough for a call. -/
theorem recovers_of_refused (hrate : 0 < p.rate.val) (hidle : 0 ≤ p.maxIdle)
    (h : (p.take (Units.int64 overflow) p.burst).1.2 = false) :
    p.Recovers (Units.int64 overflow) fun x => x = p.burst := by
  have hrefill : ∀ (b : Bucket Binary64) (now : Int), b.tokens = p.burst →
      (p.refill (Units.int64 overflow) b now).tokens = p.burst := fun b now hb =>
    le_antisymm (refill_le hb.le now) (le_refill hrate (Binary64.le_def.mp hb.ge) le_rfl now)
  refine ⟨hidle, take_of_refused h, fun b now hb => ?_, fun b now hb _ => hrefill b now hb⟩
  rw [hrefill b now hb]
  exact take_of_refused h

/-- A whole burst is used up by calls at one time. -/
theorem exists_leaves {u : Units Binary64 Int} {n : ℕ} (hn : n ≤ 2 ^ 53) (hburst : p.burst.val = n)
    {i : ℕ} (hi : i + 1 ≤ n) : ∃ x, p.Leaves u x ∧ x.val = n - (i + 1) := by
  have hrest : (i : ℚ) + 1 ≤ n := by exact_mod_cast hi
  induction i with
  | zero =>
    refine ⟨_, .first, ?_⟩
    rw [take_of_le _ (by simpa [Binary64.le_def, hburst] using hrest)]
    have hint := val_rest_of_eq_intCast (n := n) (by rw [hburst]; rfl)
      (by rw [abs_of_nonneg] <;> omega)
    simpa using hint
  | succ i ih =>
    push_cast at hrest ⊢
    obtain ⟨x, hleaves, hx⟩ := ih (by omega) (by linarith)
    -- no time passes, so the balance is still there
    have hnext := Leaves.next (b := ⟨x, 0, 0⟩) 0 hleaves
    rw [refill_of_le le_rfl, take_of_le _ (by simp [Binary64.le_def, hx]; linarith)] at hnext
    refine ⟨_, hnext, ?_⟩
    have hint := val_rest_of_eq_intCast (n := n - (i + 1)) (by rw [hx]; push_cast; rfl)
      (by rw [abs_of_nonneg] <;> omega)
    rw [hint]
    push_cast
    ring

/-- A bucket that is used up does not become full again in ten minutes if the burst is more than
    what is earned in that time. -/
theorem not_paysOff {u : Units Binary64 Int} (hseconds : u.seconds = Units.go.seconds)
    (hrate : 0 < p.rate.val) (hidle : p.maxIdle = 10 * minute) {n : ℕ} (hn : n ≤ 2 ^ 53)
    (hburst : p.burst.val = n) (hslow : 602 * p.rate.val < p.burst.val) : ¬ p.PaysOff u := by
  intro h
  have hpos : 0 < n := by
    have : (0 : ℚ) < n := by linarith
    exact_mod_cast this
  obtain ⟨x, hleaves, hx⟩ := exists_leaves (u := u) hn hburst (i := n - 1) (by omega)
  have hzero : x.val = 0 := by
    rw [hx, Nat.cast_sub hpos]
    simp
  have helapsed : (10 * minute + 1 : Int) - 0 > 10 * minute := by decide
  have hlater : (0 : Int) < 10 * minute + 1 := by decide
  have hfull := h ⟨x, 0, 0⟩ (10 * minute + 1) hleaves (by rwa [hidle])
  rw [refill_of_lt hlater, min_eq_left_iff, hseconds, sub_zero] at hfull
  -- nothing is left, so the burst would have to be earned
  have hearned : p.burst.val ≤ (Units.go.seconds (10 * minute + 1) * p.rate).val := by
    have hsum := Binary64.le_def.mp hfull
    rwa [Binary64.val_add, hzero, zero_add, Binary64.round_val] at hsum
  have htime : (Units.go.seconds (10 * minute + 1)).val ≤ 601 := by decide +kernel
  have hround : (Units.go.seconds (10 * minute + 1) * p.rate).val ≤
      (Binary64.round (601 * p.rate.val)).val :=
    Binary64.val_round_mono (mul_le_mul_of_nonneg_right htime hrate.le)
  have herr := (abs_le.mp (Binary64.abs_val_round_sub_le (601 * p.rate.val))).2
  rw [abs_of_pos (by linarith)] at herr
  linarith

end Pacing

/-! ## Settings -/

/-- Ten minutes are enough for a bucket to pay off its debt and become full, and the rate is not so
    small that delays are out of range; or even a full bucket is not enough for a call. -/
def Settings.Forgettable (overflow : Binary64 → Int) (s : Settings Binary64) : Prop :=
  1 ≤ 9200000000 * s.probeRate.val ∧ s.probeBurst.val ≤ 569 * s.probeRate.val ∨
    (s.limiter.take (Units.int64 overflow) s.probeBurst).1.2 = false

/-- Under forgettable settings every bucket recovers before it is forgotten. -/
theorem Settings.Forgettable.recovers {overflow : Binary64 → Int} {s : Settings Binary64}
    (hs : s.validate = .ok ()) (h : s.Forgettable overflow) :
    ∃ P, s.limiter.Recovers (Units.int64 overflow) P := by
  obtain ⟨hrate, hburst⟩ := Settings.pos_of_validate hs
  unfold Settings.Forgettable at h
  rw [Settings.toPacing_limiter hs] at h ⊢
  -- a burst that is earned in time, or calls that are refused
  rcases h with ⟨hslow, hfull⟩ | hrefused
  · refine ⟨_, Pacing.Brisk.recovers ⟨le_rfl, le_rfl, hburst, rfl⟩ ?_ rfl hfull⟩
    unfold Pacing.InRange
    dsimp only
    linarith
  · have hidle : (0 : Int) ≤ 10 * minute := by decide
    exact ⟨_, Pacing.recovers_of_refused hrate hidle hrefused⟩

/-- A chronological list of calls has a time before all of them. -/
theorem InOrder.exists_start {calls : List Reservation} (h : InOrder calls) (now : Int) :
    ∃ start ≤ now, ∀ c ∈ calls, start ≤ c.now := by
  cases calls with
  | nil => exact ⟨now, le_rfl, by simp⟩
  | cons c cs =>
    obtain ⟨hc, -⟩ := List.pairwise_cons.mp h
    refine ⟨min c.now now, min_le_right _ _, fun c' hc' => ?_⟩
    rcases List.mem_cons.mp hc' with rfl | hc'
    · exact min_le_left _ _
    · exact (min_le_left _ _).trans (hc c' hc')

/-- For every machine and all accepted settings: in every history of calls for any destinations the
    results are those of a limiter that never forgets, and so is the balance that any further call
    finds, if and only if every balance that calls can leave behind is paid off in time. That is so
    if ten minutes are enough for the deepest debt and the burst, and it is not so if they are not
    even enough for the burst and this is a whole number of tokens. -/
theorem eviction_invisible (overflow : Binary64 → Int) {s : Settings Binary64}
    (hs : s.validate = .ok ()) :
    let u := Units.int64 overflow
    ((∀ calls, InOrder calls → s.limiter.log u calls = s.limiter.logKeeping u calls ∧
      ∀ (k : String) (now : Int), (∀ c ∈ calls, c.now ≤ now) →
        let l := s.limiter.after u calls
        let l' := s.limiter.afterKeeping u calls
        (l.found u (l.seen k now) now).tokens = (l'.found u (l'.buckets k) now).tokens) ↔
      s.limiter.PaysOff u) ∧
    (s.Forgettable overflow → s.limiter.PaysOff u) ∧
    ∀ n : ℕ, n ≤ 2 ^ 53 → s.probeBurst.val = n → 602 * s.probeRate.val < s.probeBurst.val →
      ¬ s.limiter.PaysOff u := by
  intro u
  have hempty : ∀ k, s.limiter.buckets k = none := fun _ => rfl
  have htuned := Settings.toPacing_limiter hs
  have hidle : 0 ≤ s.limiter.maxIdle := by
    have hminutes : (0 : Int) ≤ 10 * minute := by decide
    rwa [htuned]
  -- both directions, the condition on the settings, and settings that fail it
  refine ⟨⟨fun h => ?_, fun h calls hcalls => ⟨?_, fun k now hnow => ?_⟩⟩, fun h => ?_, ?_⟩
  · exact Limiter.paysOff_of_found_eq hempty hidle fun calls hcalls => (h calls hcalls).2
  · obtain ⟨start, -, hstart⟩ := hcalls.exists_start 0
    exact (Limiter.Forgets.of_empty hempty start).log_eq (h.recovers hidle) hcalls hstart
  · obtain ⟨start, hle, hstart⟩ := hcalls.exists_start now
    have hforgets :=
      (Limiter.Forgets.of_empty hempty start).after (h.recovers hidle) hcalls hstart hnow hle
    exact congrArg Bucket.tokens (hforgets.found k now le_rfl).symm
  · obtain ⟨P, hrecovers⟩ := h.recovers hs
    exact hrecovers.paysOff
  · intro n hn hburst hslow
    rw [htuned]
    exact Pacing.not_paysOff rfl (Settings.pos_of_validate hs).1 rfl hn hburst hslow

/-- Calls for one destination at these times. -/
def callsAt (times : List Int) : List Reservation := times.map fun now => ⟨now, "k"⟩

/-- The default settings, and a destination that is idle for eleven minutes. -/
theorem eviction_invisible_default :
    let s : Settings Binary64 := Settings.default
    let calls := callsAt [0, 0, 660 * second]
    s.limiter.log Units.amd64 calls = s.limiter.logKeeping Units.amd64 calls ∧
      (s.limiter.after Units.amd64 calls).buckets "k" =
        some { tokens := 4.0, last := 660 * second, lastAccess := 660 * second } := by
  intro s calls
  have hforgettable : s.Forgettable fun _ => -2 ^ 63 :=
    .inl ⟨by decide +kernel, by decide +kernel⟩
  have hvalid : s.validate = .ok () := by decide +kernel
  obtain ⟨hiff, hpaysOff, -⟩ := eviction_invisible (fun _ => -2 ^ 63) hvalid
  have hcalls : InOrder calls := by decide
  exact ⟨(hiff.mpr (hpaysOff hforgettable) calls hcalls).1, by decide +kernel⟩

/-- One probe in a thousand seconds, with a burst of two. After two calls the bucket is empty, and
    ten minutes later it would hold six tenths of a token, for which the next call is refused. The
    limiter has forgotten it and grants the call. -/
theorem eviction_visible :
    let s := paceSettings 0.001 2.0
    let calls := callsAt [0, 0, 600 * second + 1]
    s.validate = .ok () ∧ InOrder calls ∧
      (s.limiter.log Units.amd64 calls).map (·.2) = [(0, true), (0, true), (0, true)] ∧
      (s.limiter.logKeeping Units.amd64 calls).map (·.2) = [(0, true), (0, true), (0, false)] := by
  intro s calls
  refine ⟨?_, ?_, ?_, ?_⟩ <;> decide +kernel

end Rcptto.Native
