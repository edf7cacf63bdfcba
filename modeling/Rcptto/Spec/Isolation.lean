import Mathlib.Data.List.Chain
import Rcptto.Spec.Limiter

/-!
# Isolation of the destinations

The limiter keeps one map for all destinations, and a call for one of them sweeps the
buckets of all the others. What a call for `k` finds is `Limiter.seen`: the bucket of `k`
after the sweep. A call for another key, at an earlier time, does not change it: a bucket
that the other call sweeps away would have been swept by the call for `k` itself.

The second half is about refused calls. They take no token, but they refill the bucket and
move its clock. Without rounding that is not visible later, since refilling in two steps
earns what refilling in one step earns. With rounding it is.

## Key results

- `Limiter.log_filter`: the results for a key are those of its own calls alone
- `Limiter.log_delete`: without rounding, a refused call can be deleted
-/

namespace Rcptto.Native

variable {F D : Type} [OfScientific F] [LinearOrder F] [Add F] [Sub F] [Mul F] [Div F]
  [Zero D] [IntCast D] [LinearOrder D]

namespace Limiter

variable {u : Units F D} {l l' : Limiter F} {k key : String} {now later : Int}
  {calls : List Reservation}

/-! ## The calls for one key -/

/-- Two limiters that find the same bucket of `k` from the time `start` on. -/
structure SameFor (k : String) (start : Int) (l l' : Limiter F) : Prop where
  pacing : l.toPacing = l'.toPacing
  seen : ∀ now, start ≤ now → l.seen k now = l'.seen k now

/-- A call for `k` has the same result, and afterwards the same bucket is found again. -/
theorem SameFor.reserve_self {start : Int} (h : SameFor k start l l') (hle : start ≤ now) :
    (l.reserve u k now).1 = (l'.reserve u k now).1 ∧
      SameFor k now (l.reserve u k now).2 (l'.reserve u k now).2 := by
  have hserve : l.serve u (l.seen k now) now = l'.serve u (l'.seen k now) now := by
    rw [h.pacing, h.seen now hle]
  refine ⟨?_, h.pacing, fun later _ => ?_⟩
  · rw [fst_reserve, fst_reserve, hserve]
  · rw [seen_reserve_self, seen_reserve_self, hserve, h.pacing]

/-- A call for another key on one side changes nothing. -/
theorem SameFor.reserve_left {start : Int} (h : SameFor k start l l') (hne : k ≠ key)
    (hle : start ≤ now) : SameFor k now (l.reserve u key now).2 l' := by
  refine ⟨h.pacing, fun later hlater => ?_⟩
  rw [seen_reserve_of_ne hne hlater]
  exact h.seen later (hle.trans hlater)

/-- The results for `k` are those of the calls for `k` alone, also from another limiter that
    finds the same bucket of `k`. -/
theorem SameFor.log_filter {start : Int} (h : SameFor k start l l') (hcalls : InOrder calls)
    (hstart : ∀ c ∈ calls, start ≤ c.now) :
    (l.log u calls).filter (·.1.key = k) = l'.log u (calls.filter (·.key = k)) := by
  induction calls generalizing l l' start with
  | nil => rfl
  | cons c cs ih =>
    obtain ⟨hc, hcs⟩ := List.pairwise_cons.mp hcalls
    have hle : start ≤ c.now := hstart c (by simp)
    by_cases hkey : c.key = k
    · -- both sides serve the call
      subst hkey
      obtain ⟨hres, hsame⟩ := h.reserve_self (u := u) hle
      rw [log, List.filter_cons_of_pos (by simp), List.filter_cons_of_pos (by simp), log,
        ih hsame hcs hc, hres]
    · -- only the left side serves the call
      have hsame := h.reserve_left (u := u) (Ne.symm hkey) hle
      rw [log, List.filter_cons_of_neg (by simpa using hkey),
        List.filter_cons_of_neg (by simpa using hkey)]
      exact ih hsame hcs hc

/-- The results for a key are those of the history of its own calls. -/
theorem log_filter (l : Limiter F) (k : String) (hcalls : InOrder calls) :
    (l.log u calls).filter (·.1.key = k) = l.log u (calls.filter (·.key = k)) := by
  cases calls with
  | nil => rfl
  | cons c cs =>
    have hle := (List.pairwise_cons.mp hcalls).1
    have hsame : SameFor k c.now l l := ⟨rfl, fun _ _ => rfl⟩
    exact hsame.log_filter hcalls (by simpa using hle)

/-! ## Two limiters that differ in one bucket -/

/-- A call for any key keeps what is found for `k` the same. -/
theorem SameFor.reserve {start : Int} (h : SameFor k start l l') (hle : start ≤ now) :
    SameFor k now (l.reserve u key now).2 (l'.reserve u key now).2 := by
  by_cases hkey : k = key
  · subst hkey
    exact (h.reserve_self hle).2
  · refine ⟨h.pacing, fun later hlater => ?_⟩
    rw [seen_reserve_of_ne hkey hlater, seen_reserve_of_ne hkey hlater]
    exact h.seen later (hle.trans hlater)

/-- When the next call for `k` is served alike, and the buckets of all other keys are the
    same, all later calls have the same results. -/
theorem log_congr {start : Int} (hother : ∀ k', k' ≠ k → SameFor k' start l l')
    (hpacing : l.toPacing = l'.toPacing)
    (hnext : ∀ c ∈ (calls.filter (·.key = k)).head?,
      l.serve u (l.seen k c.now) c.now = l'.serve u (l'.seen k c.now) c.now)
    (hcalls : InOrder calls) (hstart : ∀ c ∈ calls, start ≤ c.now) :
    l.log u calls = l'.log u calls := by
  induction calls generalizing l l' start with
  | nil => rfl
  | cons c cs ih =>
    obtain ⟨hc, hcs⟩ := List.pairwise_cons.mp hcalls
    have hle : start ≤ c.now := hstart c (by simp)
    have hother' : ∀ k', k' ≠ k →
        SameFor k' c.now (l.reserve u c.key c.now).2 (l'.reserve u c.key c.now).2 :=
      fun k' hk' => (hother k' hk').reserve hle
    by_cases hkey : c.key = k
    · -- from here on the two limiters are the same
      have hserve := hnext c (by simp [hkey])
      have hsame : SameFor k c.now (l.reserve u c.key c.now).2 (l'.reserve u c.key c.now).2 := by
        refine ⟨hpacing, fun later _ => ?_⟩
        rw [hkey, seen_reserve_self, seen_reserve_self, hserve, hpacing]
      have hrest : (l.reserve u c.key c.now).2.log u cs =
          (l'.reserve u c.key c.now).2.log u cs := by
        refine ih hother' hpacing (fun c' hc' => ?_) hcs hc
        have hmem : c' ∈ cs := (List.mem_filter.mp (List.mem_of_mem_head? hc')).1
        rw [hsame.seen c'.now (hc c' hmem), hsame.pacing]
      rw [log, log, hrest, fst_reserve, fst_reserve, hkey, hserve]
    · have hres : (l.reserve u c.key c.now).1 = (l'.reserve u c.key c.now).1 :=
        ((hother c.key hkey).reserve_self hle).1
      have hrest : (l.reserve u c.key c.now).2.log u cs =
          (l'.reserve u c.key c.now).2.log u cs := by
        refine ih hother' hpacing (fun c' hc' => ?_) hcs hc
        have hmem : c' ∈ cs := (List.mem_filter.mp (List.mem_of_mem_head? hc')).1
        rw [seen_reserve_of_ne (Ne.symm hkey) (hc c' hmem),
          seen_reserve_of_ne (Ne.symm hkey) (hc c' hmem)]
        exact hnext c' (by rwa [List.filter_cons_of_neg (by simpa using hkey)])
      rw [log, log, hres, hrest]

end Limiter

/-! ## Refused calls -/

section Refused

variable {K D : Type} [Field K] [LinearOrder K] [IsStrictOrderedRing K]
  [Zero D] [IntCast D] [LinearOrder D]
  {u : Units K D} {cfg : LimiterConfig K} {before rest : List Reservation} {c : Reservation}

/-- The rate is positive. -/
theorem LimiterConfig.rate_pos : 0 < cfg.pacing.rate := by
  show 0 < if cfg.rate ≤ 0.0 then 1.0 else cfg.rate
  split
  · norm_num
  · rename_i h
    have : (0.0 : K) = 0 := by norm_num
    rw [← this]
    exact not_le.mp h

namespace Limiter

omit [Field K] [IsStrictOrderedRing K] in
/-- A bucket that the next call for its key finds was not idle in between. -/
theorem Tracked.seen_eq {l : Limiter K} {c' : Reservation} (h : l.Tracked before)
    (hgap : Frequent l.maxIdle ((before ++ rest).filter (·.key = c.key)))
    (hc' : c' ∈ (rest.filter (·.key = c.key)).head?) {now : Int} (hnow : now ≤ c'.now) :
    l.seen c.key now = l.buckets c.key := by
  rw [Limiter.seen_eq]
  -- the bucket was used by the last call before, which is close enough to the next one
  cases hbucket : l.buckets c.key with
  | none => rfl
  | some b =>
    obtain ⟨c₀, hlast, hc₀⟩ := h.last_call c.key b hbucket
    rw [Frequent, List.filter_append, List.isChain_append] at hgap
    have hclose := hgap.2.2 c₀ hlast c' hc'
    apply Option.filter_some_pos
    simp only [Bool.not_eq_true', decide_eq_false_iff_not]
    omega

/-- The next call for the key is served as if the refused one had not been made. -/
theorem serve_after_refused (hu : u.Exact) (hcalls : InOrder (before ++ c :: rest))
    (hgap : Frequent (new cfg).maxIdle ((before ++ rest).filter (·.key = c.key)))
    (hrefused : (((new cfg).after u before).reserve u c.key c.now).1.2 = false) :
    let l := (new cfg).after u before
    let l' := (l.reserve u c.key c.now).2
    ∀ c' ∈ (rest.filter (·.key = c.key)).head?,
      l'.serve u (l'.seen c.key c'.now) c'.now = l.serve u (l.seen c.key c'.now) c'.now := by
  intro l l' c' hc'
  obtain ⟨hbefore, hrest, hcross⟩ := List.pairwise_append.mp hcalls
  obtain ⟨hc, -⟩ := List.pairwise_cons.mp hrest
  have hle : c.now ≤ c'.now :=
    hc c' (List.mem_filter.mp (List.mem_of_mem_head? hc')).1
  have hb : ∀ x ∈ before, x.now ≤ c.now := fun x hx => hcross x hx c (by simp)
  have hpacing : l.toPacing = (new cfg).toPacing := toPacing_after
  have htracked : l.Tracked before := tracked_after hu cfg hbefore
  have hsound : ∀ b ∈ l.seen c.key c'.now, Bucket.Sound l.toPacing c'.now b :=
    htracked.sound fun x hx => (hb x hx).trans hle
  have hsound' : ∀ b ∈ l'.seen c.key c'.now, Bucket.Sound l'.toPacing c'.now b := by
    refine (htracked.reserve hu hb).sound fun x hx => ?_
    rcases List.mem_append.mp hx with hx | hx
    · exact (hb x hx).trans hle
    · rw [List.mem_singleton.mp hx]
      exact hle
  -- the refused call leaves the bucket behind that it has refilled
  have hserve := Pacing.serve_eq_take hu (htracked.sound (k := c.key) hb)
  have hleft : (l.serve u (l.seen c.key c.now) c.now).2 =
      { tokens := l.level (l.seen c.key c.now) c.now, last := c.now, lastAccess := c.now } := by
    rw [fst_reserve, hserve] at hrefused
    rw [hserve, Pacing.take_of_refused hrefused]
  -- refilling in two steps is refilling in one
  have hlevel : l'.level (l'.seen c.key c'.now) c'.now = l.level (l.seen c.key c'.now) c'.now := by
    have hgap' : Frequent l.maxIdle ((before ++ rest).filter (·.key = c.key)) := by
      rwa [hpacing]
    have hrate : 0 ≤ l.rate := by
      rw [hpacing]
      exact LimiterConfig.rate_pos.le
    have hsame : l.seen c.key c.now = l.seen c.key c'.now := by
      rw [htracked.seen_eq hgap' hc' hle, htracked.seen_eq hgap' hc' le_rfl]
    rw [seen_reserve_self, hleft]
    split
    · -- a bucket that is idle after the refused call was idle before it: there is none
      rename_i hidle
      cases hseen : l.seen c.key c'.now with
      | none => rfl
      | some b =>
        obtain ⟨-, hfresh⟩ := Option.filter_eq_some_iff.mp hseen
        obtain ⟨-, hlast, hnow⟩ := htracked.sound hb b (hsame.trans hseen)
        simp only [Bool.not_eq_true', decide_eq_false_iff_not] at hfresh
        omega
    · rw [toPacing_reserve, Pacing.level_refilled hrate hle, hsame]
  rw [Pacing.serve_eq_take hu hsound, Pacing.serve_eq_take hu hsound', hlevel]
  rfl

/-- Without rounding, deleting a refused call leaves every other result as it was. -/
theorem log_delete (hu : u.Exact) (cfg : LimiterConfig K) {before rest : List Reservation}
    {c : Reservation} {delay : D} (hcalls : InOrder (before ++ c :: rest))
    (hgap : Frequent (new cfg).maxIdle ((before ++ rest).filter (·.key = c.key)))
    (hrefused : ((new cfg).log u (before ++ c :: rest))[before.length]? = some (c, delay, false)) :
    (new cfg).log u (before ++ rest) =
      ((new cfg).log u (before ++ c :: rest)).eraseIdx before.length := by
  have hlen : before.length = ((new cfg).log u before).length := length_log.symm
  have hres : ((new cfg).after u before |>.reserve u c.key c.now).1 = (delay, false) := by
    rw [log_append, hlen, List.getElem?_append_right le_rfl] at hrefused
    simpa [log] using hrefused
  have hnext := serve_after_refused hu hcalls hgap (by rw [hres])
  obtain ⟨-, hrest, -⟩ := List.pairwise_append.mp hcalls
  obtain ⟨hc, hrest⟩ := List.pairwise_cons.mp hrest
  -- the buckets of all other keys are not touched by the refused call
  have hother : ∀ k, k ≠ c.key → SameFor k c.now
      (((new cfg).after u before).reserve u c.key c.now).2 ((new cfg).after u before) :=
    fun k hk => SameFor.reserve_left ⟨rfl, fun _ _ => rfl⟩ hk le_rfl
  have hlog := log_congr hother rfl hnext hrest hc
  rw [log_append, log_append, hlen, List.eraseIdx_append_of_length_le le_rfl, Nat.sub_self, log,
    List.eraseIdx_cons_zero, hlog]

end Limiter

end Refused

/-- The destinations are isolated. In any arithmetic, the results for a key are those of the
    history of its own calls, whatever the calls for other keys sweep away. And without
    rounding, deleting a refused call leaves every other result as it was, as long as the
    remaining calls for its key are never more than `maxIdle` apart. -/
theorem isolation :
    (∀ (F D : Type) [OfScientific F] [LinearOrder F] [Add F] [Sub F] [Mul F] [Div F] [Zero D]
      [IntCast D] [LinearOrder D] (u : Units F D) (cfg : LimiterConfig F)
      (calls : List Reservation) (k : String), InOrder calls →
        ((Limiter.new cfg).log u calls).filter (·.1.key = k) =
          (Limiter.new cfg).log u (calls.filter (·.key = k))) ∧
    (∀ (K D : Type) [Field K] [LinearOrder K] [IsStrictOrderedRing K] [Zero D] [IntCast D]
      [LinearOrder D] (u : Units K D) (cfg : LimiterConfig K) (before rest : List Reservation)
      (c : Reservation) (delay : D), u.Exact → InOrder (before ++ c :: rest) →
        Frequent (Limiter.new cfg).maxIdle ((before ++ rest).filter (·.key = c.key)) →
        ((Limiter.new cfg).log u (before ++ c :: rest))[before.length]? = some (c, delay, false) →
        (Limiter.new cfg).log u (before ++ rest) =
          ((Limiter.new cfg).log u (before ++ c :: rest)).eraseIdx before.length) := by
  constructor
  · intro F D _ _ _ _ _ _ _ _ _ u cfg calls k hcalls
    exact (Limiter.new cfg).log_filter k hcalls
  · intro K D _ _ _ _ _ _ u cfg before rest c delay hu hcalls hgap hrefused
    exact Limiter.log_delete hu cfg hcalls hgap hrefused

/-- One probe per second, without a burst, and a wait of at most half a second. -/
def sparseConfig (F : Type) [OfScientific F] : LimiterConfig F where
  rate := 1.0
  burst := 1.0
  maxWait := 500000000

/-- Calls at `0`, `0.1` and `0.8` seconds; the second one would have to wait too long. -/
def sparseCalls : List Reservation :=
  [{ now := 0, key := "k" }, { now := 100000000, key := "k" }, { now := 800000000, key := "k" }]

/-- A call with another key, and a call that is refused. -/
theorem isolation_sparse :
    ((Limiter.new (sparseConfig Binary64)).log Units.go
        (sparseCalls ++ [{ now := 900000000, key := "other" }])).filter (·.1.key = "k") =
      (Limiter.new (sparseConfig Binary64)).log Units.go sparseCalls ∧
    (Limiter.new (sparseConfig ℚ)).log (Units.exact ℚ)
        [{ now := 0, key := "k" }, { now := 800000000, key := "k" }] =
      ((Limiter.new (sparseConfig ℚ)).log (Units.exact ℚ) sparseCalls).eraseIdx 1 :=
  ⟨isolation.1 Binary64 Int Units.go (sparseConfig Binary64)
      (sparseCalls ++ [{ now := 900000000, key := "other" }]) "k" (by decide),
    isolation.2 ℚ ℚ (Units.exact ℚ) (sparseConfig ℚ) [{ now := 0, key := "k" }]
      [{ now := 800000000, key := "k" }] { now := 100000000, key := "k" } 0 (fun _ => rfl)
      (by decide) (by decide +kernel) (by decide +kernel)⟩

/-- With the rounding of `float64` a refused call is visible: it moves the next delay by a
    nanosecond. -/
theorem refused_call_visible :
    InOrder sparseCalls ∧
    Frequent (Limiter.new (sparseConfig Binary64)).maxIdle (sparseCalls.eraseIdx 1) ∧
    ((Limiter.new (sparseConfig Binary64)).log Units.go sparseCalls).map Prod.snd =
      [(0, true), (0, false), (200000000, true)] ∧
    ((Limiter.new (sparseConfig Binary64)).log Units.go (sparseCalls.eraseIdx 1)).map Prod.snd =
      [(0, true), (199999999, true)] := by
  refine ⟨by decide, by decide +kernel, by decide +kernel, by decide +kernel⟩

end Rcptto.Native
