import Rcptto.ForStd.TokenBucket
import Rcptto.Spec.Isolation

/-!
# The pacing bound

Without rounding, and before a delay is cut to whole nanoseconds, the calls for one
destination are requests to a `TokenBucket`: the capacity is the burst, the rate is the
configured one per nanosecond, and a granted call is released after its delay. The bucket is
never forgotten as long as the calls are at most `maxIdle` apart.

## Key results

- `Pacing.step_serve`: a call is a request to the token bucket
- `Limiter.run_log`: so is a history of calls for one key
- `pacing_bound`: the number of releases in an interval, their order, and the longest delay
-/

namespace Rcptto.Native

variable {K : Type} [Field K] [LinearOrder K]

/-- The release time of a call that was granted. -/
def release (e : Reservation × K × Bool) : Option K :=
  if e.2.2 then some (e.1.now + e.2.1) else none

/-- The release times of the granted calls for `k`. -/
def releases (k : String) (log : List (Reservation × K × Bool)) : List K :=
  (log.filter (·.1.key = k)).filterMap release

/-- A bucket of the limiter as a token bucket; a new one is full. -/
def Pacing.balance (p : Pacing K) (b : Option (Bucket K)) (now : Int) : TokenBucket K :=
  match b with
  | none => { level := p.burst, time := now }
  | some b => { level := b.tokens, time := b.last }

variable [IsStrictOrderedRing K] {p : Pacing K} {b : Option (Bucket K)} {c : Reservation}
  {l : Limiter K} {k : String} {calls : List Reservation}

omit [LinearOrder K] [IsStrictOrderedRing K] in
theorem Units.exact_exact : (Units.exact K).Exact := fun _ => rfl

/-! ## One destination -/

/-- A call is granted at once, granted after the deficit has been earned back, or refused. -/
theorem Pacing.take_cases (p : Pacing K) (x : K) :
    p.take (Units.exact K) x = ((0, true), x - 1) ∧ 1 ≤ x ∨
    p.take (Units.exact K) x = (((1 - x) / (p.rate / 1e9), true), x - 1) ∧ x < 1 ∧
      (1 - x) / (p.rate / 1e9) ≤ p.maxWait ∨
    p.take (Units.exact K) x = ((0, false), x) := by
  have hone : (1.0 : K) = 1 := by norm_num
  have hdelay : (1 - x) / p.rate * 1e9 = (1 - x) / (p.rate / 1e9) := by
    rw [div_div_eq_mul_div, div_mul_eq_mul_div]
  -- there is a token, or a wait for one, or a wait that is too long
  by_cases hge : 1 ≤ x
  · left
    rw [take, hone, if_pos hge]
    exact ⟨rfl, hge⟩
  · right
    have htake : p.take (Units.exact K) x =
        if (1 - x) / (p.rate / 1e9) > (p.maxWait : K) then ((0, false), x)
        else (((1 - x) / (p.rate / 1e9), true), x - 1) := by
      rw [take, hone, if_neg hge, ← hdelay]
      rfl
    by_cases hwait : (1 - x) / (p.rate / 1e9) > (p.maxWait : K)
    · right
      rw [htake, if_pos hwait]
    · left
      rw [htake, if_neg hwait]
      exact ⟨rfl, not_le.mp hge, not_lt.mp hwait⟩

/-- A call is a request to the token bucket. -/
theorem Pacing.step_serve (hrate : 0 < p.rate) (hb : ∀ x ∈ b, Bucket.Sound p c.now x) :
    TokenBucket.Step p.burst (p.rate / 1e9) (p.balance b c.now)
      (release (c, (p.serve (Units.exact K) b c.now).1))
      (p.balance (some (p.serve (Units.exact K) b c.now).2) c.now) := by
  have hpos : 0 < p.rate / 1e9 := div_pos hrate (by norm_num)
  rw [Pacing.serve_eq_take Units.exact_exact hb]
  refine ⟨?_, p.level b c.now, Pacing.level_le_burst, ?_, ?_⟩
  · cases b with
    | none => exact le_rfl
    | some b =>
      show (b.last : K) ≤ c.now
      exact_mod_cast (hb b rfl).last_le
  · cases b with
    | none => simp [level, balance]
    | some b =>
      have hearned : p.rate / 1e9 * ((c.now : K) - b.last) =
          ((c.now - b.last : Int) : K) / 1e9 * p.rate := by
        push_cast
        ring
      show min _ _ ≤ b.tokens + p.rate / 1e9 * ((c.now : K) - b.last)
      rw [hearned]
      exact min_le_right _ _
  · -- a token is there, will be there in time, or comes too late
    rcases p.take_cases (p.level b c.now) with ⟨htake, hge⟩ | ⟨htake, hlt, -⟩ | htake
    · have hnone : (1 - p.level b c.now) / (p.rate / 1e9) ≤ 0 :=
        div_nonpos_of_nonpos_of_nonneg (by linarith) hpos.le
      rw [htake]
      exact ⟨rfl, by rw [max_eq_left hnone]; rfl⟩
    · have hsome : 0 ≤ (1 - p.level b c.now) / (p.rate / 1e9) :=
        div_nonneg (by linarith) hpos.le
      rw [htake]
      exact ⟨rfl, by rw [max_eq_right hsome]; rfl⟩
    · rw [htake]
      rfl

/-- The calls for one key, at most `maxIdle` apart, are requests to its token bucket. -/
theorem Limiter.run_log (hrate : 0 < l.rate) (hcalls : InOrder (c :: calls))
    (hkey : ∀ c' ∈ calls, c'.key = c.key) (hgap : Frequent l.maxIdle (c :: calls))
    (hsound : ∀ b ∈ l.seen c.key c.now, Bucket.Sound l.toPacing c.now b) :
    ∃ s, Run (TokenBucket.Step l.burst (l.rate / 1e9)) (l.balance (l.seen c.key c.now) c.now)
      ((l.log (Units.exact K) (c :: calls)).map release) s := by
  induction calls generalizing l c with
  | nil => exact ⟨_, .cons (Pacing.step_serve hrate hsound) (.nil _)⟩
  | cons c' cs ih =>
    obtain ⟨hc, hcs⟩ := List.pairwise_cons.mp hcalls
    obtain ⟨hnext, hgap⟩ := List.isChain_cons_cons.mp hgap
    have hkey' : c'.key = c.key := hkey c' (by simp)
    -- the next call finds the bucket that this one leaves behind
    have hseen : (l.reserve (Units.exact K) c.key c.now).2.seen c'.key c'.now =
        some (l.serve (Units.exact K) (l.seen c.key c.now) c.now).2 := by
      rw [hkey', seen_reserve_self, if_neg (by omega)]
    have hserve := Pacing.serve_eq_take Units.exact_exact hsound
    obtain ⟨s, hrun⟩ := ih (l := (l.reserve (Units.exact K) c.key c.now).2) (c := c') hrate hcs
      (fun x hx => (hkey x (by simp [hx])).trans hkey'.symm) hgap (by
        intro b hb
        obtain rfl := Option.mem_some_iff.mp (hseen ▸ hb)
        rw [hserve]
        exact ⟨(Pacing.take_le _).trans Pacing.level_le_burst, rfl, hc c' (by simp)⟩)
    rw [hseen] at hrun
    exact ⟨s, .cons (Pacing.step_serve hrate hsound) hrun⟩

/-! ## Histories -/

omit [IsStrictOrderedRing K] in
/-- The release times of one key are those of its own calls. -/
theorem releases_eq (l : Limiter K) (hcalls : InOrder calls) :
    releases k (l.log (Units.exact K) calls) =
      ((l.log (Units.exact K) (calls.filter (·.key = k))).map release).reduceOption := by
  rw [releases, l.log_filter k hcalls, List.reduceOption, List.filterMap_map]
  rfl

/-- A granted call waits for `maxWait` at most. -/
theorem Limiter.delay_le (hwait : 0 ≤ l.maxWait) :
    ∀ e ∈ l.log (Units.exact K) calls, e.2.2 = true → e.2.1 ≤ l.maxWait := by
  induction calls generalizing l with
  | nil => simp [log]
  | cons c cs ih =>
    intro e he hok
    rw [log, List.mem_cons] at he
    rcases he with rfl | he
    · -- whatever the balance is, the delay has been compared with `maxWait`
      have hserve : ∃ x, (l.reserve (Units.exact K) c.key c.now).1 =
          (l.take (Units.exact K) x).1 := ⟨_, rfl⟩
      obtain ⟨x, hx⟩ := hserve
      rw [hx] at hok ⊢
      rcases l.take_cases x with ⟨htake, -⟩ | ⟨htake, -, hle⟩ | htake
      · rw [htake]
        show (0 : K) ≤ l.maxWait
        exact_mod_cast hwait
      · rw [htake]
        exact hle
      · rw [htake] at hok
        exact absurd hok Bool.false_ne_true
    · exact ih (l := (l.reserve (Units.exact K) c.key c.now).2) hwait e he hok

omit [IsStrictOrderedRing K] in
theorem LimiterConfig.maxWait_pos {cfg : LimiterConfig K} : 0 < cfg.pacing.maxWait := by
  show 0 < if cfg.maxWait ≤ 0 then 30 * second else cfg.maxWait
  split
  · decide
  · omega

/-- The pacing bound. Without rounding, for every history with calls for `k` at most
    `maxIdle` apart: in every interval the number of released calls for `k` is at most what
    the bucket holds and earns, they are released in the order of the calls, and none of them
    waits for longer than `maxWait`. -/
theorem pacing_bound (cfg : LimiterConfig K) (hrate : 0 < cfg.rate) (hburst : 0 < cfg.burst)
    (k : String) {calls : List Reservation} (hcalls : InOrder calls)
    (hgap : Frequent (Limiter.new cfg).maxIdle (calls.filter (·.key = k))) :
    let log := (Limiter.new cfg).log (Units.exact K) calls
    (∀ a b : K, a ≤ b → ((releases k log).countP (fun r => a ≤ r ∧ r ≤ b) : K) ≤
      max cfg.burst 1 + cfg.rate * ((b - a) / 1e9)) ∧
    (releases k log).Pairwise (· ≤ ·) ∧
    ∀ e ∈ log, e.1.key = k → e.2.2 = true → e.2.1 ≤ (Limiter.new cfg).maxWait := by
  intro log
  have hzero : (0.0 : K) = 0 := by norm_num
  have hr : (Limiter.new cfg).rate = cfg.rate := by
    show (if cfg.rate ≤ 0.0 then _ else _) = _
    rw [hzero, if_neg (not_le.mpr hrate)]
  have hB : (Limiter.new cfg).burst = cfg.burst := by
    show (if cfg.burst ≤ 0.0 then _ else _) = _
    rw [hzero, if_neg (not_le.mpr hburst)]
  have hpos : 0 < cfg.rate / 1e9 := div_pos hrate (by norm_num)
  -- the calls for `k` are a run of its token bucket
  have hrun : ∃ s s', Run (TokenBucket.Step cfg.burst (cfg.rate / 1e9)) s
      (((Limiter.new cfg).log (Units.exact K) (calls.filter (·.key = k))).map release) s' := by
    have hown : InOrder (calls.filter (·.key = k)) := hcalls.filter _
    have hmem : ∀ c ∈ calls.filter (·.key = k), c.key = k := by simp
    cases hcs : calls.filter (·.key = k) with
    | nil => exact ⟨{ level := 0, time := 0 }, _, .nil _⟩
    | cons c cs =>
      rw [hcs] at hown hmem hgap
      obtain ⟨s, hrun⟩ := Limiter.run_log (l := Limiter.new cfg) (hr ▸ hrate) hown
        (fun c' hc' => (hmem c' (by simp [hc'])).trans (hmem c (by simp)).symm) hgap
        (by intro b hb; cases hb)
      rw [hr, hB] at hrun
      exact ⟨_, s, hrun⟩
  obtain ⟨s, s', hrun⟩ := hrun
  refine ⟨fun a b hab => ?_, ?_, fun e he _ hok => ?_⟩
  · have hcount := TokenBucket.countP_release_le hpos hab hrun
    rw [← releases_eq (Limiter.new cfg) hcalls] at hcount
    calc _ ≤ max cfg.burst 1 + cfg.rate / 1e9 * (b - a) := hcount
      _ = max cfg.burst 1 + cfg.rate * ((b - a) / 1e9) := by ring
  · rw [releases_eq (Limiter.new cfg) hcalls]
    exact TokenBucket.pairwise_release hpos hrun
  · exact Limiter.delay_le LimiterConfig.maxWait_pos.le e he hok

/-- Two probes per second, with a burst of three. -/
def burstConfig : LimiterConfig ℚ where
  rate := 2
  burst := 3

/-- Four calls for `k` at once, and one for another key. -/
def burstCalls : List Reservation :=
  [{ now := 0, key := "k" }, { now := 0, key := "k" }, { now := 0, key := "other" },
    { now := 0, key := "k" }, { now := 0, key := "k" }]

/-- A burst of calls. -/
theorem pacing_bound_burst :
    ((releases "k" ((Limiter.new burstConfig).log (Units.exact ℚ) burstCalls)).countP
      (fun r => 0 ≤ r ∧ r ≤ 500000000) : ℚ) ≤
        max burstConfig.burst 1 + burstConfig.rate * ((500000000 - 0) / 1e9) :=
  (pacing_bound burstConfig (by decide +kernel) (by decide +kernel) "k"
    (by decide : InOrder burstCalls) (by decide +kernel)).1 0 500000000 (by norm_num)

end Rcptto.Native
