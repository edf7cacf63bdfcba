import Mathlib.Data.Rat.Cast.Defs
import Rcptto.ForStd.Binary64
import Rcptto.Native.Basic

/-!
# The rate limiter

`internal/ratelimit/ratelimit.go`: a token bucket for each destination, created on demand
and dropped when it has been idle for too long. `reserve` holds the limiter's lock, so it is
one atomic function here; the clock reading `now` is an argument.

Balances are `float64` in the source. The model leaves their type `F` open, together with
the two places where they meet the clock: `Units.seconds` is `time.Duration.Seconds`, and
`Units.duration` the conversion of a number of nanoseconds to a `time.Duration`. `Units.go`
is what Go computes: rounded arithmetic, and a conversion that drops the fraction, which
`Units.int64` limits to 64 bits. `Units.exact` has no rounding and keeps the fraction.
-/

namespace Rcptto.Native

/-- `time.Second`, in nanoseconds. -/
def second : Int := 1000000000

/-- How balances of type `F` and delays of type `D` meet the clock. -/
structure Units (F D : Type) where
  seconds : Int → F
  duration : F → D

/-- `Seconds` and the conversion to `time.Duration`, on `float64`. -/
def Units.go : Units Binary64 Int where
  seconds d := ((d.tdiv second : Int) : Binary64) + ((d.tmod second : Int) : Binary64) / 1e9
  duration x := x.val.truncate

/-- The same on a machine whose integers have 64 bits. What a number becomes that does not fit is up
    to the machine. -/
def Units.int64 (overflow : Binary64 → Int) : Units Binary64 Int where
  seconds := Units.go.seconds
  duration x :=
    if -2 ^ 63 ≤ x.val.truncate ∧ x.val.truncate < 2 ^ 63 then x.val.truncate else overflow x

/-- On amd64 every number that does not fit becomes the least integer. -/
def Units.amd64 : Units Binary64 Int := .int64 fun _ => -2 ^ 63

/-- The same without rounding, on any field. -/
def Units.exact (K : Type) [Field K] : Units K K where
  seconds d := (d : K) / 1e9
  duration x := x

/-- `bucket`. -/
structure Bucket (F : Type) where
  tokens : F
  last : Int
  lastAccess : Int
  deriving DecidableEq

/-- The tuning fields of `Limiter`, as `New` normalises them. -/
structure Pacing (F : Type) where
  rate : F
  burst : F
  maxWait : Int
  maxIdle : Int

/-- `Limiter`. The clock and the sleep function are not part of the model's state. -/
structure Limiter (F : Type) extends Pacing F where
  buckets : String → Option (Bucket F)

/-- `ratelimit.Config`. -/
structure LimiterConfig (F : Type) where
  rate : F
  burst : F
  maxWait : Int := 0
  maxIdle : Int := 0

/-- `ErrWaitTooLong`, the only error of the limiter itself. -/
inductive LimiterError where
  | errWaitTooLong
  deriving DecidableEq

variable {F D : Type} [OfScientific F]

section New

variable [LE F] [DecidableLE F]

/-- The defaulting of `New`: values that are not positive fall back to the defaults. -/
def LimiterConfig.pacing (cfg : LimiterConfig F) : Pacing F where
  rate := if cfg.rate ≤ 0.0 then 1.0 else cfg.rate
  burst := if cfg.burst ≤ 0.0 then 5.0 else cfg.burst
  maxWait := if cfg.maxWait ≤ 0 then 30 * second else cfg.maxWait
  maxIdle := if cfg.maxIdle ≤ 0 then 10 * minute else cfg.maxIdle

/-- `New`. -/
def Limiter.new (cfg : LimiterConfig F) : Limiter F where
  toPacing := cfg.pacing
  buckets _ := none

end New

/-- `SetRate`: a value that is not positive leaves the rate or the burst alone. -/
def Limiter.setRate [LT F] [DecidableLT F] (l : Limiter F) (rate burst : F) : Limiter F :=
  { l with
    rate := if rate > 0.0 then rate else l.rate
    burst := if burst > 0.0 then burst else l.burst }

variable [LinearOrder F]

/-- `evictIdleLocked`. -/
def Limiter.evictIdleLocked (l : Limiter F) (now : Int) : Limiter F :=
  { l with
    buckets := fun k => (l.buckets k).filter fun b => !(now - b.lastAccess > l.maxIdle) }

variable [Add F] [Sub F] [Mul F] [Div F] [Zero D] [IntCast D] [LinearOrder D]

namespace Pacing

/-- The refill of `reserve`: what the elapsed time has earned, capped at the burst. -/
def refill (p : Pacing F) (u : Units F D) (b : Bucket F) (now : Int) : Bucket F :=
  let elapsed := now - b.last
  -- a clock that stands still or goes back earns nothing, and does not cap the balance either
  if elapsed > 0 then
    let tokens := b.tokens + u.seconds elapsed * p.rate
    { b with tokens := if tokens > p.burst then p.burst else tokens, last := now }
  else b

/-- The end of `reserve`: the delay until the balance pays for one probe, whether the caller
    gets it, and the balance afterwards. -/
def take (p : Pacing F) (u : Units F D) (tokens : F) : (D × Bool) × F :=
  if tokens ≥ 1.0 then ((0, true), tokens - 1.0)
  else
    let deficit := 1.0 - tokens
    let delay := u.duration (deficit / p.rate * 1e9)
    -- a refusal takes no token; a delay takes one in advance, below zero
    if delay > (p.maxWait : D) then ((0, false), tokens) else ((delay, true), tokens - 1.0)

/-- What `reserve` does with the bucket of the key, which it creates if there is none. -/
def serve (p : Pacing F) (u : Units F D) (b : Option (Bucket F)) (now : Int) :
    (D × Bool) × Bucket F :=
  -- a new bucket is full
  let b := b.getD { tokens := p.burst, last := now, lastAccess := 0 }
  let b := { p.refill u b now with lastAccess := now }
  let res := p.take u b.tokens
  (res.1, { b with tokens := res.2 })

end Pacing

namespace Limiter

/-- `reserve`: the delay and whether the call is granted, and the limiter afterwards. -/
def reserve (u : Units F D) (l : Limiter F) (key : String) (now : Int) :
    (D × Bool) × Limiter F :=
  let l := l.evictIdleLocked now
  let res := l.serve u (l.buckets key) now
  (res.1, { l with buckets := Function.update l.buckets key (some res.2) })

/-- `Wait` up to the sleep: how long the caller sleeps, if at all. -/
def wait (u : Units F D) (l : Limiter F) (key : String) (now : Int) :
    Except LimiterError (Option D) × Limiter F :=
  match l.reserve u key now with
  | ((_, false), l) => (.error .errWaitTooLong, l)
  | ((delay, true), l) => (.ok (if delay ≤ 0 then none else some delay), l)

end Limiter

/-! ## Histories -/

/-- A call of `reserve` and its clock reading. -/
structure Reservation where
  now : Int
  key : String
  deriving DecidableEq

/-- The calls of a history with their results. -/
def Limiter.log (u : Units F D) (l : Limiter F) :
    List Reservation → List (Reservation × D × Bool)
  | [] => []
  | c :: cs =>
    (c, (l.reserve u c.key c.now).1) :: (l.reserve u c.key c.now).2.log u cs

/-- `reserve` and `SetRate`, the calls that change a limiter. -/
inductive LimiterOp (F : Type) where
  | reserve (key : String)
  | setRate (rate burst : F)
  deriving DecidableEq

/-- A call of one of them, and the time. -/
structure LimiterCall (F : Type) where
  now : Int
  op : LimiterOp F
  deriving DecidableEq

/-- The limiter after a call. -/
def Limiter.exec (u : Units F D) (l : Limiter F) (c : LimiterCall F) : Limiter F :=
  match c.op with
  | .reserve key => (l.reserve u key c.now).2
  | .setRate rate burst => l.setRate rate burst

/-- The limiter after a history of calls. -/
def Limiter.execAll (u : Units F D) (l : Limiter F) (calls : List (LimiterCall F)) : Limiter F :=
  calls.foldl (·.exec u) l

/-- The clock of a history never goes backwards. -/
def InOrder (calls : List Reservation) : Prop := calls.Pairwise fun a b => a.now ≤ b.now

instance (calls : List Reservation) : Decidable (InOrder calls) :=
  inferInstanceAs (Decidable (List.Pairwise _ _))

/-- Consecutive calls of a history are at most `maxIdle` apart. -/
def Frequent (maxIdle : Int) (calls : List Reservation) : Prop :=
  calls.IsChain fun a b => b.now - a.now ≤ maxIdle

instance (maxIdle : Int) (calls : List Reservation) : Decidable (Frequent maxIdle calls) :=
  inferInstanceAs (Decidable (List.IsChain _ _))

end Rcptto.Native
