import Rcptto.Native.Basic

/-!
# Health scores and circuit breakers

`internal/egress/health.go`. Scores are Go `float64`s; the model only assumes a type
`F` with the arithmetic operations and decimal literals the code uses, so it
can be run with rational scores and reasoned about with no law of arithmetic at all.
-/

namespace Rcptto.Native

/-! ## Health -/

/-- A rolling per-(identity, destination) reputation score. -/
structure Health (F : Type) where
  score : F
  samples : Int

namespace Health

variable {F : Type} [OfScientific F]

/-- `newHealth`: scores start optimistic. -/
def newHealth : Health F := { score := 1.0, samples := 0 }

/-- `observe`: fold one outcome into the exponential moving average. -/
def observe [Add F] [Sub F] [Mul F] (h : Health F) (good : Bool) (alpha : F) : Health F :=
  let target : F := if good then 1.0 else 0.0
  { score := h.score * (1.0 - alpha) + target * alpha, samples := h.samples + 1 }

end Health

/-! ## Circuit breakers -/

/-- `cbState`, a breaker's position. -/
inductive CbState where
  | closed
  | opened
  | halfOpen
  deriving DecidableEq

/-- A per-(identity, destination) breaker. The zero value is a closed breaker. -/
structure Circuit where
  state : CbState := .closed
  failures : Int := 0
  openUntil : Int := 0
  deriving DecidableEq

namespace Circuit

/-- `allow`: whether a probe may use the pair now, and the breaker afterwards; an
    expired open breaker becomes half-open. -/
def allow (c : Circuit) (now : Int) : Bool × Circuit :=
  if c.state = .opened then
    -- a trial is let through; nothing counts how many are
    if now > c.openUntil then (true, { c with state := .halfOpen })
    else (false, c)
  else (true, c)

/-- `onSuccess` closes the breaker and clears the failure count. -/
def onSuccess (c : Circuit) : Circuit :=
  { c with state := .closed, failures := 0 }

/-- `onFailure` records a failure, opening the breaker once the threshold is reached
    or immediately if a half-open trial fails. -/
def onFailure (c : Circuit) (now : Int) (threshold : Int) (cooldown : Int) : Circuit :=
  let c := { c with failures := c.failures + 1 }
  -- the count is not reset when the breaker becomes half-open
  if c.state = .halfOpen ∨ c.failures ≥ threshold then
    { c with state := .opened, openUntil := now + cooldown }
  else c

end Circuit

end Rcptto.Native
