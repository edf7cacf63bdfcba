import Mathlib.Logic.Function.Basic
import Mathlib.Order.Lattice

/-!
# Shared data types

The types that the verification engine, the egress manager and the persistence
layer exchange (`pkg/engine/engine.go`, `internal/egress/identity.go`,
`internal/store/egress.go`).

Go's `time.Time` and `time.Duration` are integers of nanoseconds here, counted from
Go's zero time, so `IsZero` is `t = 0`. `Sub` saturates in Go at about 292 years;
every use in the modelled code compares the difference with a much shorter
duration, where saturation changes nothing. Counters (`int`) are unbounded integers.

Two string types of the source are open enumerations: `State` is converted from
whatever text the store returns, and `SignalKind` from whatever a remote agent
sends. Each is an inductive type with one constructor for the texts outside the
named constants, carrying the proof that it is not one of them, so that every
text is one value and the conversions are inverse to each other.
-/

namespace Rcptto.Native

/-- `time.Minute`, in nanoseconds. -/
def minute : Int := 60 * 1000000000

/-- `time.Hour`, in nanoseconds. -/
def hour : Int := 60 * minute

/-! ## Lifecycle states -/

/-- `egress.State`, an identity's lifecycle position. -/
inductive State where
  | warming
  | active
  | quarantined
  | disabled
  | other (text : String) (h : text ∉ ["warming", "active", "quarantined", "disabled"])
  deriving DecidableEq

namespace State

/-- `string(state)`. -/
def toString : State → String
  | warming => "warming"
  | active => "active"
  | quarantined => "quarantined"
  | disabled => "disabled"
  | other text _ => text

/-- `State(text)`: any text is accepted, there is no validation. -/
def ofString (text : String) : State :=
  if hw : text = "warming" then warming
  else if ha : text = "active" then active
  else if hq : text = "quarantined" then quarantined
  else if hd : text = "disabled" then disabled
  else other text (by simp [hw, ha, hq, hd])

/-- A state is read back from its text. -/
@[simp] theorem ofString_toString (s : State) : ofString s.toString = s := by
  cases s with
  | other text h =>
    simp only [List.mem_cons, List.not_mem_nil, or_false, not_or] at h
    simp [toString, ofString, h]
  | _ => rfl

@[simp] theorem toString_ofString (text : String) : (ofString text).toString = text := by
  unfold ofString
  split_ifs <;> simp_all [toString]

end State

/-! ## Engine contract -/

/-- `engine.Task`: one address to verify, with the routing context the funnel has
    resolved for it. `ID` and `JobID` are never read by the engine or the manager. -/
structure Task where
  email : String
  normalized : String
  domain : String
  provider : String
  mx : List String
  deriving DecidableEq

/-- `engine.SignalKind`. -/
inductive SignalKind where
  | accepted
  | mailboxGone
  | tempFail
  | blocked
  | connRefused
  | timeout
  | other (text : String)
      (h : text ∉ ["accepted", "mailbox_gone", "tempfail", "blocked", "conn_refused", "timeout"])
  deriving DecidableEq

namespace SignalKind

/-- The two kinds after which a breaker closes and the block streak ends: the egress
    worked, whatever the mailbox verdict. -/
def isSuccess : SignalKind → Bool
  | accepted | mailboxGone => true
  | _ => false

/-- The three kinds that count against the breaker of a destination. -/
def isFailure : SignalKind → Bool
  | blocked | connRefused | timeout => true
  | _ => false

end SignalKind

/-- `engine.Signal`: one piece of egress feedback. -/
structure Signal where
  kind : SignalKind
  egressID : String
  destination : String
  code : Int
  detail : String
  deriving DecidableEq

/-! ## Egress identities -/

/-- `egress.DirectTransport`, the one `Transport` of the repository: dial from the
    host, optionally bound to a source address. -/
structure Transport where
  localAddr : Option String := none
  deriving DecidableEq

/-- `egress.Spec`: an operator-provided identity. `Kind`, `ASN` and `Region` are
    only stored, never read, and are left out. -/
structure Spec where
  id : String
  ip : String := ""
  helo : String := ""
  mailFrom : String := ""
  transport : Transport := {}
  warmUp : Bool := false
  deriving DecidableEq

/-- `egress.binding`: what a worker gets for one probe. -/
structure Binding where
  id : String
  helo : String
  mailFrom : String
  transport : Transport
  deriving DecidableEq

/-- `ErrNoEgress`, the only error of `Manager.Binding`. -/
inductive EgressError where
  | errNoEgress
  deriving DecidableEq

/-- `store.EgressState`: the persisted reputation of one identity. `Health` maps a
    destination key to its score; a Go map is a partial function. -/
@[ext] structure EgressState (F : Type) where
  id : String
  state : String
  warmupStage : Int
  usedToday : Int
  lastReset : Int
  blockStreak : Int
  quarantinedUntil : Int
  quarantineReason : String
  health : String → Option F

end Rcptto.Native
