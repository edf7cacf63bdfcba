import Rcptto.ForStd.PartialMap
import Rcptto.Native.Persist

/-!
# Shutting down

The end of `run` in `cmd/rcptto-server/main.go`, with the goroutine of `PersistLoop`. The
termination signal cancels the context. `PersistLoop` then makes its final write, and at the same
time `run` lets the HTTP server drain; it returns when both are done. Jobs run on contexts of
their own and are not waited for, and neither are the health checks and audits in the background.

The store is given by its rows. `SaveEgress` inserts the rows of the identities it is given or
replaces them, all of them or, when it fails, none. Whether it fails is up to the store, and so is
how long it takes: `run` gives up waiting for the final write after 15 s.
-/

namespace Rcptto.Native

/-- Where the goroutine of `PersistLoop` stands: in its `select`, in a call of `Persist`, which
    can be the final one, or at its end, after a final call that succeeded or failed. -/
inductive PersistLoop (F : Type) where
  | waiting
  | persisting (final : Bool) (call : Persist F)
  | done (ok : Bool)

/-- Where `run` stands: before the signal is noticed, in `Shutdown`, behind it, or at its end,
    which is an error if the server failed or did not drain in time. -/
inductive Drain where
  | serving
  | draining
  | drained
  | returned (err : Bool)
  deriving DecidableEq

/-- Who calls the egress manager. -/
inductive Caller where
  | request
  | job
  | background
  deriving DecidableEq

/-- A server: its egress manager and the rows of the egress store, the goroutine of
    `PersistLoop`, whether the signal has come, the requests and jobs under way, and `run`. -/
structure Serving (F : Type) where
  manager : Manager F
  store : String → Option (EgressState F)
  loop : PersistLoop F := .waiting
  signalled : Bool := false
  requests : Nat := 0
  jobs : Nat := 0
  drain : Drain := .serving

/-- What can happen next. -/
inductive ServingAction (F : Type) where
  | request
  | requestEnds
  | job
  | jobEnds
  | call (caller : Caller) (e : Event F)
  | signal
  | tick
  | flush
  | snapshot
  | saveEgress (ok : Bool)
  | clearDirty
  | serverFails
  | shutdown
  | drained
  | shutdownFails
  | returns
  | givesUp

section Serving

variable {F : Type}

/-- `SaveEgress`, when it succeeds. -/
def saveEgress (store : String → Option (EgressState F)) (states : List (EgressState F)) :
    String → Option (EgressState F) :=
  PartialMap.upsert (·.id) store states

variable [Add F] [Sub F] [Mul F] [OfScientific F] [LinearOrder F]

/-- The effect of an action on a server that is still running. -/
def Serving.Effect (s : Serving F) (a : ServingAction F) (s' : Serving F) : Prop :=
  match a with
  | .request => s.drain = .serving ∧ s' = { s with requests := s.requests + 1 }
  | .requestEnds => 0 < s.requests ∧ s' = { s with requests := s.requests - 1 }
  -- `Submit` is called in a request, and the goroutine it starts outlives the request
  | .job => 0 < s.requests ∧ s' = { s with jobs := s.jobs + 1 }
  | .jobEnds => 0 < s.jobs ∧ s' = { s with jobs := s.jobs - 1 }
  | .call caller e => (caller = .request → 0 < s.requests) ∧ (caller = .job → 0 < s.jobs) ∧
      ∃ m', s.manager.Step e m' ∧ s' = { s with manager := m' }
  | .signal => s' = { s with signalled := true }
  | .tick => s.loop = .waiting ∧
      s' = if s.manager.dirty then { s with loop := .persisting false .called } else s
  | .flush => s.loop = .waiting ∧ s.signalled = true ∧
      s' = { s with loop := .persisting true .called }
  | .snapshot => ∃ final, s.loop = .persisting final .called ∧
      s' = { s with loop := .persisting final (.taken s.manager.snapshot) }
  -- after an error the manager stays dirty, and the next tick tries again
  | .saveEgress ok => ∃ final states, s.loop = .persisting final (.taken states) ∧
      s' = if ok then
          { s with store := saveEgress s.store states, loop := .persisting final .written }
        else { s with loop := if final then .done false else .waiting }
  -- what has changed since the snapshot is no longer marked either
  | .clearDirty => ∃ final, s.loop = .persisting final .written ∧
      s' = { s with
        manager := { s.manager with dirty := false }
        loop := if final then .done true else .waiting }
  | .serverFails => s.drain = .serving ∧ s' = { s with drain := .returned true }
  | .shutdown => s.drain = .serving ∧ s.signalled = true ∧ s' = { s with drain := .draining }
  | .drained => s.drain = .draining ∧ s.requests = 0 ∧ s' = { s with drain := .drained }
  | .shutdownFails => s.drain = .draining ∧ s' = { s with drain := .returned true }
  | .returns => s.drain = .drained ∧ (∃ ok, s.loop = .done ok) ∧
      s' = { s with drain := .returned false }
  | .givesUp => s.drain = .drained ∧ s' = { s with drain := .returned false }

/-- One step. The process ends when `run` returns. -/
def Serving.Step (s : Serving F) (a : ServingAction F) (s' : Serving F) : Prop :=
  (∀ err, s.drain ≠ .returned err) ∧ s.Effect a s'

end Serving

end Rcptto.Native
