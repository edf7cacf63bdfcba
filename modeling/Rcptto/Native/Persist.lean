import Rcptto.Native.System

/-!
# Writing the reputation to the store

`Persist` of `internal/egress/manager.go` takes a `Snapshot` under the lock, hands it to
`SaveEgress` without the lock, and takes the lock again to clear the dirty flag. These are
three steps, and between any two of them the manager serves other calls. `PersistLoop`
reads the flag on every tick and calls `Persist` when it is set; when it is told to stop it
calls `Persist` once more, whatever the flag says. `Durable` is a manager with its store
and the calls of `Persist` under way, and `Durable.Step` one step of it.

Whether a write succeeds is up to the store. A write that fails leaves the store as it was,
and `Persist` returns the error without touching the flag. `Persist` is exported, so any
number of calls may be under way, not only the one of `PersistLoop`.
-/

namespace Rcptto.Native

/-- Where a call of `Persist` under way stands. -/
inductive Persist (F : Type) where
  /-- It has not taken its snapshot yet. -/
  | called
  /-- It has taken the snapshot `states`, which is still to be saved. -/
  | taken (states : List (EgressState F))
  /-- Its snapshot is saved; the flag is still to be cleared. -/
  | written

section Durable

variable {F : Type}

/-- A manager, what was last saved to its store, the calls of `Persist` under way, and
    whether one has succeeded. -/
structure Durable (F : Type) where
  manager : Manager F
  saved : Option (List (EgressState F)) := none
  persists : List (Persist F) := []
  succeeded : Bool := false

/-- What can happen next: a call to the manager, a tick of `PersistLoop` or its final write,
    or a step of the `k`-th call of `Persist`. -/
inductive PersistAction (F : Type) where
  | call (e : Event F)
  | tick
  | flush
  | snapshot (k : Nat)
  | saveEgress (k : Nat) (ok : Bool)
  | clearDirty (k : Nat)

variable [Add F] [Sub F] [Mul F] [OfScientific F] [LinearOrder F]

/-- One step of a manager with its store. -/
def Durable.Step (s : Durable F) (a : PersistAction F) (s' : Durable F) : Prop :=
  match a with
  | .call e => ∃ m', s.manager.Step e m' ∧ s' = { s with manager := m' }
  | .tick => s' = if s.manager.dirty then { s with persists := s.persists ++ [.called] } else s
  | .flush => s' = { s with persists := s.persists ++ [.called] }
  | .snapshot k =>
    s.persists[k]? = some .called ∧
      s' = { s with persists := s.persists.set k (.taken s.manager.snapshot) }
  | .saveEgress k ok =>
    ∃ states, s.persists[k]? = some (.taken states) ∧
      s' = if ok then { s with saved := some states, persists := s.persists.set k .written }
        else { s with persists := s.persists.eraseIdx k }
  | .clearDirty k =>
    -- the flag is cleared also if a call has set it since the snapshot
    s.persists[k]? = some .written ∧
      s' = { s with
        manager := { s.manager with dirty := false }
        persists := s.persists.eraseIdx k
        succeeded := true }

/-- An execution of a manager with its store. -/
abbrev Durable.Runs (s : Durable F) (as : List (PersistAction F)) (s' : Durable F) : Prop :=
  Run Durable.Step s as s'

end Durable

end Rcptto.Native
