import Rcptto.Native.Engine
import Rcptto.Native.System

/-!
# The reputation loop

The way of a probe through `Service.probe` of `internal/verifier/verifier.go`, when it is
made locally: `Binding` chooses an identity, the builtin engine probes through it, and the
signals of the probe are given to `Emit`. Many probes are under way at once, and each of the
three steps of one can come between any two of another.
-/

namespace Rcptto.Native

/-- A probe whose engine has returned: its task, its binding, and its signals. -/
structure Probe where
  task : Task
  binding : Binding
  signals : List Signal
  deriving DecidableEq

/-- A manager with the probes that the engine works on, and those whose signals have not
    been emitted yet. -/
structure Loop (F : Type) where
  manager : Manager F
  running : List (Task × Binding) := []
  finished : List Probe := []

/-- What can happen next: a `Binding`, the end of a `Verify`, or an `Emit`. -/
inductive LoopAction (F : Type) where
  | binding (e : Event F)
  | verify (k : Nat) (cfg : Engine.Config) (env : Engine.Env)
  | emit (k : Nat) (p : Probe) (e : Event F)

section

variable {F : Type}

/-- The call to the manager that an action makes, if any. -/
def LoopAction.event : LoopAction F → Option (Event F)
  | .binding e => some e
  | .verify _ _ _ => none
  | .emit _ _ e => some e

/-- The probe that a `Binding` starts. -/
def Loop.started (t : Task) : Ret → List (Task × Binding)
  | some (.ok b) => [(t, b)]
  | _ => []

variable [Add F] [Sub F] [Mul F] [OfScientific F] [LinearOrder F]

/-- One step of the loop. The configuration of the engine can change between two probes. -/
def Loop.Step (l : Loop F) (a : LoopAction F) (l' : Loop F) : Prop :=
  match a with
  | .binding e =>
    ∃ t, e.op = .binding t ∧ l.manager.Step e l'.manager ∧
      l'.running = l.running ++ Loop.started t e.ret ∧ l'.finished = l.finished
  | .verify k cfg env =>
    ∃ t b, l.running[k]? = some (t, b) ∧
      l' = { l with
        running := l.running.eraseIdx k
        finished := l.finished ++
          [{ task := t, binding := b, signals := (Engine.verify (F := F) cfg env t b).signals }] }
  | .emit k p e =>
    l.finished[k]? = some p ∧ e.op = .emit p.signals ∧ l.manager.Step e l'.manager ∧
      l'.running = l.running ∧ l'.finished = l.finished.eraseIdx k

/-- An execution of the loop. -/
abbrev Loop.Runs (l : Loop F) (as : List (LoopAction F)) (l' : Loop F) : Prop :=
  Run Loop.Step l as l'

end

end Rcptto.Native
