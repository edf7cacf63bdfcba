import Rcptto.Native.System

/-!
# DNSBL audits

`AuditDNSBL` of `internal/egress/manager.go` takes a snapshot of the identities under the
lock, looks their addresses up without it, and calls `Quarantine` for each one that is
listed. Any number of audits can be under way, and between any two of their steps the
manager serves other calls. `Fleet` is a manager with its audits under way, and
`Fleet.Step` one step of it.

What a lookup finds is not up to the program: `audit.DNSBL.Check` returns the zones that
list the address, here any list of texts. It never returns an error.
-/

namespace Rcptto.Native

/-- The `item` of `AuditDNSBL`: an identity as the snapshot saw it. -/
structure AuditItem where
  id : String
  ip : String
  disabled : Bool
  deriving DecidableEq

/-- The loop body of `AuditDNSBL` up to the call of `Quarantine`: the arguments of the call,
    if there is one, when the lookup found the zones `listed`. -/
def AuditItem.check (item : AuditItem) (listed : List String) : Option (String × String) :=
  if item.ip = "" ∨ item.disabled then none
  else if listed = [] then none
  else some (item.id, "dnsbl:" ++ ",".intercalate listed)

/-- An audit under way: the items still to be checked, and the call of `Quarantine` that the
    last lookup has led to and that has not been made yet. -/
structure Audit where
  items : List AuditItem
  call : Option (String × String) := none
  deriving DecidableEq

section Fleet

variable {F : Type}

/-- The snapshot of `AuditDNSBL`. -/
def Manager.auditItems (m : Manager F) : List AuditItem :=
  m.pool.order.filterMap fun id =>
    (m.get? id).map fun r => { id := id, ip := r.spec.ip, disabled := r.state = .disabled }

/-- A manager and the audits under way. -/
structure Fleet (F : Type) where
  manager : Manager F
  audits : List Audit := []

/-- What can happen next: a call to the manager, or a step of an audit. -/
inductive Action (F : Type) where
  | call (e : Event F)
  | auditSnapshot
  | auditCheck (k : Nat) (listed : List String)
  | auditQuarantine (k : Nat) (e : Event F)

/-- The call to the manager that an action makes, if any. -/
def Action.event : Action F → Option (Event F)
  | .call e => some e
  | .auditQuarantine _ e => some e
  | _ => none

variable [Add F] [Sub F] [Mul F] [OfScientific F] [LinearOrder F]

/-- One step of a manager with its audits. -/
def Fleet.Step (s : Fleet F) (a : Action F) (s' : Fleet F) : Prop :=
  match a with
  | .call e => s.manager.Step e s'.manager ∧ s'.audits = s.audits
  | .auditSnapshot => s' = { s with audits := s.audits ++ [{ items := s.manager.auditItems }] }
  -- the lookup goes by the snapshot, whatever has happened to the identity since
  | .auditCheck k listed =>
    ∃ item items, s.audits[k]? = some { items := item :: items } ∧
      s' = { s with audits := s.audits.set k { items := items, call := item.check listed } }
  | .auditQuarantine k e =>
    ∃ items id reason, s.audits[k]? = some { items := items, call := some (id, reason) } ∧
      e.op = .quarantine id reason ∧ s.manager.Step e s'.manager ∧
      s'.audits = s.audits.set k { items := items }

/-- An execution of a manager with its audits. -/
abbrev Fleet.Runs (s : Fleet F) (as : List (Action F)) (s' : Fleet F) : Prop :=
  Run Fleet.Step s as s'

end Fleet

end Rcptto.Native
