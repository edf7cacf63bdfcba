import Rcptto.ForStd.Run
import Rcptto.Native.Manager

/-!
# The manager as a transition system

Many goroutines call the manager concurrently. Every operation runs under its lock,
so an execution is a sequence of operations, each at its own clock reading: a `Run`
of `Manager.Step`, whose labels record the state an operation found, when it ran,
which one it was and what it returned.

`AuditDNSBL` is the one entry point that does not hold the lock throughout. Its
snapshot, each of its lookups and each of its `Quarantine` calls are separate steps,
so that other operations can come in between (`Native.Audit`).
-/

namespace Rcptto.Native

/-- The operations of the manager that change its state, with their arguments. -/
inductive Op (F : Type) where
  | binding (t : Task)
  | emit (signals : List Signal)
  | enable (id : String)
  | disable (id reason : String)
  | quarantine (id reason : String)
  | setOnline (id : String) (online : Bool)
  | addIdentity (spec : Spec)
  | setThresholds (quarantine circuit : Int)
  | restore (states : List (EgressState F))

/-- What an operation returns: `Binding` a binding or an error, the others nothing. -/
abbrev Ret := Option (Except EgressError Binding)

section Step

variable {F : Type} [Add F] [Sub F] [Mul F] [OfScientific F] [LinearOrder F]

/-- One operation at the clock reading `now`; `none` is a panic. -/
def Manager.exec (m : Manager F) (now : Int) : Op F → Option (Manager F × Ret)
  | .binding t => (m.binding now t).map fun (m', ret) => (m', some ret)
  | .emit signals => some (m.emit now signals, none)
  | .enable id => some (m.enable id, none)
  | .disable id reason => some (m.disable id reason, none)
  | .quarantine id reason => some (m.quarantine now id reason, none)
  | .setOnline id online => some (m.setOnline id online, none)
  | .addIdentity spec => some (m.addIdentity now spec, none)
  | .setThresholds quarantine circuit => some (m.setThresholds quarantine circuit, none)
  | .restore states => some (m.restore states, none)

/-- An executed operation: the manager it found, the clock, the call and its result. -/
structure Event (F : Type) where
  pre : Manager F
  now : Int
  op : Op F
  ret : Ret

/-- The event is a `Binding` that returned the identity `i`. -/
def Event.returns (e : Event F) (i : String) : Bool :=
  match e.ret with
  | some (.ok b) => b.id = i
  | _ => false

/-- One step of the manager. -/
def Manager.Step (m : Manager F) (e : Event F) (m' : Manager F) : Prop :=
  e.pre = m ∧ m.exec e.now e.op = some (m', e.ret)

/-- An execution of the manager. -/
abbrev Manager.Runs (m : Manager F) (es : List (Event F)) (m' : Manager F) : Prop :=
  Run Manager.Step m es m'

/-- The clock of an execution that starts at `start` never goes backwards. -/
def Monotone (start : Int) (es : List (Event F)) : Prop :=
  (start :: es.map Event.now).Pairwise (· ≤ ·)

instance (start : Int) (es : List (Event F)) : Decidable (Monotone start es) :=
  inferInstanceAs (Decidable (List.Pairwise _ _))

/-- The execution of a script of calls, each with its clock reading. -/
def Manager.perform (m : Manager F) : List (Int × Op F) → Option (List (Event F) × Manager F)
  | [] => some ([], m)
  | (now, op) :: calls =>
    match m.exec now op with
    | none => none
    | some (m', ret) =>
      (m'.perform calls).map fun (es, m'') =>
        ({ pre := m, now := now, op := op, ret := ret } :: es, m'')

/-- What `perform` returns is an execution of the script. -/
theorem Manager.runs_of_perform {m m' : Manager F} {calls : List (Int × Op F)}
    {es : List (Event F)} (h : m.perform calls = some (es, m')) :
    m.Runs es m' ∧ es.map (fun e => (e.now, e.op)) = calls := by
  induction calls generalizing m es with
  | nil =>
    simp only [perform, Option.some.injEq, Prod.mk.injEq] at h
    obtain ⟨rfl, rfl⟩ := h
    exact ⟨.nil _, rfl⟩
  | cons call calls ih =>
    obtain ⟨now, op⟩ := call
    rw [perform] at h
    -- a call that cannot be carried out ends the script
    cases hexec : m.exec now op with
    | none => simp [hexec] at h
    | some res =>
      obtain ⟨m₁, ret⟩ := res
      simp only [hexec, Option.map_eq_some_iff, Prod.exists, Prod.mk.injEq] at h
      obtain ⟨es', m'', hrest, rfl, rfl⟩ := h
      obtain ⟨hrun, hcalls⟩ := ih hrest
      exact ⟨.cons ⟨rfl, hexec⟩ hrun, by rw [List.map_cons, hcalls]⟩

/-- An execution of a script, of which an observation `g` of every event and an observation
    `x` of the manager at the end have been computed. -/
theorem Manager.exists_runs {α β : Type*} (m : Manager F) (calls : List (Int × Op F))
    (g : Event F → α) (x : Manager F → β) (out : List α) (y : β)
    (hg : (m.perform calls).map (fun p => p.1.map g) = some out)
    (hx : (m.perform calls).map (fun p => x p.2) = some y) :
    ∃ es m', m.Runs es m' ∧ es.map (fun e => (e.now, e.op)) = calls ∧ es.map g = out ∧
      x m' = y := by
  simp only [Option.map_eq_some_iff, Prod.exists] at hg
  obtain ⟨es, m', hperform, hout⟩ := hg
  rw [hperform, Option.map_some, Option.some.injEq] at hx
  obtain ⟨hrun, hcalls⟩ := runs_of_perform hperform
  exact ⟨es, m', hrun, hcalls, hout, hx⟩

/-- The execution of a script of two calls, step by step. -/
theorem Manager.exists_steps {α : Type*} (m : Manager F) (c₁ c₂ : Int × Op F) (g : Event F → α)
    (y₁ y₂ : α) (hg : (m.perform [c₁, c₂]).map (fun p => p.1.map g) = some [y₁, y₂]) :
    ∃ e₁ m₁ e₂ m₂, m.Step e₁ m₁ ∧ m₁.Step e₂ m₂ ∧ (e₁.now = c₁.1 ∧ e₁.op = c₁.2) ∧
      (e₂.now = c₂.1 ∧ e₂.op = c₂.2) ∧ g e₁ = y₁ ∧ g e₂ = y₂ := by
  simp only [Option.map_eq_some_iff, Prod.exists] at hg
  obtain ⟨es, m₂, hperform, hout⟩ := hg
  obtain ⟨hrun, hcalls⟩ := runs_of_perform hperform
  obtain ⟨e₁, rest, rfl, h₁, hrest⟩ := List.map_eq_cons_iff.mp hcalls
  obtain ⟨e₂, rest, rfl, h₂, hnil⟩ := List.map_eq_cons_iff.mp hrest
  obtain rfl := List.map_eq_nil_iff.mp hnil
  obtain ⟨m₁, hstep₁, hrun₁⟩ := Run.cons_iff.mp hrun
  have hstep₂ := Run.singleton_iff.mp hrun₁
  simp only [List.map_cons, List.map_nil, List.cons.injEq, and_true] at hout
  subst h₁ h₂
  exact ⟨e₁, m₁, e₂, m₂, hstep₁, hstep₂, ⟨rfl, rfl⟩, ⟨rfl, rfl⟩, hout⟩

end Step

end Rcptto.Native
