import Mathlib
import Rcptto.Native.Engine
import Rcptto.Native.Manager

/-!
# The builtin engine

Every conversation with a mail server, however it ends, gives a verdict about the address that
was asked for and exactly one signal, about the identity it was made with. Its destination is
computed by the engine on its own, and it is the key that the manager uses for the task exactly
when the provider class of the task is not `custom`.

## Key results

- `Engine.probeHost_report`: what a conversation comes to, for any server
- `Engine.verify_report`, `Engine.verify_signals`: what a probe comes to, for any network
- `Engine.destination_eq_destOf_iff`: when the engine and the manager use the same key
-/

open Std.Do

namespace Rcptto.Native

set_option mvcgen.warning false

namespace Engine

variable {F : Type} [OfScientific F] (cfg : Config) (env : Env) (t : Task) (eg : Binding)

/-! ## Reports -/

/-- A verdict of the engine's making: about the address of the task, with one of the four
    statuses and the confidence that belongs to it. -/
def Judges (v : Verdict F) : Prop :=
  ∃ status sub code msg catchAll,
    status.valid = true ∧ v = result env t eg status sub code msg catchAll

/-- Signals of the engine's making: one, about the identity of the binding. -/
def Reports (t : Task) (eg : Binding) (ss : List Signal) : Prop :=
  ∃ kind code detail, ss = signals eg kind t code detail

/-- The reasons that the engine gives. -/
def reasons : List SubStatus :=
  [.validMailbox, .fullMailbox, .mailboxNotFound, .catchAll, .greylisted, .blocked,
    .temporaryFailure, .noConnect]

/-- The ways in which a conversation can end: the status and the reason of the verdict, and the
    kind of the signal. -/
def conclusions : List (Status × SubStatus × SignalKind) :=
  [(.deliverable, .validMailbox, .accepted), (.risky, .fullMailbox, .accepted),
    (.risky, .catchAll, .accepted), (.undeliverable, .mailboxNotFound, .mailboxGone),
    (.unknown, .greylisted, .tempFail), (.unknown, .blocked, .blocked),
    (.unknown, .temporaryFailure, .tempFail)]

/-- A verdict and signals of the engine's making that end a probe in one of the given ways. -/
def Concludes (cs : List (Status × SubStatus × SignalKind)) (p : Verdict F × List Signal) :
    Prop :=
  ∃ status sub kind, (status, sub, kind) ∈ cs ∧ ∃ code msg catchAll code' detail,
    p = (result env t eg status sub code msg catchAll, signals eg kind t code' detail)

/-- Every reply to a recipient leads to one of the conclusions. -/
theorem classifyRCPT_mem (code : Int) (msg : String) :
    ((classifyRCPT code msg).status, (classifyRCPT code msg).subStatus,
      (classifyRCPT code msg).signal) ∈ conclusions := by
  unfold classifyRCPT
  dsimp only
  split_ifs <;> decide

/-- A catch-all server makes a deliverable address risky, and leaves the signal as it is. -/
theorem catchAll_mem {code : Int} {msg : String} (catchAll : Bool)
    (h : (classifyRCPT code msg).status = .deliverable) :
    (if catchAll = true then .risky else (classifyRCPT code msg).status,
      if catchAll = true then .catchAll else (classifyRCPT code msg).subStatus,
      (classifyRCPT code msg).signal) ∈ conclusions := by
  -- only one conclusion is deliverable, and its signal is an acceptance
  cases catchAll with
  | false => exact classifyRCPT_mem code msg
  | true =>
    have hmem := classifyRCPT_mem code msg
    rw [h] at hmem
    have hout : (classifyRCPT code msg).subStatus = .validMailbox ∧
        (classifyRCPT code msg).signal = .accepted := by
      simpa [conclusions] using hmem
    rw [if_pos rfl, if_pos rfl, hout.2]
    decide

/-- Whatever the server answers, a conversation ends in one of the ways listed. -/
theorem probeHost_concludes :
    ⦃⌜True⌝⦄ probeHost (F := F) cfg env t eg ⦃⇓ p => ⌜Concludes env t eg conclusions p⌝⦄ := by
  mvcgen [probeHost, greet, mailFrom, detectCatchAll, Session.greeting, Session.command,
    Session.quit]
  all_goals
    refine ⟨_, _, _, ?_, _, _, _, _, _, rfl⟩
    first
    | decide
    | exact classifyRCPT_mem _ _
    | -- only an accepted recipient is followed by the search for a catch-all server
      rename_i hcheck _ _
      simp only [Bool.and_eq_true, decide_eq_true_eq] at hcheck
      exact catchAll_mem _ hcheck.1

/-- A probe that reaches nobody. -/
theorem noConnect_concludes (detail : String) :
    Concludes (F := F) env t eg [(.unknown, .noConnect, .connRefused)]
      (result env t eg .unknown .noConnect 0 "" false, signals eg .connRefused t 0 detail) :=
  ⟨_, _, _, by simp, _, _, _, _, _, rfl⟩

variable {env t eg} in
theorem Concludes.mono {cs cs' : List (Status × SubStatus × SignalKind)}
    {p : Verdict F × List Signal} (h : Concludes env t eg cs p) (hcs : cs ⊆ cs') :
    Concludes env t eg cs' p := by
  obtain ⟨status, sub, kind, hmem, hp⟩ := h
  exact ⟨status, sub, kind, hcs hmem, hp⟩

/-- The conversation with the first server that is reached ends in one of the ways listed, and
    so does the search for one. -/
theorem probeHosts_concludes (hosts dialled : List String) :
    Concludes env t eg ((.unknown, .noConnect, .connRefused) :: conclusions)
      ((probeHosts (F := F) cfg env t eg hosts dialled).verdict,
        (probeHosts (F := F) cfg env t eg hosts dialled).signals) := by
  -- by induction on the hosts that are left to dial
  induction hosts generalizing dialled with
  | nil => exact (noConnect_concludes env t eg _).mono (by simp)
  | cons host hosts ih =>
    unfold probeHosts
    dsimp only
    split
    · exact ih _
    · next server _ =>
      have hprobe : Concludes env t eg conclusions
          ((probeHost (F := F) cfg env t eg).run { server := server }).1 :=
        probeHost_concludes (F := F) cfg env t eg { server := server } trivial
      exact hprobe.mono (List.subset_cons_self ..)

/-- Every verification ends with one of the conclusions, or without a connection. -/
theorem verify_concludes :
    Concludes env t eg ((.unknown, .noConnect, .connRefused) :: conclusions)
      ((verify (F := F) cfg env t eg).verdict, (verify (F := F) cfg env t eg).signals) := by
  unfold verify
  split
  · exact (noConnect_concludes env t eg _).mono (by simp)
  · exact probeHosts_concludes ..

/-- A probe ends with a verdict and a signal of the engine's making. -/
theorem verify_report :
    Judges env t eg (verify (F := F) cfg env t eg).verdict ∧
      Reports t eg (verify (F := F) cfg env t eg).signals ∧
      (verify (F := F) cfg env t eg).verdict.subStatus ∈ reasons := by
  obtain ⟨status, sub, kind, hmem, code, msg, catchAll, code', detail, hp⟩ :=
    verify_concludes (F := F) cfg env t eg
  obtain ⟨hverdict, hsignals⟩ := Prod.mk.inj hp
  rw [hverdict, hsignals]
  have hlist : ∀ c ∈ (.unknown, .noConnect, .connRefused) :: conclusions,
      Status.valid c.1 = true ∧ c.2.1 ∈ reasons := by
    decide
  obtain ⟨hvalid, hreason⟩ := hlist _ hmem
  exact ⟨⟨_, _, _, _, _, hvalid, rfl⟩, ⟨_, _, _, rfl⟩, hreason⟩

/-- A probe ends with one signal, about the identity of its binding. -/
theorem verify_signals : ∃ kind code detail,
    (verify (F := F) cfg env t eg).signals = signals eg kind t code detail :=
  (verify_report cfg env t eg).2.1

/-! ## Verdicts and signals -/

/-- The kinds of signals that go with a status. -/
def pairedKinds : Status → List SignalKind
  | .deliverable | .risky => [.accepted]
  | .undeliverable => [.mailboxGone]
  | .unknown => [.blocked, .tempFail, .connRefused]
  | .other _ _ => []

/-- Every probe gives exactly one signal, about the identity that the verdict names too, and of
    a kind that goes with the verdict on the address it was asked about. -/
theorem verify_paired : ∃ sig, (verify (F := F) cfg env t eg).signals = [sig] ∧
    sig.egressID = eg.id ∧ (verify (F := F) cfg env t eg).verdict.egressID = eg.id ∧
    (verify (F := F) cfg env t eg).verdict.email = t.email ∧
    sig.kind ∈ pairedKinds (verify (F := F) cfg env t eg).verdict.status := by
  obtain ⟨status, sub, kind, hmem, code, msg, catchAll, code', detail, hp⟩ :=
    verify_concludes (F := F) cfg env t eg
  obtain ⟨hverdict, hsignals⟩ := Prod.mk.inj hp
  rw [hverdict, hsignals]
  have hlist : ∀ c ∈ (.unknown, .noConnect, .connRefused) :: conclusions,
      c.2.2 ∈ pairedKinds c.1 := by
    decide
  exact ⟨_, rfl, rfl, rfl, rfl, hlist _ hmem⟩

/-! ## Destinations -/

theorem firstNonEmpty_pair (a b : String) : firstNonEmpty [a, b] = if a ≠ "" then a else b := by
  unfold firstNonEmpty
  by_cases ha : a = ""
  · by_cases hb : b = "" <;> simp [ha, hb]
  · simp [ha]

/-- The engine files the signals of the task under the key that `Binding` reads: the provider
    class is not `custom`, unless the domain is spelled the same. -/
def SameKey (t : Task) : Prop := t.provider ≠ "custom" ∨ t.domain = "custom"

instance : Decidable (SameKey t) := inferInstanceAs (Decidable (_ ∨ _))

/-- The engine and the manager use the same destination for a task. -/
theorem destination_eq_destOf_iff :
    firstNonEmpty [t.provider, t.domain] = destOf t ↔ SameKey t := by
  rw [firstNonEmpty_pair, destOf, SameKey]
  by_cases hempty : t.provider = ""
  · simp [hempty]
  · by_cases hcustom : t.provider = "custom"
    · -- the manager goes on to the domain, the engine does not
      simp [hcustom]
      exact eq_comm
    · simp [hempty, hcustom]

end Engine

end Rcptto.Native
