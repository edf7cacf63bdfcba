import Rcptto.Spec.Attribution
import Rcptto.Spec.Breaker
import Rcptto.Spec.Failover
import Rcptto.Spec.Probing

/-!
# Probes that reach nobody

The engine looks only at whether a dial has failed, not at why. If the context of a call is
cancelled while a probe is dialling, every dial fails, and what the engine reports is the same as
for servers that refuse the connection. The feedback is filed for the identity of the binding.

## Key results

- `Engine.verify_signals_of_unreachable`: the feedback of a probe whose dials all fail
- `reputation_kept_iff`: when such a probe costs nothing
-/

namespace Rcptto.Native

variable {F : Type}

/-! ## Reputation -/

/-- The reputation of an identity, if it is registered: health scores, breakers and block
    streak. -/
def Manager.reputation (m : Manager F) (id : String) :
    Option ((String → Option F) × (String → Option Circuit) × Int) :=
  (m.get? id).map fun r => (fun dest => (r.health dest).map (·.score), r.circuits, r.blockStreak)

/-- The signals that reach the manager. -/
def emitted (calls : List ServiceCall) : List Signal :=
  calls.flatMap fun
    | .emit signals => signals
    | _ => []

/-- A failure is counted by the breaker of its destination. -/
theorem Circuit.applySignal_ne {t : Tuning F} {now : Int} {kind : SignalKind}
    (hfailure : kind.isFailure = true) (c : Option Circuit) :
    Circuit.applySignal c t now kind ≠ c := by
  have hsuccess : kind.isSuccess = false := by
    cases kind <;> first | rfl | cases hfailure
  rw [Circuit.applySignal, hsuccess, if_neg (by simp), if_pos hfailure]
  intro heq
  -- the number of failures differs afterwards
  cases c with
  | none => cases heq
  | some c =>
    have hfailures := congrArg Circuit.failures (Option.some.inj heq)
    rw [Option.getD_some, Circuit.onFailure] at hfailures
    dsimp only at hfailures
    split at hfailures <;> simp at hfailures

/-- A failure changes the reputation of its identity, if that is registered. -/
theorem Manager.reputation_emit_iff [Add F] [Sub F] [Mul F] [OfScientific F] {m : Manager F}
    {now : Int} {sig : Signal} (hfailure : sig.kind.isFailure = true) :
    (∀ id, (m.emit now [sig]).reputation id = m.reputation id) ↔
      ¬ (m.get? sig.egressID).isSome := by
  -- a failure always moves the breaker of its destination
  constructor
  · intro hkept hregistered
    obtain ⟨r, hr⟩ := Option.isSome_iff_exists.mp hregistered
    have hsame := hkept sig.egressID
    rw [reputation, reputation, get?_emit hr, hr] at hsame
    simp only [Option.map_some, Option.some.injEq, Prod.mk.injEq] at hsame
    have hcircuit := congrFun hsame.2.1 sig.destination
    rw [Record.applySignals_circuits] at hcircuit
    have hid : r.id = sig.egressID := m.pool.key_eq _ _ hr
    simp only [Circuit.applySignals, List.foldl_cons, List.foldl_nil, hid, and_self,
      if_true] at hcircuit
    exact Circuit.applySignal_ne hfailure _ hcircuit
  · intro hunknown id
    have hnone : m.get? sig.egressID = none := by simpa using hunknown
    rw [emit, List.foldl_cons, List.foldl_nil, emitSignal, hnone]

/-! ## Failed dials -/

variable [OfScientific F]

/-- The feedback of a probe whose dials all fail. -/
theorem Engine.verify_signals_of_unreachable {cfg : Config} {env : Env} {t : Task} (eg : Binding)
    (h : Unreachable env (addresses cfg t.mx)) :
    ∃ sig, (verify (F := F) cfg env t eg).signals = [sig] ∧ sig.kind = .connRefused ∧
      sig.egressID = eg.id := by
  have hreached : reached cfg env t.mx [] = none := by
    rw [reached_eq_none_iff]
    intro j hj
    exact h j (by simpa [addresses] using hj)
  obtain ⟨-, -, -, hkinds⟩ := verify_of_none (F := F) t eg hreached
  obtain ⟨kind, code, detail, hsignals⟩ := verify_signals (F := F) cfg env t eg
  rw [hsignals] at hkinds ⊢
  exact ⟨_, rfl, by simpa [signals] using hkinds, rfl⟩

namespace Service

variable {s : Service} {o : Outside F} {t : Task} (res : Pipeline.Result F)

omit [OfScientific F] in
theorem emitted_waits : emitted (s.waits res t) = [] := by
  unfold waits
  split <;> rfl

/-- What reaches the manager from a local probe whose dials all fail. -/
theorem emitted_probe (hdials : Engine.Unreachable o.env (Engine.addresses s.engine t.mx))
    (hlocal : ∀ eg, o.binding = .ok eg → s.remote eg.id = false) :
    (emitted (s.probe o res t).2 = [] ∧ ¬ ∃ eg, s.Granted o ∧ o.binding = .ok eg) ∨
      ∃ eg sig, s.Granted o ∧ o.binding = .ok eg ∧ emitted (s.probe o res t).2 = [sig] ∧
        sig.kind = .connRefused ∧ sig.egressID = eg.id := by
  -- the wait fails, no identity is found, or the engine is asked
  rcases s.probe_calls o res t with ⟨hdenied, hcalls⟩ | ⟨err, hbinding, hcalls⟩ |
    ⟨eg, hgranted, hbinding, hcalls⟩
  · refine .inl ⟨by rw [hcalls, emitted_waits res], ?_⟩
    rintro ⟨eg, hgranted, -⟩
    exact hdenied hgranted
  · refine .inl ⟨?_, ?_⟩
    · rw [hcalls, emitted, List.flatMap_append]
      exact congrArg (· ++ []) (emitted_waits res)
    · rintro ⟨eg, -, hok⟩
      cases hbinding.symm.trans hok
  · obtain ⟨sig, hsignals, hkind, hid⟩ :=
      Engine.verify_signals_of_unreachable (F := F) eg hdials
    refine .inr ⟨eg, sig, hgranted, hbinding, ?_, hkind, hid⟩
    have hreports : s.reports o t eg = [.emit [sig]] := by
      rw [reports, askEngine, hlocal eg hbinding, if_neg (by simp)]
      dsimp only
      rw [hsignals]
    rw [hcalls, hreports, emitted, List.flatMap_append]
    exact congrArg (· ++ [sig]) (emitted_waits res)

end Service

/-- If every dial of a local probe fails, for whatever reason, every identity keeps its reputation
    exactly if the probe gets no binding of a registered identity. -/
theorem reputation_kept_iff [Add F] [Sub F] [Mul F] (s : Service) (o : Outside F)
    (res : Pipeline.Result F) (t : Task) (m : Manager F) (now : Int)
    (hdials : Engine.Unreachable o.env (Engine.addresses s.engine t.mx))
    (hlocal : ∀ eg, o.binding = .ok eg → s.remote eg.id = false) :
    (∀ id, (m.emit now (emitted (s.probe o res t).2)).reputation id = m.reputation id) ↔
      ¬ ∃ eg, s.Granted o ∧ o.binding = .ok eg ∧ (m.get? eg.id).isSome := by
  -- nothing is reported, or one refused connection is
  rcases Service.emitted_probe res hdials hlocal with
    ⟨hnone, hnot⟩ | ⟨eg, sig, hgranted, hbinding, hsig, hkind, hid⟩
  · rw [hnone]
    exact iff_of_true (fun id => rfl) fun ⟨eg, hgranted, hok, _⟩ => hnot ⟨eg, hgranted, hok⟩
  · rw [hsig, Manager.reputation_emit_iff (by rw [hkind]; rfl), hid, not_iff_not]
    constructor
    · exact fun hregistered => ⟨eg, hgranted, hbinding, hregistered⟩
    · rintro ⟨eg', -, hok, hregistered⟩
      cases hbinding.symm.trans hok
      exact hregistered

/-- The identity `a` is handed out, and every dial fails. -/
def failingDials : Outside ℚ :=
  { plainOutside ℚ with binding := .ok { id := "a", helo := "", mailFrom := "", transport := {} } }

/-- What the funnel found for `gmailTask`. -/
def gmailResult : Pipeline.Result ℚ where
  outcome := .inr gmailTask
  checks := {}
  provider := "gmail"
  mx := gmailTask.mx

theorem failingDials_unreachable (cfg : Engine.Config) (addrs : List String) :
    Engine.Unreachable failingDials.env (Engine.addresses cfg addrs) :=
  fun _ _ => rfl

/-- A context that is cancelled during the wait for the limiter costs nothing, since no engine is
    asked. -/
theorem reputation_kept_waiting :
    let s : Service := { plainService with limiting := true }
    let o : Outside ℚ := { failingDials with wait := .error .ctx }
    let m := Manager.new soloConfig 0
    (m.get? "a").isSome ∧
      ∀ id, (m.emit 0 (emitted (s.probe o gmailResult gmailTask).2)).reputation id =
        m.reputation id := by
  intro s o m
  have hwaiting : ¬ s.Granted o := fun hgranted => by cases hgranted rfl
  have hkept := reputation_kept_iff s o gmailResult gmailTask m 0 (failingDials_unreachable _ _)
    fun _ _ => rfl
  exact ⟨rfl, hkept.mpr fun ⟨_, hgranted, _⟩ => hwaiting hgranted⟩

/-- One that is cancelled while the probe is dialling costs as much as a server that refuses the
    connection: one such probe is counted by the breaker, and three open it. -/
theorem cancelled_dials_counted :
    Engine.Unreachable failingDials.env (Engine.addresses plainService.engine gmailTask.mx) ∧
    let m := Manager.new soloConfig 0
    let signals := emitted (plainService.probe failingDials gmailResult gmailTask).2
    (m.reputation "a").map (fun p => (p.1 "gmail", p.2.1 "gmail")) = some (none, none) ∧
    ((m.emit 0 signals).reputation "a").map (fun p => (p.1 "gmail", p.2.1 "gmail")) =
      some (some 0.85, some { failures := 1 }) ∧
    ((m.emit 0 (signals ++ signals ++ signals)).reputation "a").map (fun p => p.2.1 "gmail") =
      some (some { state := .opened, failures := 3, openUntil := 15 * minute }) := by
  refine ⟨failingDials_unreachable _ _, ?_, ?_, ?_⟩
  all_goals decide +kernel

end Rcptto.Native
