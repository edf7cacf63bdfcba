import Rcptto.Native.Settings
import Rcptto.Native.Wire
import Rcptto.Spec.Engine

/-!
# Remote probes

A client with the token of its agent gets what the engine of the agent reports, unchanged by the
way there and back. That engine has a configuration of its own. Whether it looks for catch-all
servers is not taken from the request, and what the client asks for is not taken from the settings.

## Key results

- `Agent.Server.serve_of_token`: what an agent answers
- `Agent.Client.send_eq`: what the client makes of it
- `Agent.remote_probe_iff`: when a remote probe is one with the value that was asked for
- `Agent.catchAll_not_detected`: an agent that does not look
-/

namespace Rcptto.Native

namespace Agent

variable {F : Type}

/-! ## There and back -/

@[simp] theorem toTask_taskToWire (t : Task) : (taskToWire t).toTask = t := rfl

/-- Signals survive the wire. -/
@[simp] theorem toSignals_signalsToWire (sigs : List Signal) :
    toSignals (signalsToWire sigs) = sigs := by
  unfold toSignals signalsToWire
  rw [List.map_map]
  refine List.map_id'' (fun s => ?_) sigs
  simp [SignalWire.toSignal, signalToWire]

@[simp] theorem VerifyRequest.decode_encode (req : VerifyRequest) : req.encode.decode = req := rfl

@[simp] theorem VerifyResponse.decode_encode (resp : VerifyResponse F) :
    resp.encode.decode = resp := by
  simp [VerifyResponse.encode, ResponseBody.decode]

theorem trimPrefix_append (p s : String) : trimPrefix (p ++ s) p = s := by
  simp [trimPrefix]

theorem Server.authorized_iff {s : Server} {token : String} :
    s.authorized ("Bearer " ++ token) = .ok () ↔ token = s.token := by
  rw [authorized, trimPrefix_append]
  split <;> simp_all

/-! ## What the client gets -/

/-- The request for a task with this value of `DetectCatchAll`. -/
def requestWith (detect : Bool) (t : Task) : VerifyRequest :=
  { Client.request t with detectCatchAll := detect }

variable [OfScientific F]

/-- What a builtin engine with the configuration of the agent but for this value of
    `DetectCatchAll` reports about a task, through the binding of the agent. -/
def Server.builtin (s : Server) (detect : Bool) (env : Engine.Env) (t : Task) :
    Verdict F × List Signal :=
  let r := Engine.verify (s.engine.setDetectCatchAll detect) env t s.binding
  (r.verdict, r.signals)

/-- The engine names the identity of its binding. -/
theorem Server.egressID_builtin (s : Server) (detect : Bool) (env : Engine.Env) (t : Task) :
    (s.builtin (F := F) detect env t).1.egressID = s.identity.id := by
  obtain ⟨⟨status, sub, code, msg, catchAll, -, hverdict⟩, -⟩ :=
    Engine.verify_report (F := F) (s.engine.setDetectCatchAll detect) env t s.binding
  show (Engine.verify (F := F) _ env t s.binding).verdict.egressID = _
  rw [hverdict]
  rfl

/-- An agent probes with its own configuration, whatever value it is sent. -/
theorem Server.handleVerify_requestWith (s : Server) (detect : Bool) (env : Engine.Env) {t : Task}
    (ht : t.email ≠ "") :
    s.handleVerify env (requestWith detect t) = .ok
      { version := protocolVersion
        verdict := (s.builtin (F := F) s.engine.detectCatchAll env t).1
        signals := (s.builtin (F := F) s.engine.detectCatchAll env t).2 } := by
  have hversion : ¬ (requestWith detect t).version ≠ protocolVersion := not_not_intro rfl
  have hemail : ¬ (requestWith detect t).task.email = "" := ht
  rw [handleVerify, if_neg hversion, if_neg hemail]
  -- the stamp of the agent is the identity that the engine has named already
  have hstamp : ∀ v : Verdict F, v.egressID = s.identity.id →
      { v with egressID := s.identity.id } = v := by
    rintro v hv
    rw [← hv]
  rw [← hstamp _ (s.egressID_builtin s.engine.detectCatchAll env t)]
  rfl

/-- What an agent answers to a client with its token. -/
theorem Server.serve_of_token {s : Server} {token : String} (htoken : token = s.token)
    (detect : Bool) (env : Engine.Env) {t : Task} (ht : t.email ≠ "") :
    s.serve env ("Bearer " ++ token) (requestWith detect t).encode = .ok
      (VerifyResponse.encode
        { version := protocolVersion
          verdict := (s.builtin (F := F) s.engine.detectCatchAll env t).1
          signals := (s.builtin (F := F) s.engine.detectCatchAll env t).2 }) := by
  rw [serve, authorized_iff.mpr htoken, VerifyRequest.decode_encode,
    s.handleVerify_requestWith detect env ht]
  rfl

/-- What the client makes of it. -/
theorem Client.send_eq {c : Client} {s : Server} (htoken : c.token = s.token) (detect : Bool)
    (env : Engine.Env) {t : Task} (ht : t.email ≠ "") :
    c.send (s.delivered env) (requestWith detect t) =
      .ok (s.builtin (F := F) s.engine.detectCatchAll env t) := by
  rw [send, Server.delivered, Server.serve_of_token htoken detect env ht]
  simp only [VerifyResponse.decode_encode]

/-! ## A server that takes every recipient -/

/-- A mail server that agrees to everything. -/
def openServer : Rcptto.Native.Server
  | [] => .reply 220 "ready" Response.ready_code
  | _ :: _ => .reply 250 "ok" Response.ok_code

/-- A network in which every dial reaches such a server. -/
def openEnv : Engine.Env where
  network _ := some openServer
  now := 0
  random := none

/-- A task for a domain with one mail server. -/
def openTask : Task where
  email := "a@example.net"
  normalized := "a@example.net"
  domain := "example.net"
  provider := "custom"
  mx := ["mx.example.net"]

/-- An engine finds out that such a server is a catch-all one if it looks. -/
theorem catchAll_verify (cfg : Engine.Config) (eg : Binding) :
    (Engine.verify (F := F) cfg openEnv openTask eg).verdict.checks.catchAll =
      cfg.detectCatchAll := by
  -- the conversation does not depend on the names and the port
  obtain ⟨port, detect, helo, mailFrom⟩ := cfg
  cases detect with
  | false => rfl
  | true => rfl

/-! ## Remote and local probes -/

/-- For a client with the token of its agent, and bodies that are delivered. Whatever value of
    `DetectCatchAll` a request carries, what comes back is the report of a builtin engine with
    the value that the agent is configured with, and it names the agent. It is the report for the
    value that was sent, for every task and every behaviour of the mail servers, exactly if the
    two are the same. And the value that the client sends is the one in force exactly if that one
    is `true`. -/
theorem remote_probe_iff {c : Client} {s : Server} (htoken : c.token = s.token)
    (m : SettingsManager F) (detect : Bool) :
    (∀ env t, t.email ≠ "" →
      c.send (s.delivered env) (requestWith detect t) =
        .ok (s.builtin (F := F) s.engine.detectCatchAll env t) ∧
      (s.builtin (F := F) s.engine.detectCatchAll env t).1.egressID = s.identity.id) ∧
    ((∀ env t, t.email ≠ "" → c.send (s.delivered env) (requestWith detect t) =
        .ok (s.builtin (F := F) detect env t)) ↔ s.engine.detectCatchAll = detect) ∧
    ((∀ exchange t, c.verify (F := F) exchange t =
        c.send exchange (requestWith m.current.detectCatchAll t)) ↔
      m.current.detectCatchAll = true) := by
  refine ⟨fun env t ht => ⟨Client.send_eq htoken detect env ht, s.egressID_builtin _ env t⟩, ?_, ?_⟩
  · constructor
    · intro h
      -- the two values are told apart by a server that takes every recipient
      have hopen := h openEnv openTask (by decide)
      rw [Client.send_eq htoken detect openEnv (by decide), Except.ok.injEq] at hopen
      have hcatchAll := congrArg (fun p : Verdict F × List Signal => p.1.checks.catchAll) hopen
      simp only [Server.builtin, catchAll_verify] at hcatchAll
      exact hcatchAll
    · rintro rfl env t ht
      exact Client.send_eq htoken _ env ht
  · constructor
    · intro h
      -- an exchange that answers with the value it was sent
      have hecho := h (fun _ body => .error (if body.detectCatchAll then "yes" else "no")) openTask
      cases hcurrent : m.current.detectCatchAll with
      | true => rfl
      | false =>
        rw [hcurrent] at hecho
        exact absurd hecho (by simp [Client.verify, Client.send, Client.request, requestWith,
          VerifyRequest.encode])
    · intro h exchange t
      rw [h]
      rfl

/-- An agent that is configured with this value of `DetectCatchAll`. -/
def agentWith (detect : Bool) : Server where
  identity := { id := "w1", ip := "192.0.2.1", helo := "mail.example.org" }
  engine := Engine.new { detectCatchAll := detect }
  token := "secret"

/-- The client of that agent. -/
def soloClient : Client := newClient "https://a.example.org" "secret"

/-- A control plane that was started with this value of `DetectCatchAll`. -/
def settingsWith (detect : Bool) : SettingsManager ℚ :=
  .start { detectCatchAll := detect } .notFound none
    (startUp "mx.example.org" "verify@example.org" 0 [] [("w1", 0)])

/-- A control plane and an agent that both detect catch-all domains. -/
theorem remote_probe_iff_true :
    soloClient.verify ((agentWith true).delivered openEnv) openTask =
      .ok ((agentWith true).builtin (F := ℚ) true openEnv openTask) ∧
    ((agentWith true).builtin (F := ℚ) true openEnv openTask).1.status = .risky := by
  have hremote := remote_probe_iff (c := soloClient) (s := agentWith true) rfl
    (settingsWith true) true
  exact ⟨hremote.2.1.mpr rfl openEnv openTask (by decide), by decide +kernel⟩

/-- An agent that was started without the search for catch-all servers is asked to look for them
    and does not: the address is reported as deliverable, where an engine that looks finds it
    risky. And the client asks for it although the settings turn it off. -/
theorem catchAll_not_detected :
    (soloClient.verify (F := ℚ) ((agentWith false).delivered openEnv) openTask).toOption.map
        (·.1.status) = some .deliverable ∧
    ((agentWith false).builtin (F := ℚ) true openEnv openTask).1.status = .risky ∧
    (Client.request openTask).detectCatchAll = true ∧
    (settingsWith false).current.detectCatchAll = false := by
  refine ⟨by decide +kernel, by decide +kernel, rfl, rfl⟩

end Agent

end Rcptto.Native
