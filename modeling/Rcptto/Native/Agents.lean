import Rcptto.Native.Loop
import Rcptto.Native.Startup

/-!
# Probe agents

`internal/worker`: an agent on another machine owns one egress address and probes from it on
behalf of the control plane. The control plane keeps a registry of the configured agents, polls
their health, and sends the probes of an identity to the agent that is configured for it.

What is sent is JSON; the model passes on the values. A response is whatever decodes into one.
-/

namespace Rcptto.Native

namespace Agent

/-! ## The protocol -/

/-- `ProtocolVersion`. -/
def protocolVersion : Int := 1

/-- `VerifyRequest`. -/
structure VerifyRequest where
  version : Int
  task : Task
  detectCatchAll : Bool
  deriving DecidableEq

/-- `VerifyResponse`. -/
structure VerifyResponse (F : Type) where
  version : Int
  verdict : Verdict F
  signals : List Signal

/-- `HealthResponse`. -/
structure HealthResponse where
  version : Int
  id : String
  ip : String
  helo : String
  region : String
  asn : String
  deriving DecidableEq

/-! ## Agents -/

/-- `Identity`: the egress identity that an agent owns. -/
structure Identity where
  id : String
  ip : String := ""
  helo : String := ""
  mailFrom : String := ""
  region : String := ""
  asn : String := ""
  deriving DecidableEq

/-- `Server`: an agent with its engine and the token it asks for. -/
structure Server where
  identity : Identity
  engine : Engine.Config
  token : String
  deriving DecidableEq

/-- The errors of `NewServer`; an engine is always given. -/
inductive ServerError where
  | idRequired
  | tokenRequired
  deriving DecidableEq

/-- `NewServer`. -/
def Server.new (cfg : Server) : Except ServerError Server :=
  if cfg.identity.id = "" then .error .idRequired
  else if cfg.token = "" then .error .tokenRequired
  else .ok cfg

/-- The status and the text of a response other than 200. -/
structure HTTPError where
  code : Nat
  text : String
  deriving DecidableEq

/-- `strings.TrimPrefix(s, p)`. -/
def trimPrefix (s p : String) : String :=
  if p.toList <+: s.toList then .ofList (s.toList.drop p.toList.length) else s

/-- `authMiddleware`, for a request with this `Authorization` header. -/
def Server.authorized (s : Server) (header : String) : Except HTTPError Unit :=
  if trimPrefix header "Bearer " = s.token then .ok () else .error ⟨401, "unauthorized\n"⟩

/-- `handleHealth`. -/
def Server.handleHealth (s : Server) : HealthResponse where
  version := protocolVersion
  id := s.identity.id
  ip := s.identity.ip
  helo := s.identity.helo
  region := s.identity.region
  asn := s.identity.asn

/-- `binding`: the agent dials from its own address. -/
def Server.binding (s : Server) : Binding where
  id := s.identity.id
  helo := s.identity.helo
  mailFrom := s.identity.mailFrom
  transport := { localAddr := if s.identity.ip ≠ "" then some s.identity.ip else none }

/-- `handleVerify`, for a body that decodes. -/
def Server.handleVerify {F : Type} [OfScientific F] (s : Server) (env : Engine.Env)
    (req : VerifyRequest) : Except HTTPError (VerifyResponse F) :=
  if req.version ≠ protocolVersion then
    .error ⟨400, "unsupported protocol version " ++ toString req.version ++
      "; this agent speaks " ++ toString protocolVersion ++ "\n"⟩
  else if req.task.email = "" then .error ⟨400, "task.email is required\n"⟩
  else
    let r := Engine.verify s.engine env req.task s.binding
    .ok
      { version := protocolVersion
        -- the agent stamps the verdict itself
        verdict := { r.verdict with egressID := s.identity.id }
        signals := r.signals }

/-! ## The registry -/

/-- `AgentConfig`. -/
structure AgentConfig where
  id : String
  baseURL : String
  token : String
  deriving DecidableEq

/-- `lastErr`: empty, the error of `Health`, or that the agent reports another id. -/
inductive LastErr where
  | none
  | health (err : String)
  | mismatch (reported configured : String)
  deriving DecidableEq

/-- `agentState`. The client is determined by the configuration. -/
structure AgentState where
  cfg : AgentConfig
  online : Bool := false
  ip : String := ""
  helo : String := ""
  region : String := ""
  asn : String := ""
  lastErr : LastErr := .none
  lastSeen : Int := 0
  deriving DecidableEq

/-- The state of an agent after a health check with this answer. -/
def AgentState.checked (a : AgentState)
    (answer : Except String HealthResponse) (now : Int) : AgentState :=
  match answer with
  | .error err => { a with online := false, lastErr := .health err }
  | .ok health =>
    if health.id ≠ a.cfg.id then
      -- the agent serves another egress than the one it is configured for
      { a with online := false, lastErr := .mismatch health.id a.cfg.id }
    else
      { a with
        online := true
        lastErr := .none
        ip := health.ip
        helo := health.helo
        region := health.region
        asn := health.asn
        lastSeen := now }

/-- A check does not change the configuration of an agent. -/
@[simp] theorem AgentState.checked_cfg (a : AgentState) (answer : Except String HealthResponse)
    (now : Int) : (a.checked answer now).cfg = a.cfg := by
  unfold AgentState.checked
  split
  · rfl
  · split <;> rfl

/-- `AgentInfo`. -/
structure AgentInfo where
  id : String
  baseURL : String
  online : Bool
  ip : String
  helo : String
  region : String
  asn : String
  lastErr : LastErr
  lastSeen : Int
  deriving DecidableEq

/-- The view of an agent that `check` and `Agents` give out. -/
def AgentState.info (a : AgentState) : AgentInfo where
  id := a.cfg.id
  baseURL := a.cfg.baseURL
  online := a.online
  ip := a.ip
  helo := a.helo
  region := a.region
  asn := a.asn
  lastErr := a.lastErr
  lastSeen := a.lastSeen

/-- `Client`: where an agent is and the token it is sent. -/
structure Client where
  baseURL : String
  token : String
  deriving DecidableEq

/-- `NewClient`, which drops one slash at the end of the URL. -/
def newClient (baseURL token : String) : Client where
  baseURL :=
    if baseURL.toList.getLast? = some '/' then .ofList baseURL.toList.dropLast else baseURL
  token := token

/-- The request that `Client.Verify` sends. The binding is not part of it. -/
def Client.request (t : Task) : VerifyRequest where
  version := protocolVersion
  task := t
  detectCatchAll := true

/-- `Registry`. -/
abbrev Registry := OrderedMap String AgentState (·.cfg.id)

/-- The errors of `NewRegistry`. -/
inductive RegistryError where
  | incomplete (id url : String)
  | duplicate (id : String)
  deriving DecidableEq

namespace Registry

/-- The loop of `NewRegistry` over the rest of the configuration. -/
def addAll (r : Registry) : List AgentConfig → Except RegistryError Registry
  | [] => .ok r
  | cfg :: cfgs =>
    if cfg.id = "" ∨ cfg.baseURL = "" then .error (.incomplete cfg.id cfg.baseURL)
    else if (r.get? cfg.id).isSome then .error (.duplicate cfg.id)
    else addAll (r.push { cfg := cfg }) cfgs

/-- `NewRegistry`: agents start offline. -/
def new (cfgs : List AgentConfig) : Except RegistryError Registry := addAll .empty cfgs

/-- `EngineFor`: the client of the agent that serves an identity, whether it is online or not. -/
def engineFor (r : Registry) (id : String) : Option Client :=
  (r.get? id).map fun a => newClient a.cfg.baseURL a.cfg.token

/-- `IsRemote`. -/
def isRemote (r : Registry) (id : String) : Bool := (r.get? id).isSome

/-- `check`, with the answer of `Health`: the registry afterwards, and the view of the agent if
    its online state changed. -/
def check (r : Registry) (id : String) (answer : Except String HealthResponse) (now : Int) :
    Registry × Option AgentInfo :=
  match r.get? id with
  | none => (r, none)
  | some a =>
    let a' := a.checked answer now
    (r.modify id (·.checked answer now) fun a h => by rw [a.checked_cfg]; exact h,
      if a.online ≠ a'.online then some a'.info else none)

end Registry

/-- The callback of `HealthLoop` in `run`: the calls to the manager that it makes, in order. -/
def onChange {F : Type} (info : AgentInfo) : List (Op F) :=
  .setOnline info.id info.online ::
    if info.online then [.addIdentity { id := info.id, ip := info.ip, helo := info.helo }] else []

end Agent

/-! ## The control plane -/

/-- The control plane with its agents: the probes under way, the registry, and the calls that
    callbacks of health checks still have to make. -/
structure ControlPlane (F : Type) where
  loop : Loop F
  registry : Agent.Registry
  callbacks : List (List (Op F)) := []

/-- The control plane at the end of start-up, with the registry that `NewRegistry` returned. -/
def ControlPlane.startUp {F : Type} [OfScientific F] [LinearOrder F] (helo mailFrom : String)
    (start : Int) (states : List (EgressState F)) (agents : List (String × Int))
    (registry : Agent.Registry) : ControlPlane F where
  loop := { manager := Native.startUp helo mailFrom start states agents }
  registry := registry

/-- What can happen next: a step of a probe on the side of the control plane, the answer of an
    agent to a probe or its failure, a health check, a call of a callback, or another call to the
    manager. -/
inductive PlaneAction (F : Type) where
  | loop (a : LoopAction F)
  | answer (k : Nat) (response : Option (Agent.VerifyResponse F))
  | check (id : String) (answer : Except String Agent.HealthResponse) (now : Int)
  | callback (k : Nat) (e : Event F)
  | manage (e : Event F)

/-- A call to the manager that neither hands out an identity nor takes in signals. -/
def Op.Administers {F : Type} : Op F → Prop
  | .binding _ => False
  | .emit _ => False
  | _ => True

/-- A `Verify` of the builtin engine is for an identity of this machine. -/
def LoopAction.Local {F : Type} (r : Agent.Registry) (l : Loop F) : LoopAction F → Prop
  | .verify k _ _ => ∀ t b, l.running[k]? = some (t, b) → r.engineFor b.id = none
  | _ => True

section Step

variable {F : Type} [Add F] [Sub F] [Mul F] [OfScientific F] [LinearOrder F]

/-- One step of the control plane. -/
def ControlPlane.Step (l : ControlPlane F) (a : PlaneAction F) (l' : ControlPlane F) : Prop :=
  match a with
  | .loop a =>
    a.Local l.registry l.loop ∧ l.loop.Step a l'.loop ∧ l'.registry = l.registry ∧
      l'.callbacks = l.callbacks
  | .answer k response =>
    ∃ t b, l.loop.running[k]? = some (t, b) ∧ (l.registry.engineFor b.id).isSome ∧
      l' = { l with
        loop := { l.loop with
          running := l.loop.running.eraseIdx k
          -- an agent that fails leaves no signals to emit
          finished := l.loop.finished ++ response.toList.map fun resp =>
            { task := t, binding := b, signals := resp.signals } } }
  | .check id answer now =>
    l' = { l with
      registry := (l.registry.check id answer now).1
      callbacks := l.callbacks ++ ((l.registry.check id answer now).2.toList.map Agent.onChange) }
  | .callback k e =>
    ∃ rest, l.callbacks[k]? = some (e.op :: rest) ∧ l.loop.manager.Step e l'.loop.manager ∧
      l' = { l with
        loop := { l.loop with manager := l'.loop.manager }
        callbacks := l.callbacks.set k rest }
  | .manage e =>
    e.op.Administers ∧ l.loop.manager.Step e l'.loop.manager ∧
      l' = { l with loop := { l.loop with manager := l'.loop.manager } }

/-- An execution of the control plane. -/
abbrev ControlPlane.Runs (l : ControlPlane F) (as : List (PlaneAction F)) (l' : ControlPlane F) :
    Prop :=
  Run ControlPlane.Step l as l'

/-- The steps of a script, with the clock readings of the calls to the manager. -/
inductive PlaneCall (F : Type) where
  | binding (now : Int) (t : Task)
  | answer (k : Nat) (response : Option (Agent.VerifyResponse F))
  | emit (now : Int) (k : Nat)
  | check (id : String) (answer : Except String Agent.HealthResponse) (now : Int)
  | callback (now : Int) (k : Nat)

/-- A step of a script: the action that it is, and the control plane afterwards. -/
def ControlPlane.exec (l : ControlPlane F) : PlaneCall F → Option (PlaneAction F × ControlPlane F)
  | .binding now t =>
    (l.loop.manager.exec now (.binding t)).map fun (m, ret) =>
      (.loop (.binding { pre := l.loop.manager, now := now, op := .binding t, ret := ret }),
        { l with loop :=
          { l.loop with manager := m, running := l.loop.running ++ Loop.started t ret } })
  | .answer k response =>
    match l.loop.running[k]? with
    | none => none
    | some (t, b) =>
      -- only a probe that was sent to an agent can be answered by one
      if (l.registry.engineFor b.id).isSome then
        some (.answer k response, { l with
          loop := { l.loop with
            running := l.loop.running.eraseIdx k
            finished := l.loop.finished ++ response.toList.map fun resp =>
              { task := t, binding := b, signals := resp.signals } } })
      else none
  | .emit now k =>
    (l.loop.finished[k]?).map fun p =>
      (.loop (.emit k p { pre := l.loop.manager, now := now, op := .emit p.signals, ret := none }),
        { l with loop :=
          { l.loop with
            manager := l.loop.manager.emit now p.signals
            finished := l.loop.finished.eraseIdx k } })
  | .check id answer now =>
    some (.check id answer now, { l with
      registry := (l.registry.check id answer now).1
      callbacks := l.callbacks ++ ((l.registry.check id answer now).2.toList.map Agent.onChange) })
  | .callback now k =>
    match l.callbacks[k]? with
    -- the operations of one callback come one after the other
    | some (op :: rest) =>
      (l.loop.manager.exec now op).map fun (m, ret) =>
        (.callback k { pre := l.loop.manager, now := now, op := op, ret := ret },
          { l with loop := { l.loop with manager := m }, callbacks := l.callbacks.set k rest })
    | _ => none

/-- A call that can be carried out is a step. -/
theorem ControlPlane.step_of_exec {l l' : ControlPlane F} {c : PlaneCall F} {a : PlaneAction F}
    (h : l.exec c = some (a, l')) : l.Step a l' := by
  unfold ControlPlane.exec at h
  cases c with
  | binding now t =>
    obtain ⟨⟨m, ret⟩, hexec, hmk⟩ := Option.map_eq_some_iff.mp h
    cases hmk
    exact ⟨trivial, ⟨t, rfl, ⟨rfl, hexec⟩, rfl, rfl⟩, rfl, rfl⟩
  | answer k response =>
    dsimp only at h
    split at h
    · cases h
    · next t b hk =>
      split at h
      · next hremote =>
        cases h
        exact ⟨t, b, hk, hremote, rfl⟩
      · cases h
  | emit now k =>
    obtain ⟨p, hk, hmk⟩ := Option.map_eq_some_iff.mp h
    cases hmk
    exact ⟨trivial, ⟨hk, rfl, ⟨rfl, rfl⟩, rfl, rfl⟩, rfl, rfl⟩
  | check id answer now =>
    cases h
    rfl
  | callback now k =>
    dsimp only at h
    split at h
    · next op rest hk =>
      obtain ⟨⟨m, ret⟩, hexec, hmk⟩ := Option.map_eq_some_iff.mp h
      cases hmk
      exact ⟨rest, hk, ⟨rfl, hexec⟩, rfl⟩
    · cases h

/-- The execution of a script. -/
def ControlPlane.perform (l : ControlPlane F) :
    List (PlaneCall F) → Option (List (PlaneAction F) × ControlPlane F)
  | [] => some ([], l)
  | c :: cs =>
    match l.exec c with
    | none => none
    | some (a, l') => (l'.perform cs).map fun (as, l'') => (a :: as, l'')

/-- Calls that can be carried out are a run. -/
theorem ControlPlane.runs_of_perform {l l' : ControlPlane F} {cs : List (PlaneCall F)}
    {as : List (PlaneAction F)} (h : l.perform cs = some (as, l')) : l.Runs as l' := by
  induction cs generalizing l as with
  | nil =>
    cases h
    exact .nil _
  | cons c cs ih =>
    unfold ControlPlane.perform at h
    split at h
    · cases h
    · next a l₁ hexec =>
      obtain ⟨⟨as', l''⟩, hrest, hmk⟩ := Option.map_eq_some_iff.mp h
      cases hmk
      exact .cons (ControlPlane.step_of_exec hexec) (ih hrest)

end Step

end Rcptto.Native
