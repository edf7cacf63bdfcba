import Rcptto.Native.Agents

/-!
# The protocol between the control plane and its agents

`internal/worker/protocol.go` has types of its own for what is sent, so that the two sides can
change independently. `Client.Verify` encodes a task, and the agent decodes it, probes, and encodes
the signals, which the client decodes.

A body is the value that its JSON text stands for. Bodies that do not arrive, that are larger than
the limits of the two sides, or that do not decode are failures of the exchange, which is an
argument of the client.
-/

namespace Rcptto.Native

namespace SignalKind

/-- The text of a kind. -/
def toString : SignalKind → String
  | accepted => "accepted"
  | mailboxGone => "mailbox_gone"
  | tempFail => "tempfail"
  | blocked => "blocked"
  | connRefused => "conn_refused"
  | timeout => "timeout"
  | other text _ => text

/-- `engine.SignalKind(text)`: any text is accepted. -/
def ofString (text : String) : SignalKind :=
  if ha : text = "accepted" then accepted
  else if hm : text = "mailbox_gone" then mailboxGone
  else if ht : text = "tempfail" then tempFail
  else if hb : text = "blocked" then blocked
  else if hc : text = "conn_refused" then connRefused
  else if ho : text = "timeout" then timeout
  else other text (by simp [ha, hm, ht, hb, hc, ho])

/-- A kind of signal is read back from its text. -/
@[simp] theorem ofString_toString (kind : SignalKind) : ofString kind.toString = kind := by
  cases kind with
  | other text h =>
    simp only [List.mem_cons, List.not_mem_nil, or_false, not_or] at h
    simp [toString, ofString, h]
  | _ => rfl

end SignalKind

namespace Agent

/-! ## Bodies -/

/-- `TaskWire`. -/
structure TaskWire where
  email : String
  normalized : String
  domain : String
  provider : String
  mx : List String
  deriving DecidableEq

/-- `SignalWire`. -/
structure SignalWire where
  kind : String
  egressID : String
  destination : String
  code : Int
  detail : String
  deriving DecidableEq

/-- `TaskToWire`. -/
def taskToWire (t : Task) : TaskWire where
  email := t.email
  normalized := t.normalized
  domain := t.domain
  provider := t.provider
  mx := t.mx

/-- `ToTask`. -/
def TaskWire.toTask (t : TaskWire) : Task where
  email := t.email
  normalized := t.normalized
  domain := t.domain
  provider := t.provider
  mx := t.mx

/-- The loop body of `SignalsToWire`. -/
def signalToWire (s : Signal) : SignalWire where
  kind := s.kind.toString
  egressID := s.egressID
  destination := s.destination
  code := s.code
  detail := s.detail

/-- `SignalsToWire`. -/
def signalsToWire (sigs : List Signal) : List SignalWire := sigs.map signalToWire

/-- The loop body of `ToSignals`. -/
def SignalWire.toSignal (s : SignalWire) : Signal where
  kind := .ofString s.kind
  egressID := s.egressID
  destination := s.destination
  code := s.code
  detail := s.detail

/-- `ToSignals`. -/
def toSignals (wire : List SignalWire) : List Signal := wire.map SignalWire.toSignal

/-- The body of a request. -/
structure RequestBody where
  version : Int
  task : TaskWire
  detectCatchAll : Bool
  deriving DecidableEq

/-- The body of a response. -/
structure ResponseBody (F : Type) where
  version : Int
  verdict : Verdict F
  signals : List SignalWire

def VerifyRequest.encode (req : VerifyRequest) : RequestBody where
  version := req.version
  task := taskToWire req.task
  detectCatchAll := req.detectCatchAll

def RequestBody.decode (body : RequestBody) : VerifyRequest where
  version := body.version
  task := body.task.toTask
  detectCatchAll := body.detectCatchAll

def VerifyResponse.encode {F : Type} (resp : VerifyResponse F) : ResponseBody F where
  version := resp.version
  verdict := resp.verdict
  signals := signalsToWire resp.signals

def ResponseBody.decode {F : Type} (body : ResponseBody F) : VerifyResponse F where
  version := body.version
  verdict := body.verdict
  signals := toSignals body.signals

/-! ## Both sides -/

variable {F : Type}

/-- The route of `handleVerify` behind `authMiddleware`, for a request with this `Authorization`
    header. -/
def Server.serve [OfScientific F] (s : Server) (env : Engine.Env) (header : String)
    (body : RequestBody) : Except HTTPError (ResponseBody F) := do
  s.authorized header
  let resp ← s.handleVerify env body.decode
  return resp.encode

/-- The errors of `Client.Verify`. -/
inductive ClientError where
  | contacting (err : String)
  | returned (code : Nat) (snippet : String)
  deriving DecidableEq

/-- `Client.Verify` from the request on. `exchange` is what comes back for an `Authorization` header
    and a body: nothing, an answer other than 200, or the body of a response. -/
def Client.send (c : Client)
    (exchange : String → RequestBody → Except String (Except HTTPError (ResponseBody F)))
    (req : VerifyRequest) : Except ClientError (Verdict F × List Signal) :=
  match exchange ("Bearer " ++ c.token) req.encode with
  | .error err => .error (.contacting err)
  | .ok (.error answer) =>
    .error (.returned answer.code (trimSpace (.ofList (takeBytes 256 answer.text.toList))))
  | .ok (.ok body) =>
    let resp := body.decode
    .ok (resp.verdict, resp.signals)

/-- `Client.Verify`. -/
def Client.verify (c : Client)
    (exchange : String → RequestBody → Except String (Except HTTPError (ResponseBody F)))
    (t : Task) : Except ClientError (Verdict F × List Signal) :=
  c.send exchange (Client.request t)

/-- An exchange in which both bodies are delivered. -/
def Server.delivered [OfScientific F] (s : Server) (env : Engine.Env) (header : String)
    (body : RequestBody) : Except String (Except HTTPError (ResponseBody F)) :=
  .ok (s.serve env header body)

end Agent

end Rcptto.Native
