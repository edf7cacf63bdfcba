import Rcptto.ForStd.Ascii
import Rcptto.ForStd.Lines
import Rcptto.Native.Classify

/-!
# The builtin engine

`pkg/engine/builtin/builtin.go` and `smtp.go`: an SMTP client that asks about one recipient
and never sends mail.

The outside world is any function. A `Server` answers a command knowing everything that was
sent on the connection before; a `Network` decides about a dial knowing the addresses dialled
before. Time-outs, dropped connections and replies that cannot be parsed are failed
responses. The model keeps what was sent and dialled, so that the order of a conversation
can be talked about.
-/

namespace Rcptto.Native

/-! ## Sessions -/

/-- The lines that a session can send. -/
inductive Command where
  | ehlo (name : String)
  | helo (name : String)
  | mailFrom (sender : String)
  | rcptTo (recipient : String)
  | quit
  deriving DecidableEq

/-- The text of a command. -/
def Command.line : Command → String
  | ehlo name => "EHLO " ++ name
  | helo name => "HELO " ++ name
  | mailFrom sender => "MAIL FROM:<" ++ sender ++ ">"
  | rcptTo recipient => "RCPT TO:<" ++ recipient ++ ">"
  | quit => "QUIT"

/-- `PrintfLine`: the bytes that are sent for a command. -/
def Command.wire (c : Command) : List UInt8 := c.line.utf8Bytes ++ Lines.crlf

/-- What comes back from the server: a reply with a code of three digits and its text, or
    nothing that can be used. In the latter case `ReadResponse` still returns the number it
    has read, which is 0 unless a line starts with a number below 100. -/
inductive Response where
  | reply (code : Int) (msg : String) (h : 100 ≤ code ∧ code ≤ 999)
  | failed (code : Int) (h : -99 ≤ code ∧ code < 100)
  deriving DecidableEq

theorem Response.ready_code : (100 : Int) ≤ 220 ∧ (220 : Int) ≤ 999 := by decide

theorem Response.ok_code : (100 : Int) ≤ 250 ∧ (250 : Int) ≤ 999 := by decide

/-- The results of `textproto.ReadResponse`. -/
structure Reply where
  code : Int
  msg : String
  err : Bool
  deriving DecidableEq

/-- `ReadResponse(expectCode)`: a code other than the expected one is an error, which comes
    with the code; `0` expects nothing. -/
def Response.read (expectCode : Int) : Response → Reply
  | reply code msg _ => ⟨code, msg, expectCode ≠ 0 && code ≠ expectCode⟩
  | failed code _ => ⟨code, "", true⟩

/-- A mail server: its response after the commands sent so far, the last of them last. With
    nothing sent yet, the response is the banner. -/
abbrev Server := List Command → Response

/-- `session`: a connection, with the commands sent on it. -/
structure Session where
  server : Server
  sent : List Command := []

namespace Session

/-- `greeting`. -/
def greeting : StateM Session Reply := do
  let s ← get
  return (s.server s.sent).read 220

/-- `command`. -/
def command (c : Command) : StateM Session Reply := do
  let s ← get
  set { s with sent := s.sent ++ [c] }
  return (s.server (s.sent ++ [c])).read 0

/-- `quit`; the answer does not matter. -/
def quit : StateM Session Unit := do
  let _ ← command .quit

end Session

namespace Engine

/-! ## Configuration -/

/-- `builtin.Config`, without the time-outs: whether a dial or a command times out is up to
    the network and the server. -/
structure Config where
  port : Nat := 0
  detectCatchAll : Bool := false
  helo : String := ""
  mailFrom : String := ""
  deriving DecidableEq

/-- The defaulting of `builtin.New`. -/
def new (cfg : Config) : Config where
  port := if cfg.port = 0 then 25 else cfg.port
  detectCatchAll := cfg.detectCatchAll
  helo := if cfg.helo = "" then "localhost" else cfg.helo
  mailFrom := if cfg.mailFrom = "" then "verify@localhost" else cfg.mailFrom

/-- `SetDetectCatchAll`. -/
def Config.setDetectCatchAll (cfg : Config) (on : Bool) : Config :=
  { cfg with detectCatchAll := on }

/-- The outcomes of the dials of a probe: the server reached by the last of the addresses
    dialled so far, if that dial succeeded. -/
abbrev Network := List String → Option Server

/-- What a probe depends on besides the configuration, its task and its binding. -/
structure Env where
  network : Network
  now : Int
  random : Option (Fin 9 → UInt8)

/-! ## Probes -/

/-- `signals`: the feedback of a probe is one signal. -/
def signals (eg : Binding) (kind : SignalKind) (t : Task) (code : Int) (detail : String) :
    List Signal :=
  [{ kind := kind
     egressID := eg.id
     destination := firstNonEmpty [t.provider, t.domain]
     code := code
     detail := shortResponse detail }]

/-- `greet`: `EHLO`, then `HELO`. -/
def greet (cfg : Config) (eg : Binding) : StateM Session Bool := do
  let helo := firstNonEmpty [eg.helo, cfg.helo]
  let ehlo ← Session.command (.ehlo helo)
  if !ehlo.err && ehlo.code < 400 then
    return true
  let reply ← Session.command (.helo helo)
  return !reply.err && reply.code < 400

/-- `mailFrom`: the code and text of the answer, and whether the sender was accepted. -/
def mailFrom (cfg : Config) (eg : Binding) : StateM Session (Int × String × Bool) := do
  let sender := firstNonEmpty [eg.mailFrom, cfg.mailFrom]
  let reply ← Session.command (.mailFrom sender)
  if reply.err then
    return (0, "mail from io error", false)
  return (reply.code, reply.msg, reply.code ≥ 200 && reply.code < 300)

/-- `detectCatchAll`: whether a recipient that almost certainly does not exist is accepted. -/
def detectCatchAll (env : Env) (domain : String) : StateM Session Bool := do
  let reply ← Session.command (.rcptTo (randomLocalPart env.random ++ "@" ++ domain))
  return !reply.err && (reply.code ≥ 200 && reply.code < 300)

/-- `net.JoinHostPort(host, strconv.Itoa(port))`. -/
def joinHostPort (host : String) (port : Nat) : String :=
  if ':' ∈ host.toList then "[" ++ host ++ "]:" ++ toString port else host ++ ":" ++ toString port

/-- What a probe returns and what it did: the addresses it dialled, and the commands it sent
    on the connection it got. -/
structure Report (F : Type) where
  verdict : Verdict F
  signals : List Signal
  dialled : List String
  sent : List Command

section Probe

variable {F : Type} [OfScientific F] (cfg : Config) (env : Env) (t : Task) (eg : Binding)

/-- `result`. -/
def result (status : Status) (sub : SubStatus) (code : Int) (msg : String) (catchAll : Bool) :
    Verdict F where
  email := t.email
  normalized := firstNonEmpty [t.normalized, t.email]
  status := status
  subStatus := sub
  confidence := confidenceFor status
  checks :=
    { catchAll := catchAll
      smtp := { probed := code ≠ 0, code := code, response := shortResponse msg } }
  provider := t.provider
  engine := "builtin"
  egressID := eg.id
  checkedAt := env.now

/-- `probeHost` after a successful dial: the verdict and the signals of the conversation. -/
def probeHost : StateM Session (Verdict F × List Signal) := do
  let banner ← Session.greeting
  -- a greeting 4xx does not end the conversation, and one that cannot be read counts as a block
  if banner.err || banner.code ≥ 500 then
    return (result env t eg .unknown .blocked banner.code "greeting rejected" false,
      signals eg .blocked t banner.code "greeting")
  let greeted ← greet cfg eg
  if !greeted then
    return (result env t eg .unknown .blocked 0 "helo rejected" false,
      signals eg .blocked t 0 "helo")
  let (code, msg, ok) ← mailFrom cfg eg
  if !ok then
    -- the classification of `RCPT TO` is used for a rejected sender as well
    let out := classifyRCPT code msg
    return (result env t eg out.status out.subStatus code msg false,
      signals eg out.signal t code msg)
  let reply ← Session.command (.rcptTo t.email)
  if reply.err then
    return (result env t eg .unknown .temporaryFailure 0 "rcpt io error" false,
      signals eg .tempFail t 0 "rcpt io")
  let out := classifyRCPT reply.code reply.msg
  let catchAll ←
    if out.status = .deliverable && cfg.detectCatchAll then detectCatchAll env t.domain
    else pure false
  -- a catch-all server changes the verdict but not the signal
  let status := if catchAll then .risky else out.status
  let sub := if catchAll then .catchAll else out.subStatus
  Session.quit
  return (result env t eg status sub reply.code reply.msg catchAll,
    signals eg out.signal t reply.code reply.msg)

/-- The loop of `Verify` over the rest of the MX hosts. -/
def probeHosts : List String → List String → Report F
  | [], dialled =>
    { verdict := result env t eg .unknown .noConnect 0 "" false
      signals := signals eg .connRefused t 0 "all mx unreachable"
      dialled := dialled
      sent := [] }
  | host :: hosts, dialled =>
    let dialled := dialled ++ [joinHostPort host cfg.port]
    match env.network dialled with
    -- only a failed dial leads to the next host
    | none => probeHosts hosts dialled
    | some server =>
      let ((verdict, signals), session) := (probeHost cfg env t eg).run { server := server }
      { verdict := verdict, signals := signals, dialled := dialled, sent := session.sent }

/-- `Verify`. It never returns an error. -/
def verify : Report F :=
  if t.mx.length = 0 then
    { verdict := result env t eg .unknown .noConnect 0 "" false
      signals := signals eg .connRefused t 0 "no mx"
      dialled := []
      sent := [] }
  else probeHosts cfg env t eg t.mx []

end Probe

end Engine

end Rcptto.Native
