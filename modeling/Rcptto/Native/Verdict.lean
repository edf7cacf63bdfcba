import Rcptto.Native.Basic

/-!
# Verdicts

`pkg/verdict/verdict.go`: the result of verifying one address. A status and a reason code
are texts in the source and may also come from a remote agent, so both are open
enumerations, like the lifecycle states.
-/

namespace Rcptto.Native

/-- `verdict.Status`, the four-valued outcome. -/
inductive Status where
  | deliverable
  | undeliverable
  | risky
  | unknown
  | other (text : String) (h : text ∉ ["deliverable", "undeliverable", "risky", "unknown"])
  deriving DecidableEq

/-- `Status.Valid`. -/
def Status.valid : Status → Bool
  | deliverable | undeliverable | risky | unknown => true
  | other _ _ => false

/-- `string(status)`. -/
def Status.toString : Status → String
  | deliverable => "deliverable"
  | undeliverable => "undeliverable"
  | risky => "risky"
  | unknown => "unknown"
  | other text _ => text

/-- `verdict.SubStatus`, the reason codes; any other text is `other`. -/
inductive SubStatus where
  | validMailbox
  | invalidSyntax
  | noMXRecord
  | domainNotFound
  | mailboxNotFound
  | catchAll
  | roleAccount
  | disposable
  | fullMailbox
  | lowDeliverability
  | greylisted
  | timeout
  | blocked
  | port25Blocked
  | providerSkipped
  | temporaryFailure
  | noConnect
  | other (text : String)
      (h : text ∉ ["valid_mailbox", "invalid_syntax", "no_mx_record", "domain_not_found",
        "mailbox_not_found", "catch_all", "role_account", "disposable", "full_mailbox",
        "low_deliverability", "greylisted", "timeout", "blocked", "port25_blocked",
        "provider_skipped", "temporary_failure", "no_connect"])
  deriving DecidableEq

/-- `string(subStatus)`. -/
def SubStatus.toString : SubStatus → String
  | validMailbox => "valid_mailbox"
  | invalidSyntax => "invalid_syntax"
  | noMXRecord => "no_mx_record"
  | domainNotFound => "domain_not_found"
  | mailboxNotFound => "mailbox_not_found"
  | catchAll => "catch_all"
  | roleAccount => "role_account"
  | disposable => "disposable"
  | fullMailbox => "full_mailbox"
  | lowDeliverability => "low_deliverability"
  | greylisted => "greylisted"
  | timeout => "timeout"
  | blocked => "blocked"
  | port25Blocked => "port25_blocked"
  | providerSkipped => "provider_skipped"
  | temporaryFailure => "temporary_failure"
  | noConnect => "no_connect"
  | other text _ => text

/-- `verdict.SyntaxCheck`. -/
structure SyntaxCheck where
  valid : Bool := false
  deriving DecidableEq

/-- `verdict.MXCheck`. -/
structure MXCheck where
  found : Bool := false
  records : List String := []
  deriving DecidableEq

/-- `verdict.SMTPCheck`. -/
structure SMTPCheck where
  probed : Bool := false
  code : Int := 0
  response : String := ""
  deriving DecidableEq

/-- `verdict.Checks`. An engine fills in the last two; the others are findings of the funnel. -/
structure Checks where
  syntaxCheck : SyntaxCheck := {}
  mx : MXCheck := {}
  disposable : Bool := false
  role : Bool := false
  free : Bool := false
  catchAll : Bool := false
  smtp : SMTPCheck := {}
  deriving DecidableEq

/-- `verdict.Verdict`. -/
structure Verdict (F : Type) where
  email : String
  normalized : String
  status : Status
  subStatus : SubStatus
  confidence : F
  checks : Checks
  provider : String
  engine : String
  egressID : String
  cached : Bool := false
  checkedAt : Int

/-- The errors of `Validate`. -/
inductive VerdictError (F : Type) where
  | emptyEmail
  | invalidStatus (status : Status)
  | confidenceOutOfRange (confidence : F)

/-- `Validate`. -/
def Verdict.validate {F : Type} [OfScientific F] [LinearOrder F] (v : Verdict F) :
    Except (VerdictError F) Unit :=
  if v.email = "" then .error .emptyEmail
  else if !v.status.valid then .error (.invalidStatus v.status)
  else if v.confidence < 0.0 ∨ v.confidence > 1.0 then
    .error (.confidenceOutOfRange v.confidence)
  else .ok ()

end Rcptto.Native
