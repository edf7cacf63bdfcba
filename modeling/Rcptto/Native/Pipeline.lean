import Rcptto.ForStd.Ascii
import Rcptto.ForStd.PrefixCode
import Rcptto.Native.Classify

/-!
# The funnel

`internal/pipeline`: the stages that an address goes through before it is probed, cheap ones
first. A stage can end the funnel with a verdict; only the last one asks the network.

The syntax of an address is checked on its bytes, as the source does. The two regular
expressions there know ASCII characters only, so they accept a byte or do not; what they
accept is text again. The input of `run` is a Lean string, that is, valid UTF-8; `runBytes` is
the same funnel on any bytes.
-/

namespace Rcptto.Native

/-! ## Syntax -/

/-- The bytes of a Go string. -/
abbrev Bytes := List UInt8

/-- The characters of an atom in `localPartRe`. -/
def isAtext (b : UInt8) : Bool :=
  (Char.ofUInt8 b).isAlphanum || .ofUInt8 b ∈ "!#$%&'*+/=?^_`\x7b|\x7d~-".toList

/-- `localPartRe`: atoms with single dots between them. -/
def localPartRe (s : Bytes) : Bool :=
  (s.splitOn '.'.toUInt8).all fun atom => atom ≠ [] && atom.all isAtext

/-- `domainLabelRe`: at most 63 letters, digits and hyphens, with no hyphen at either end. -/
def domainLabelRe : Bytes → Bool
  | [] => false
  | b :: rest =>
    (Char.ofUInt8 b).isAlphanum &&
      match rest.getLast? with
      | none => true
      | some last =>
        rest.dropLast.length ≤ 61 &&
          rest.dropLast.all (fun b => (Char.ofUInt8 b).isAlphanum || b = '-'.toUInt8) &&
          (Char.ofUInt8 last).isAlphanum

/-- `isAllAlpha`. -/
def isAllAlpha (s : Bytes) : Bool := s.all fun b => (Char.ofUInt8 b).isAlpha

/-- `validDomain`. -/
def validDomain (domain : Bytes) : Bool :=
  if domain.head? = some '.'.toUInt8 || domain.getLast? = some '.'.toUInt8 then false
  else
    let labels := domain.splitOn '.'.toUInt8
    if labels.length < 2 then false
    else if !labels.all domainLabelRe then false
    else
      let tld := labels.getLastD []
      if tld.length < 2 || !isAllAlpha tld then false else true

/-- `strings.LastIndexByte`, which is `-1` if there is none. -/
def lastIndexByte (s : Bytes) (b : UInt8) : Int :=
  match s.reverse.idxOf? b with
  | none => -1
  | some i => s.length - 1 - i

/-- `splitAndValidate`. -/
def splitAndValidate (addr : Bytes) : Option (Bytes × Bytes) :=
  if addr.length = 0 ∨ addr.length > 254 then none
  else
    -- the last at sign, so that one in the local part is left to its pattern
    let i := lastIndexByte addr '@'.toUInt8
    if i ≤ 0 ∨ i = addr.length - 1 then none
    else
      let localPart := addr.take i.toNat
      let domain := addr.drop (i.toNat + 1)
      if localPart.length > 64 ∨ domain.length > 255 then none
      else if !localPartRe localPart then none
      else if !validDomain domain then none
      else some (localPart, domain)

/-- The characters that `unicode.IsSpace` accepts. -/
def spaceRunes : List Char :=
  ([0x09, 0x0a, 0x0b, 0x0c, 0x0d, 0x20, 0x85, 0xa0, 0x1680, 0x2028, 0x2029, 0x202f, 0x205f,
    0x3000] ++ List.range' 0x2000 11).map Char.ofNat

/-- `strings.TrimSpace` on any bytes. A byte that does not belong to a character in UTF-8 is not
    white space, so that a space is at one of the ends if its encoding is. -/
def trimSpaceBytes (s : Bytes) : Bytes :=
  let s := dropWords (spaceRunes.map PrefixCode.utf8.word) s.length s
  (dropWords (spaceRunes.map PrefixCode.utf8Reverse.word) s.length s.reverse).reverse

/-! ## Data -/

/-- `providerDomains`. -/
def providerDomains : List (String × String) :=
  [("gmail.com", "gmail"), ("googlemail.com", "gmail"), ("outlook.com", "microsoft"),
    ("hotmail.com", "microsoft"), ("hotmail.co.uk", "microsoft"), ("live.com", "microsoft"),
    ("msn.com", "microsoft"), ("yahoo.com", "yahoo"), ("yahoo.co.uk", "yahoo"),
    ("ymail.com", "yahoo"), ("rocketmail.com", "yahoo"), ("icloud.com", "icloud"),
    ("me.com", "icloud"), ("mac.com", "icloud"), ("proton.me", "proton"),
    ("protonmail.com", "proton"), ("pm.me", "proton")]

/-- `freeDomains`. -/
def freeDomains : List String :=
  ["gmail.com", "googlemail.com", "outlook.com", "hotmail.com", "hotmail.co.uk", "live.com",
    "msn.com", "yahoo.com", "yahoo.co.uk", "ymail.com", "rocketmail.com", "aol.com", "icloud.com",
    "me.com", "mac.com", "proton.me", "protonmail.com", "pm.me", "gmx.com", "gmx.net", "zoho.com",
    "yandex.com", "mail.com", "tutanota.com"]

/-- `roleLocalParts`. -/
def roleLocalParts : List String :=
  ["admin", "administrator", "info", "support", "sales", "contact", "help", "billing",
    "marketing", "office", "hello", "team", "mail", "noreply", "no-reply", "donotreply",
    "do-not-reply", "postmaster", "hostmaster", "webmaster", "abuse", "security", "root",
    "sysadmin", "careers", "jobs", "hr", "press", "media", "newsletter", "notifications",
    "service", "enquiries", "inquiries", "feedback", "orders", "accounts", "accounting",
    "finance", "legal", "compliance"]

/-- `defaultDisposable`. -/
def defaultDisposable : List String :=
  ["mailinator.com", "guerrillamail.com", "10minutemail.com", "temp-mail.org", "yopmail.com",
    "throwawaymail.com", "getnada.com", "trashmail.com", "maildrop.cc", "dispostable.com",
    "fakeinbox.com", "sharklasers.com", "guerrillamailblock.com", "mailnesia.com", "mohmal.com",
    "tempmail.dev"]

/-- `defaultDisposableSet`. -/
def defaultDisposableSet (domain : String) : Bool := domain ∈ defaultDisposable

/-- `providerForDomain`. -/
def providerForDomain (domain : String) : String := (providerDomains.lookup domain).getD ""

/-- `isRoleAccount`. -/
def isRoleAccount (localPart : String) : Bool := toLower localPart ∈ roleLocalParts

/-- `isFreeDomain`. -/
def isFreeDomain (domain : String) : Bool := domain ∈ freeDomains

/-- `strings.HasSuffix`. -/
def hasSuffix (s suffix : String) : Bool := decide (suffix.toList <:+ s.toList)

/-- `strings.TrimSuffix(s, ".")`. -/
def trimDot (s : String) : String :=
  if s.toList.getLast? = some '.' then .ofList s.toList.dropLast else s

/-- `refineProviderFromMX`. -/
def refineProviderFromMX : List String → String
  | [] => ""
  | host :: hosts =>
    let h := toLower (trimDot host)
    if hasSuffix h "google.com" || hasSuffix h "googlemail.com" then "google_workspace"
    else if hasSuffix h "outlook.com" || hasSuffix h "protection.outlook.com" then "microsoft365"
    else refineProviderFromMX hosts

namespace Pipeline

/-! ## Stages -/

/-- `pipeline.State`. -/
structure State (F : Type) where
  input : String
  email : String
  normalized : String
  localPart : String := ""
  domain : String := ""
  provider : String := ""
  mx : List String := []
  checks : Checks := {}
  terminal : Option (Verdict F) := none

/-- Why `LookupMX` failed: a `net.DNSError` with its flags, or some other error, for example
    that of the context. -/
inductive LookupError where
  | dns (isNotFound isTemporary isTimeout : Bool)
  | other
  deriving DecidableEq

/-- `Resolver`: the hosts of the MX records of a domain, and the addresses of a host, if these
    lookups succeed. -/
structure Resolver where
  lookupMX : String → Except LookupError (List String)
  lookupHost : String → Option (List String)

/-- `Stage`: whether the funnel stops, and the state afterwards. -/
abbrev Stage (F : Type) := State F → Except LookupError (Bool × State F)

section Stages

variable {F : Type} [OfScientific F]

/-- `Reject`. -/
def State.reject (s : State F) (status : Status) (sub : SubStatus) (confidence : F) (now : Int) :
    State F :=
  { s with
    terminal := some
      { email := s.email
        normalized := s.normalized
        status := status
        subStatus := sub
        confidence := confidence
        checks := s.checks
        provider := s.provider
        engine := ""
        egressID := ""
        checkedAt := now } }

/-- `syntaxStage`. -/
def syntaxStage (now : Int) : Stage F := fun s =>
  let addr := trimSpace s.input
  let s := { s with email := addr }
  match splitAndValidate addr.utf8Bytes with
  | none =>
    let s := { s with checks := { s.checks with syntaxCheck := { valid := false } } }
    .ok (true, s.reject .undeliverable .invalidSyntax 0.99 now)
  | some (localPart, domain) =>
    .ok (false, { s with
      localPart := .ofAscii localPart
      domain := .ofAscii domain
      checks := { s.checks with syntaxCheck := { valid := true } } })

/-- `canonicalKey`. -/
def canonicalKey (localPart domain provider : String) : String :=
  let nl := toLower localPart
  if provider = "gmail" then
    -- the dots go first, then the tag; the domain has one spelling
    let nl := nl.toList.filter (· ≠ '.')
    .ofList (nl.takeWhile (· ≠ '+')) ++ "@" ++ "gmail.com"
  else nl ++ "@" ++ domain

/-- `normalizeStage`. -/
def normalizeStage : Stage F := fun s =>
  let domain := toLower s.domain
  let provider := providerForDomain domain
  let provider := if provider = "" then "custom" else provider
  .ok (false, { s with
    domain := domain
    email := s.localPart ++ "@" ++ domain
    provider := provider
    normalized := canonicalKey s.localPart domain provider })

/-- `disposableStage`. -/
def disposableStage (contains : String → Bool) (now : Int) : Stage F := fun s =>
  if contains s.domain then
    let s := { s with checks := { s.checks with disposable := true } }
    .ok (true, s.reject .risky .disposable 0.9 now)
  else .ok (false, s)

/-- `roleStage`. -/
def roleStage : Stage F := fun s =>
  if isRoleAccount s.localPart then .ok (false, { s with checks := { s.checks with role := true } })
  else .ok (false, s)

/-- `freeStage`. -/
def freeStage : Stage F := fun s =>
  if isFreeDomain s.domain then .ok (false, { s with checks := { s.checks with free := true } })
  else .ok (false, s)

/-- `implicitMX`: the domain as its own mail exchanger, if it has an address. -/
def implicitMX (r : Resolver) (s : State F) : Option (State F) :=
  match r.lookupHost s.domain with
  | none => none
  | some addrs =>
    if addrs.length = 0 then none
    else some { s with
      mx := [s.domain]
      checks := { s.checks with mx := { found := true, records := [s.domain] } } }

/-- `mxHosts`. -/
def mxHosts (records : List String) : List String :=
  (records.map trimDot).filter fun h => h ≠ "" && h ≠ "."

/-- `mxStage`. -/
def mxStage (r : Resolver) (now : Int) : Stage F := fun s =>
  match r.lookupMX s.domain with
  | .error err =>
    match implicitMX r s with
    | some s => .ok (false, s)
    | none =>
      match err with
      -- the flags are asked in this order, and only if the domain itself has no address
      | .dns true _ _ => .ok (true, s.reject .undeliverable .domainNotFound 0.98 now)
      | .dns false true _ => .error err
      | _ => .ok (true, s.reject .undeliverable .noMXRecord 0.9 now)
  | .ok records =>
    -- a single dot is the record of a domain that takes no mail
    if records = ["."] then .ok (true, s.reject .undeliverable .noMXRecord 0.95 now)
    else
      let hosts := mxHosts records
      if hosts.length = 0 then
        match implicitMX r s with
        | some s => .ok (false, s)
        | none => .ok (true, s.reject .undeliverable .noMXRecord 0.9 now)
      else
        let s := { s with
          mx := hosts
          checks := { s.checks with mx := { found := true, records := hosts } } }
        -- the hosts decide for a custom domain only
        let refined := refineProviderFromMX hosts
        if s.provider = "custom" && refined ≠ "" then .ok (false, { s with provider := refined })
        else .ok (false, s)

/-! ## The run of an address -/

/-- The loop of `Run` over the rest of the stages. -/
def runStages : List (Stage F) → State F → Except LookupError (State F)
  | [], s => .ok s
  | stage :: stages, s =>
    match stage s with
    | .error err => .error err
    | .ok (stop, s) => if stop || s.terminal.isSome then .ok s else runStages stages s

/-- The stages before the one that asks the network. -/
def localStages (disposable : String → Bool) (now : Int) : List (Stage F) :=
  [syntaxStage now, normalizeStage, disposableStage disposable now, roleStage, freeStage]

/-- The stages of `New`. -/
def stages (disposable : String → Bool) (r : Resolver) (now : Int) : List (Stage F) :=
  localStages disposable now ++ [mxStage r now]

/-- `pipeline.Result`: a verdict if the funnel was `Terminal`, and a task to probe otherwise. -/
structure Result (F : Type) where
  outcome : Verdict F ⊕ Task
  checks : Checks
  provider : String
  mx : List String

/-- The end of `Run`. -/
def State.result (s : State F) : Result F where
  outcome :=
    match s.terminal with
    | some v => .inl v
    | none => .inr
      { email := s.email
        normalized := s.normalized
        domain := s.domain
        provider := s.provider
        mx := s.mx }
  checks := s.checks
  provider := s.provider
  mx := s.mx

/-- `Pipeline.Run`. -/
def run (disposable : String → Bool) (r : Resolver) (now : Int) (email : String) :
    Except LookupError (Result F) :=
  match runStages (stages disposable r now) { input := email, email := email, normalized := email }
  with
  | .error err => .error err
  | .ok s => .ok s.result

/-- The state after the syntax stage, without the texts that only this stage reads or that
    `normalizeStage` replaces. -/
def parsed (localPart domain : Bytes) : State F where
  input := ""
  email := ""
  normalized := ""
  localPart := .ofAscii localPart
  domain := .ofAscii domain
  checks := { syntaxCheck := { valid := true } }

/-- `Pipeline.Run` on any bytes; there is no result if they are not an address. -/
def runBytes (disposable : String → Bool) (r : Resolver) (now : Int) (email : Bytes) :
    Except LookupError (Option (Result F)) :=
  match splitAndValidate (trimSpaceBytes email) with
  | none => .ok none
  | some (localPart, domain) =>
    match runStages (stages disposable r now).tail (parsed localPart domain) with
    | .error err => .error err
    | .ok s => .ok (some s.result)

end Stages

end Pipeline

end Rcptto.Native
