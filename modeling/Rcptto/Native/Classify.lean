import Mathlib.Data.List.DropRight
import Mathlib.Data.List.Infix
import Rcptto.Native.Verdict

/-!
# Classification of SMTP replies

`pkg/engine/builtin/classify.go`, with the functions of Go's `strings` package that it uses.

A Go string is a sequence of bytes and a Lean string one of characters; a reply that is not
valid UTF-8 is not represented. `len` counts bytes, so `shortResponse` can cut a character
in two in Go; here it is cut off before that character.
-/

namespace Rcptto.Native

/-! ## Texts -/

/-- `unicode.IsSpace`. -/
def isSpace (c : Char) : Bool :=
  c.toNat ∈ [0x09, 0x0a, 0x0b, 0x0c, 0x0d, 0x20, 0x85, 0xa0, 0x1680, 0x2028, 0x2029, 0x202f,
    0x205f, 0x3000] || (0x2000 ≤ c.toNat && c.toNat ≤ 0x200a)

/-- `unicode.ToLower`, as far as it is visible in a search for ASCII text: besides the ASCII
    capitals, two letters have an ASCII lower-case form, the dotted capital I and the Kelvin
    sign. -/
def toLowerRune (c : Char) : Char :=
  if c.toNat = 0x130 then 'i'
  else if c.toNat = 0x212a then 'k'
  else c.toLower

/-- `strings.ToLower`. -/
def toLower (s : String) : String := .ofList (s.toList.map toLowerRune)

/-- `strings.Contains`. -/
def contains (s substr : String) : Bool := decide (substr.toList <:+: s.toList)

/-- `strings.Fields`: the runs of characters that are not white space. -/
def fields (s : String) : List String :=
  ((s.toList.splitOnP isSpace).filter (· ≠ [])).map String.ofList

/-- `strings.Split(s, ".")`. -/
def splitDots (s : String) : List String := (s.toList.splitOn '.').map String.ofList

/-- `strings.TrimSpace`. -/
def trimSpace (s : String) : String := .ofList ((s.toList.dropWhile isSpace).rdropWhile isSpace)

/-- The characters of a text that fit into the first `n` bytes. -/
def takeBytes : Nat → List Char → List Char
  | _, [] => []
  | n, c :: cs => if c.utf8Size ≤ n then c :: takeBytes (n - c.utf8Size) cs else []

/-- `shortResponse`: one line of at most 200 bytes. -/
def shortResponse (msg : String) : String :=
  let msg := String.ofList (msg.toList.map fun c => if c = '\n' then ' ' else c)
  let msg := trimSpace msg
  if msg.utf8ByteSize > 200 then .ofList (takeBytes 200 msg.toList) else msg

/-- `firstNonEmpty`. -/
def firstNonEmpty (vals : List String) : String := (vals.find? (· ≠ "")).getD ""

/-! ## Replies -/

/-- `isDigits`. -/
def isDigits (s : String) : Bool := s.toList.all fun r => !(r < '0' || r > '9')

/-- `enhancedStatus`: a leading enhanced status code such as `5.7.1`, or the empty text. -/
def enhancedStatus (msg : String) : String :=
  match fields msg with
  | [] => ""
  | tok :: _ =>
    let parts := splitDots tok
    if parts.length ≠ 3 then ""
    else if parts.any fun p => p = "" || !isDigits p then ""
    else tok

/-- `enhancedIsPolicy`: the subject of the code is 7, security or policy. -/
def enhancedIsPolicy (enhanced : String) : Bool :=
  match splitDots enhanced with
  | [_, subject, _] => subject = "7"
  | _ => false

/-- `blockKeywords`. -/
def blockKeywords : List String :=
  ["spam", "block", "blacklist", "blocklist", "denied", "reputation", "not allowed", "banned",
    "policy", "rejected due", "rbl", "dnsbl", "access denied", "unsolicited"]

/-- `keywordBlock`. -/
def keywordBlock (msg : String) : Bool := blockKeywords.any fun kw => contains (toLower msg) kw

/-- `rcptOutcome`. -/
structure RcptOutcome where
  status : Status
  subStatus : SubStatus
  signal : SignalKind
  deriving DecidableEq

/-- `classifyRCPT`. -/
def classifyRCPT (code : Int) (msg : String) : RcptOutcome :=
  let enhanced := enhancedStatus msg
  if code ≥ 200 ∧ code < 300 then ⟨.deliverable, .validMailbox, .accepted⟩
  else if code = 552 then ⟨.risky, .fullMailbox, .accepted⟩
  else if code ≥ 400 ∧ code < 500 then
    -- the enhanced code is not asked here, since greylisting frequently uses 4.7.1
    if keywordBlock msg then ⟨.unknown, .blocked, .blocked⟩
    else ⟨.unknown, .greylisted, .tempFail⟩
  else if code ≥ 500 ∧ code < 600 then
    if enhancedIsPolicy enhanced || keywordBlock msg then ⟨.unknown, .blocked, .blocked⟩
    else ⟨.undeliverable, .mailboxNotFound, .mailboxGone⟩
  else ⟨.unknown, .temporaryFailure, .tempFail⟩

/-- `confidenceFor`. -/
def confidenceFor {F : Type} [OfScientific F] : Status → F
  | .deliverable | .undeliverable => 0.9
  | .risky => 0.5
  | _ => 0.1

/-- `randomLocalPart`; the argument is what the system's random source gave, if anything. -/
def randomLocalPart (bytes : Option (Fin 9 → UInt8)) : String :=
  match bytes with
  | none => "rcptto-probe-000000000000"
  | some b =>
    let hex := fun n : Nat => "0123456789abcdef".toList.getD n '0'
    "rcptto-probe-" ++
      .ofList ((List.ofFn b).flatMap fun x => [hex (x.toNat / 16), hex (x.toNat % 16)])

end Rcptto.Native
