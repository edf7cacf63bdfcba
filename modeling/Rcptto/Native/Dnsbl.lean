import Rcptto.Native.Audit

/-!
# Blocklist lookups

`internal/egress/audit/audit.go`: whether an address is listed is asked of the zones one after
the other, as a lookup of a name made of the reversed address and the zone. What `net.ParseIP`
makes of a text is a parameter, and so is the resolver: a lookup that fails has no answer.

A `Fleet` whose audits use such a checker is a `Fleet` in which every lookup found what `Check`
returns. The labels carry the resolver as it answered at the time.
-/

namespace Rcptto.Native

/-- The four bytes of an IPv4 address. -/
structure IPv4 where
  a : UInt8
  b : UInt8
  c : UInt8
  d : UInt8
  deriving DecidableEq

namespace Dnsbl

/-- `isListingCode`: the range `127.255` is for error codes. -/
def isListingCode (addr : String) : Bool :=
  "127.".toList.isPrefixOf addr.toList && !"127.255.".toList.isPrefixOf addr.toList

/-- What `reverseIPv4` prints. -/
def reversed (ip : IPv4) : String :=
  toString ip.d.toNat ++ "." ++ toString ip.c.toNat ++ "." ++ toString ip.b.toNat ++ "." ++
    toString ip.a.toNat

/-- The name that is looked up for an address in a zone. -/
def query (ip : IPv4) (zone : String) : String := reversed ip ++ "." ++ zone

/-- `LookupHost`; an error of any kind is `none`. -/
abbrev Resolver := String → Option (List String)

/-- Whether a zone lists the address: some answer is the code of a listing. -/
def lists (lookup : Resolver) (ip : IPv4) (zone : String) : Bool :=
  match lookup (query ip zone) with
  | none => false
  | some addrs => addrs.any isListingCode

/-- `Check`. `to4` is `net.ParseIP` followed by `To4`, which have no result for a text that is
    no address or an IPv6 address. -/
def check (to4 : String → Option IPv4) (zones : List String) (lookup : Resolver) (ip : String) :
    List String :=
  match to4 ip with
  | none => []
  | some v4 => zones.filter (lists lookup v4)

end Dnsbl

section Fleet

variable {F : Type} [Add F] [Sub F] [Mul F] [OfScientific F] [LinearOrder F]

/-- One step of a manager whose audits look addresses up in `zones`. -/
def Fleet.AuditedStep (to4 : String → Option IPv4) (zones : List String) (s : Fleet F)
    (l : Action F × Dnsbl.Resolver) (s' : Fleet F) : Prop :=
  s.Step l.1 s' ∧
    match l.1 with
    | .auditCheck k listed =>
      ∀ item items, s.audits[k]? = some { items := item :: items } →
        listed = Dnsbl.check to4 zones l.2 item.ip
    | _ => True

end Fleet

end Rcptto.Native
