import Rcptto.Native.Dnsbl
import Rcptto.Native.Strconv
import Rcptto.Spec.Step

/-!
# Why an audit withdraws an identity

An audit calls `Quarantine` only on evidence: some zone answered the name of the address that the
identity had in the snapshot with the code of a listing. A lookup that fails, an empty answer and
the error codes of a resolver that is refused withdraw nobody, in any interleaving of any number
of audits with each other and with other calls.

## Key results

- `Dnsbl.query_injective`: a name is looked up for one address and in one zone only
- `Fleet.Backed.step`: what the audits under way rest on
- `Fleet.evidence_of_quarantine`: every `Quarantine` of an audit has its evidence before it
-/

namespace Rcptto.Native

/-! ## Names -/

namespace Dnsbl

variable {v w : IPv4} {zone zone' ip : String} {to4 : String → Option IPv4}
  {zones listed : List String} {lookup : Resolver}

private theorem dot_notMem_toString (n : Nat) : '.' ∉ (toString n).toList :=
  fun h => absurd (isDigit_of_mem_toString h) (by decide)

/-- Numbers are told apart by their digits. -/
private theorem toString_injective {m n : Nat} (h : toString m = toString n) : m = n := by
  have hdigits : Nat.toDigits 10 m = Nat.toDigits 10 n := by
    simpa [Nat.repr] using congrArg String.toList h
  have := parseUint_toDigits m
  rw [hdigits, parseUint_toDigits, Option.some.injEq] at this
  exact this.symm

/-- A number up to a dot, and the rest. -/
private theorem label_inj {m n : UInt8} {s t : String}
    (h : toString m.toNat ++ ("." ++ s) = toString n.toNat ++ ("." ++ t)) : m = n ∧ s = t := by
  have hm := cut_append (t := s) (dot_notMem_toString m.toNat)
  have hn := cut_append (t := t) (dot_notMem_toString n.toNat)
  rw [String.append_assoc] at hm hn
  have hcut := congrArg (cut '.') h
  change cut '.' (_ ++ (String.singleton '.' ++ s)) =
    cut '.' (_ ++ (String.singleton '.' ++ t)) at hcut
  rw [hm, hn, Option.some.injEq, Prod.mk.injEq] at hcut
  exact ⟨UInt8.toNat_inj.mp (toString_injective hcut.1), hcut.2⟩

/-- A name is looked up for one address and in one zone only. -/
theorem query_injective (h : query v zone = query w zone') : v = w ∧ zone = zone' := by
  simp only [query, reversed, String.append_assoc] at h
  obtain ⟨hd, h⟩ := label_inj h
  obtain ⟨hc, h⟩ := label_inj h
  obtain ⟨hb, h⟩ := label_inj h
  obtain ⟨ha, hzone⟩ := label_inj h
  refine ⟨?_, hzone⟩
  obtain ⟨a, b, c, d⟩ := v
  simp only at ha hb hc hd
  rw [ha, hb, hc, hd]

/-- A zone lists an address if it answers the name of the address with the code of a listing. -/
theorem lists_iff : lists lookup v zone = true ↔ ∃ addrs, lookup (query v zone) = some addrs ∧
    ∃ addr ∈ addrs, isListingCode addr = true := by
  unfold lists
  cases lookup (query v zone) with
  | none => simp
  | some addrs => simp

/-- The zones that `Check` returns for an IPv4 address are those that list it. -/
theorem mem_check_iff (hv : to4 ip = some v) : zone ∈ check to4 zones lookup ip ↔
    zone ∈ zones ∧ ∃ addrs, lookup (query v zone) = some addrs ∧
      ∃ addr ∈ addrs, isListingCode addr = true := by
  rw [check, hv, ← lists_iff]
  exact List.mem_filter

/-- `Check` returns a zone only for an IPv4 address. -/
theorem exists_of_check_ne_nil (h : check to4 zones lookup ip ≠ []) : ∃ v, to4 ip = some v := by
  unfold check at h
  cases hv : to4 ip with
  | none => simp [hv] at h
  | some v => exact ⟨v, rfl⟩

end Dnsbl

/-! ## Evidence -/

namespace Fleet

variable {F : Type} [Add F] [Sub F] [Mul F] [OfScientific F] [LinearOrder F]
  {to4 : String → Option IPv4} {zones : List String} {s₀ s s' : Fleet F}
  {hist : List (Action F × Dnsbl.Resolver)} {l : Action F × Dnsbl.Resolver}

/-- Earlier in the execution the identity had the address of the item, and was disabled or not
    as the item says. -/
def SeenAs (to4 : String → Option IPv4) (zones : List String) (s₀ : Fleet F)
    (hist : List (Action F × Dnsbl.Resolver)) (item : AuditItem) : Prop :=
  ∃ before after u r, hist = before ++ after ∧ Run (AuditedStep to4 zones) s₀ before u ∧
    u.manager.get? item.id = some r ∧ r.spec.ip = item.ip ∧
    item.disabled = decide (r.state = .disabled)

/-- What a `Quarantine` of an audit rests on: earlier in the execution the identity was not disabled
    and had an IPv4 address, and after that the address was looked up. Some zone listed it, and the
    reason names the zones of the configuration that did: those which answered the name of the
    address with the code of a listing. -/
def Evidence (to4 : String → Option IPv4) (zones : List String) (s₀ : Fleet F)
    (hist : List (Action F × Dnsbl.Resolver)) (id reason : String) : Prop :=
  ∃ before after k listed lookup ip v4, hist = before ++ (.auditCheck k listed, lookup) :: after ∧
    SeenAs to4 zones s₀ before { id := id, ip := ip, disabled := false } ∧
    to4 ip = some v4 ∧ listed ≠ [] ∧ reason = "dnsbl:" ++ ",".intercalate listed ∧
    listed = Dnsbl.check to4 zones lookup ip ∧
    ∀ zone, zone ∈ listed ↔ zone ∈ zones ∧ ∃ addrs, lookup (Dnsbl.query v4 zone) = some addrs ∧
      ∃ addr ∈ addrs, Dnsbl.isListingCode addr = true

/-- What was seen stays seen. -/
theorem SeenAs.snoc {item : AuditItem} (h : SeenAs to4 zones s₀ hist item) :
    SeenAs to4 zones s₀ (hist ++ [l]) item := by
  obtain ⟨before, after, u, r, rfl, hrest⟩ := h
  exact ⟨before, after ++ [l], u, r, List.append_assoc .., hrest⟩

/-- Evidence stays evidence. -/
theorem Evidence.snoc {id reason : String} (h : Evidence to4 zones s₀ hist id reason) :
    Evidence to4 zones s₀ (hist ++ [l]) id reason := by
  obtain ⟨before, after, k, listed, lookup, ip, v4, rfl, hrest⟩ := h
  exact ⟨before, after ++ [l], k, listed, lookup, ip, v4, List.append_assoc .., hrest⟩

/-- The items of an audit come from a snapshot, and the call that it is about to make has its
    evidence. -/
structure Backed (to4 : String → Option IPv4) (zones : List String) (s₀ : Fleet F)
    (hist : List (Action F × Dnsbl.Resolver)) (a : Audit) : Prop where
  items : ∀ item ∈ a.items, SeenAs to4 zones s₀ hist item
  call : ∀ id reason, a.call = some (id, reason) → Evidence to4 zones s₀ hist id reason

theorem Backed.snoc {a : Audit} (h : Backed to4 zones s₀ hist a) :
    Backed to4 zones s₀ (hist ++ [l]) a :=
  ⟨fun item hitem => (h.items item hitem).snoc,
    fun id reason hcall => (h.call id reason hcall).snoc⟩

omit [Add F] [Sub F] [Mul F] [OfScientific F] [LinearOrder F] in
/-- The items of a snapshot are taken from the records. -/
theorem mem_auditItems {m : Manager F} {item : AuditItem} (h : item ∈ m.auditItems) :
    ∃ r, m.get? item.id = some r ∧ r.spec.ip = item.ip ∧
      item.disabled = decide (r.state = .disabled) := by
  obtain ⟨id, -, hitem⟩ := List.mem_filterMap.mp h
  obtain ⟨r, hr, rfl⟩ := Option.map_eq_some_iff.mp hitem
  exact ⟨r, hr, rfl, rfl⟩

/-- The lookup of an item gives the evidence for the call that follows from it. -/
theorem SeenAs.evidence {item : AuditItem} {k : Nat} {listed : List String}
    {lookup : Dnsbl.Resolver} {id reason : String} (h : SeenAs to4 zones s₀ hist item)
    (hlisted : listed = Dnsbl.check to4 zones lookup item.ip)
    (hcall : item.check listed = some (id, reason)) :
    Evidence to4 zones s₀ (hist ++ [(.auditCheck k listed, lookup)]) id reason := by
  unfold AuditItem.check at hcall
  -- a call follows only for an item with an address that is not disabled and is listed
  split_ifs at hcall with hskip hnone
  simp only [Option.some.injEq, Prod.mk.injEq] at hcall
  obtain ⟨rfl, rfl⟩ := hcall
  obtain ⟨v4, hv4⟩ := Dnsbl.exists_of_check_ne_nil (hlisted ▸ hnone)
  have hitem : item = { id := item.id, ip := item.ip, disabled := false } := by
    obtain ⟨id, ip, disabled⟩ := item
    simpa using (not_or.mp hskip).2
  refine ⟨hist, [], k, listed, lookup, item.ip, v4, rfl, hitem ▸ h, hv4, hnone, rfl, hlisted,
    fun zone => ?_⟩
  rw [hlisted]
  exact Dnsbl.mem_check_iff hv4

/-- A step keeps what the audits under way rest on. A snapshot is an observation of the present
    state, and a lookup gives the evidence for the call that the audit makes next. -/
theorem Backed.step (h : ∀ a ∈ s.audits, Backed to4 zones s₀ hist a)
    (hrun : Run (AuditedStep to4 zones) s₀ hist s) (hstep : s.AuditedStep to4 zones l s') :
    ∀ a ∈ s'.audits, Backed to4 zones s₀ (hist ++ [l]) a := by
  obtain ⟨action, lookup⟩ := l
  obtain ⟨hstep, hcheck⟩ := hstep
  intro a ha
  -- a snapshot begins an audit, a check gives it evidence, and a call takes that away
  cases action with
  | call e =>
    rw [hstep.2] at ha
    exact (h a ha).snoc
  | auditSnapshot =>
    obtain rfl : s' = _ := hstep
    rcases List.mem_append.mp ha with ha | ha
    · exact (h a ha).snoc
    · obtain rfl := List.mem_singleton.mp ha
      refine ⟨fun item hitem => ?_, fun id reason hcall => by cases hcall⟩
      obtain ⟨r, hr⟩ := mem_auditItems hitem
      exact ⟨hist, _, s, r, rfl, hrun, hr⟩
  | auditCheck k listed =>
    obtain ⟨item, items, hk, rfl⟩ := hstep
    have hback := h _ (List.mem_of_getElem? hk)
    rcases List.mem_or_eq_of_mem_set ha with ha | rfl
    · exact (h a ha).snoc
    · exact ⟨fun item' hitem' => (hback.items item' (List.mem_cons_of_mem _ hitem')).snoc,
        fun id reason hcall => (hback.items item List.mem_cons_self).evidence
          (hcheck item items hk) hcall⟩
  | auditQuarantine k e =>
    obtain ⟨items, id, reason, hk, -, -, haudits⟩ := hstep
    rw [haudits] at ha
    rcases List.mem_or_eq_of_mem_set ha with ha | rfl
    · exact (h a ha).snoc
    · exact ⟨(h _ (List.mem_of_getElem? hk)).snoc.items, fun id reason hcall => by cases hcall⟩

/-- Every `Quarantine` that an audit calls has its evidence earlier in the execution, and the names
    that were looked up for it belong to no other address and to no other zone. -/
theorem evidence_of_quarantine (hinit : s₀.audits = [])
    {before after : List (Action F × Dnsbl.Resolver)} {k : Nat} {e : Event F}
    {lookup : Dnsbl.Resolver}
    (hrun : Run (AuditedStep to4 zones) s₀
      (before ++ (.auditQuarantine k e, lookup) :: after) s) :
    (∃ id reason, e.op = .quarantine id reason ∧ Evidence to4 zones s₀ before id reason) ∧
      ∀ v w zone zone', Dnsbl.query v zone = Dnsbl.query w zone' → v = w ∧ zone = zone' := by
  obtain ⟨u, u', hbefore, hstep, -⟩ := hrun.split_cons
  have hbacked : ∀ a ∈ u.audits, Backed to4 zones s₀ before a :=
    hbefore.history (I := fun hist s => ∀ a ∈ s.audits, Backed to4 zones s₀ hist a)
      (by simp [hinit]) fun _ _ _ _ hr hb hs => Backed.step hb hr hs
  obtain ⟨⟨items, id, reason, hk, hop, -⟩, -⟩ := hstep
  exact ⟨⟨id, reason, hop, (hbacked _ (List.mem_of_getElem? hk)).call id reason rfl⟩,
    fun _ _ _ _ => Dnsbl.query_injective⟩

/-- One identity with an address. -/
def listedManager : Manager Rat :=
  .new { identities := [{ id := "a", ip := "192.0.2.7" }], healthAlpha := 0 } 0

/-- A zone that lists that address. -/
def listedAnswer : Dnsbl.Resolver := fun name =>
  if name = "7.2.0.192.zen.example.org" then some ["127.0.0.2"] else none

/-- One audit of one identity that is listed. -/
theorem evidence_of_quarantine_listed : ∃ (s : Fleet Rat) (k : Nat) (e : Event Rat)
    (before : List (Action Rat × Dnsbl.Resolver)) (id reason : String),
    Run (AuditedStep (fun _ => some ⟨192, 0, 2, 7⟩) ["zen.example.org"])
      { manager := listedManager } (before ++ [(.auditQuarantine k e, listedAnswer)]) s ∧
    e.op = .quarantine id reason ∧
    Evidence (fun _ => some ⟨192, 0, 2, 7⟩) ["zen.example.org"] { manager := listedManager } before
      id reason := by
  -- the snapshot, the lookup and the call, one after the other
  let item : AuditItem := { id := "a", ip := "192.0.2.7", disabled := false }
  let taken : Fleet Rat := { manager := listedManager, audits := [{ items := [item] }] }
  let found : Fleet Rat :=
    { taken with audits := [{ items := [], call := some ("a", "dnsbl:zen.example.org") }] }
  let e : Event Rat :=
    { pre := listedManager, now := 5, op := .quarantine "a" "dnsbl:zen.example.org", ret := none }
  have hsnapshot : ({ manager := listedManager } : Fleet Rat).Step .auditSnapshot taken := by
    have hitems : listedManager.auditItems = [item] := by decide +kernel
    simp [Fleet.Step, hitems, taken]
  have hcheck : taken.Step (.auditCheck 0 ["zen.example.org"]) found := ⟨item, [], rfl, rfl⟩
  let called : Fleet Rat :=
    { manager := listedManager.quarantine 5 "a" "dnsbl:zen.example.org"
      audits := [{ items := [] }] }
  have hcall : found.Step (.auditQuarantine 0 e) called :=
    ⟨[], "a", "dnsbl:zen.example.org", rfl, rfl, ⟨rfl, rfl⟩, rfl⟩
  have hlookup : ["zen.example.org"] =
      Dnsbl.check (fun _ => some ⟨192, 0, 2, 7⟩) ["zen.example.org"] listedAnswer item.ip := by
    decide +kernel
  have hrun : Run (AuditedStep (fun _ => some ⟨192, 0, 2, 7⟩) ["zen.example.org"])
      { manager := listedManager } [(.auditSnapshot, listedAnswer),
        (.auditCheck 0 ["zen.example.org"], listedAnswer), (.auditQuarantine 0 e, listedAnswer)]
      called := by
    refine .cons (t := taken) ⟨hsnapshot, trivial⟩ (.cons (t := found) ⟨hcheck, ?_⟩
      (.cons ⟨hcall, trivial⟩ (.nil _)))
    intro item' items' h
    simp only [taken, List.getElem?_cons_zero, Option.some.injEq, Audit.mk.injEq,
      List.cons.injEq] at h
    rw [← h.1.1]
    exact hlookup
  obtain ⟨⟨id, reason, hop, hevidence⟩, -⟩ := evidence_of_quarantine rfl
    (show Run _ _ ([_, _] ++ _ :: []) _ from hrun)
  exact ⟨_, 0, e, _, id, reason, hrun, hop, hevidence⟩

end Fleet

end Rcptto.Native
