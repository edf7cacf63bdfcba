import Rcptto.Spec.Answers
import Rcptto.Spec.Injection

/-!
# Mail exchangers

`mxStage` combines two lookups, that of the mail exchangers of a domain and that of its own
addresses, and decides whether the address is rejected, probed, or to be tried again. The second
lookup is made before the error of the first one is looked at, and of the errors that may not come
again only one kind is told apart.

## Key results

- `leads_decided`: what the funnel decides, as a table
- `leads_decision_iff`: when that is what it should decide
-/

namespace Rcptto.Native

namespace Pipeline

/-! ## Definitions -/

/-- What the lookups of a domain lead to: an error for the caller, who may try again, a verdict,
    or a probe of these hosts. -/
inductive Decision where
  | retry
  | reject
  | proceed (mx : List String)
  deriving DecidableEq

/-- The error says nothing about the domain: it is temporary, a timeout, or that of a context that
    ended. -/
def LookupError.transient (ended : Bool) : LookupError → Bool
  | .dns _ isTemporary isTimeout => isTemporary || isTimeout || ended
  | .other => ended

/-- A host of a record without the dot at its end, unless that leaves no name. -/
def usableHost (host : String) : Option String :=
  if trimDot host = "" ∨ trimDot host = "." then none else some (trimDot host)

/-- The domain has an address record. -/
def Resolver.hasAddress (r : Resolver) (domain : String) : Bool :=
  match r.lookupHost domain with
  | some (_ :: _) => true
  | _ => false

/-- What the domain itself leads to if it has no usable mail exchanger. -/
def Resolver.fallback (r : Resolver) (domain : String) : Decision :=
  if r.hasAddress domain then .proceed [domain] else .reject

/-- What a successful lookup leads to. A single dot is a null MX. -/
def Resolver.found (r : Resolver) (domain : String) (records : List String) : Decision :=
  if records = ["."] then .reject
  else if records.filterMap usableHost = [] then r.fallback domain
  else .proceed (records.filterMap usableHost)

/-- What the lookups of a domain should lead to. -/
def decision (r : Resolver) (ended : Bool) (domain : String) : Decision :=
  match r.lookupMX domain with
  | .error err => if err.transient ended then .retry else r.fallback domain
  | .ok records => r.found domain records

/-- What they lead to. -/
def decided (r : Resolver) (domain : String) : Decision :=
  match r.lookupMX domain with
  | .error err =>
    if r.hasAddress domain then .proceed [domain]
    else match err with
      | .dns false true _ => .retry
      | _ => .reject
  | .ok records => r.found domain records

/-- The lookup failed with an error that says nothing about the domain, but the domain has an
    address record, or the error is not a temporary one that is not at the same time a negative
    answer. -/
def Misjudged (r : Resolver) (ended : Bool) (domain : String) : Prop :=
  ∃ err, r.lookupMX domain = .error err ∧ err.transient ended = true ∧
    (r.hasAddress domain = true ∨ ∀ isTimeout, err ≠ .dns false true isTimeout)

/-- The run ends as decided. -/
def Leads {F : Type} (out : Except LookupError (Result F)) : Decision → Prop
  | .retry => ∃ err, out = .error err
  | .reject => ∃ res v, out = .ok res ∧ res.outcome = .inl v ∧ v.status = .undeliverable ∧
      (v.subStatus = .domainNotFound ∨ v.subStatus = .noMXRecord)
  | .proceed mx => ∃ res t, out = .ok res ∧ res.outcome = .inr t ∧ t.mx = mx ∧ res.mx = mx

/-- A run ends in one way. -/
theorem Leads.unique {F : Type} {out : Except LookupError (Result F)} {a b : Decision}
    (ha : Leads out a) (hb : Leads out b) : a = b := by
  cases a <;> cases b
  all_goals simp only [Leads] at ha hb
  all_goals grind

section Stage

variable {F : Type} [OfScientific F] {disposable : String → Bool} {r : Resolver} {now : Int}
  {s : State F}

/-- The hosts are those of the records that can be used, without the final dot. -/
theorem mxHosts_eq (records : List String) : mxHosts records = records.filterMap usableHost := by
  rw [mxHosts, List.filter_map, ← List.filterMap_eq_map, List.filterMap_filter]
  congr 1
  funext host
  by_cases hempty : trimDot host = ""
  · simp [usableHost, hempty]
  · by_cases hroot : trimDot host = "."
    · simp [usableHost, hroot]
    · simp [usableHost, hempty, hroot]

/-- The state of an address whose domain is its own mail exchanger. -/
def State.implicit (s : State F) : State F :=
  { s with
    mx := [s.domain]
    checks := { s.checks with mx := { found := true, records := [s.domain] } } }

omit [OfScientific F] in
/-- The domain itself is used if it has an address. -/
theorem implicitMX_eq :
    implicitMX r s = if r.hasAddress s.domain then some s.implicit else none := by
  unfold implicitMX Resolver.hasAddress
  cases r.lookupHost s.domain with
  | none => rfl
  | some addrs =>
    cases addrs with
    | nil => rfl
    | cons addr addrs => rfl

omit [OfScientific F] in
theorem leads_reject {sub : SubStatus} (hsub : sub = .domainNotFound ∨ sub = .noMXRecord)
    (confidence : F) :
    Leads (.ok (s.reject .undeliverable sub confidence now).result) .reject :=
  ⟨_, _, rfl, rfl, rfl, hsub⟩

omit [OfScientific F] in
/-- A state that is not terminal leads to a task. -/
theorem leads_proceed (h : s.terminal = none) :
    Leads (F := F) (.ok s.result) (.proceed s.mx) := by
  have hout : s.result.outcome = .inr
      { email := s.email, normalized := s.normalized, domain := s.domain, provider := s.provider,
        mx := s.mx } := by
    rw [State.result, h]
  exact ⟨_, _, rfl, hout, rfl, rfl⟩

/-- What the stage leads to is the decision. -/
theorem leads_mxStage (h : s.terminal = none) :
    Leads ((mxStage r now s).map fun p => p.2.result) (decided r s.domain) := by
  have himplicit : s.implicit.terminal = none := h
  unfold mxStage decided
  rw [implicitMX_eq]
  cases r.lookupMX s.domain with
  | error err =>
    cases r.hasAddress s.domain with
    | true => exact leads_proceed himplicit
    | false =>
      dsimp only
      -- the error is looked at only now
      rcases err with ⟨_ | _, _ | _, isTimeout⟩ | _
      · exact leads_reject (.inr rfl) _
      · exact ⟨_, rfl⟩
      · exact leads_reject (.inl rfl) _
      · exact leads_reject (.inl rfl) _
      · exact leads_reject (.inr rfl) _
  | ok records =>
    dsimp only
    rw [mxHosts_eq, Resolver.found]
    by_cases hnull : records = ["."]
    · rw [if_pos hnull, if_pos hnull]
      exact leads_reject (.inr rfl) _
    rw [if_neg hnull, if_neg hnull]
    by_cases hnone : records.filterMap usableHost = []
    · rw [if_pos hnone, if_pos (by rw [hnone, List.length_nil]), Resolver.fallback]
      cases r.hasAddress s.domain with
      | true => exact leads_proceed himplicit
      | false => exact leads_reject (.inr rfl) _
    · rw [if_neg hnone, if_neg (mt List.eq_nil_of_length_eq_zero hnone)]
      split
      · exact leads_proceed h
      · exact leads_proceed h

omit [OfScientific F] in
theorem roleStage_keeps (s : State F) :
    ∃ s', roleStage s = .ok (false, s') ∧ s'.domain = s.domain ∧ s'.terminal = s.terminal := by
  unfold roleStage
  split <;> exact ⟨_, rfl, rfl, rfl⟩

omit [OfScientific F] in
theorem freeStage_keeps (s : State F) :
    ∃ s', freeStage s = .ok (false, s') ∧ s'.domain = s.domain ∧ s'.terminal = s.terminal := by
  unfold freeStage
  split <;> exact ⟨_, rfl, rfl, rfl⟩

omit [OfScientific F] in
/-- The last stage decides. -/
theorem runStages_singleton (stage : Stage F) (s : State F) :
    runStages [stage] s = (stage s).map Prod.snd := by
  rw [runStages]
  cases stage s with
  | error err => rfl
  | ok p => exact ite_self _

/-- Of an accepted address that is not disposable only the lookups decide. -/
theorem run_of_kept (r : Resolver) (now : Int) {email : String} {l d : Bytes}
    (h : HasParts email l d) (hkept : disposable (toLower (.ofAscii d)) = false) :
    ∃ s : State F, s.domain = toLower (.ofAscii d) ∧ s.terminal = none ∧
      run disposable r now email = (mxStage r now s).map fun p => p.2.result := by
  have hdisposable : disposableStage disposable now ((normalized (F := F) l d).withInput email) =
      .ok (false, (normalized l d).withInput email) := by
    rw [disposableStage, if_neg]
    simpa [normalized, State.withInput] using hkept
  -- the role and the free stage only add flags
  obtain ⟨s₁, hrole, hdomain₁, hterminal₁⟩ :=
    roleStage_keeps ((normalized (F := F) l d).withInput email)
  obtain ⟨s₂, hfree, hdomain₂, hterminal₂⟩ := freeStage_keeps s₁
  refine ⟨s₂, hdomain₂.trans hdomain₁, hterminal₂.trans hterminal₁, ?_⟩
  rw [run_of_parts disposable r now h, lateStages, runStages_cons_of_ok hdisposable rfl,
    runStages_cons_of_ok hrole hterminal₁,
    runStages_cons_of_ok hfree (hterminal₂.trans hterminal₁), runStages_singleton]
  cases mxStage r now s₂ with
  | error err => rfl
  | ok p => rfl

/-- What the funnel decides about such an address, whatever the lookups answer. -/
theorem leads_decided (r : Resolver) (now : Int) {email : String} {l d : Bytes}
    (h : HasParts email l d) (hkept : disposable (toLower (.ofAscii d)) = false) :
    Leads (run (F := F) disposable r now email) (decided r (toLower (.ofAscii d))) := by
  obtain ⟨s, hdomain, hterminal, hrun⟩ := run_of_kept (F := F) r now h hkept
  rw [hrun, ← hdomain]
  exact leads_mxStage hterminal

end Stage

/-! ## Judgement -/

/-- The table of the code and the one it should have differ at misjudged domains only. -/
theorem decision_eq_decided_iff (r : Resolver) (ended : Bool) (domain : String) :
    decision r ended domain = decided r domain ↔ ¬ Misjudged r ended domain := by
  unfold decision decided Misjudged
  cases r.lookupMX domain with
  | ok records => simp
  | error err =>
    simp only [Except.error.injEq, exists_eq_left', Resolver.fallback]
    cases r.hasAddress domain with
    | true => simp
    | false =>
      -- only a temporary error is returned, and only if it is not a negative answer as well
      rcases err with ⟨_ | _, _ | _, isTimeout⟩ | _ <;> simp [LookupError.transient]

end Pipeline

open Pipeline

/-- For an accepted address that is not disposable, the funnel ends as the lookups of its domain
    should make it end, if and only if the domain is not misjudged. An error is passed on by
    `Verify`, which asks nobody and stores nothing. -/
theorem leads_decision_iff {F : Type} [OfScientific F] (s : Service) (o : Outside F) (ended : Bool)
    {email : String} {l d : Bytes} (h : HasParts email l d)
    (hkept : s.disposable (toLower (.ofAscii d)) = false) :
    (Leads (run (F := F) s.disposable o.resolver o.checkedAt email)
        (decision o.resolver ended (toLower (.ofAscii d))) ↔
      ¬ Misjudged o.resolver ended (toLower (.ofAscii d))) ∧
    ∀ err, run (F := F) s.disposable o.resolver o.checkedAt email = .error err →
      ∀ cache, s.verify o email cache =
        { result := .error (.funnel err), cache := cache, calls := [] } := by
  refine ⟨?_, fun err herr cache => ?_⟩
  · have hdecided := leads_decided (F := F) o.resolver o.checkedAt h hkept
    refine Iff.trans ⟨fun hleads => hleads.unique hdecided, fun heq => ?_⟩
      (decision_eq_decided_iff o.resolver ended _)
    rw [heq]
    exact hdecided
  · exact Service.verify_of_error herr

/-- The lookup of the mail exchangers fails with this error, and that of the addresses of the
    domain answers this. -/
def failingOutside (err : LookupError) (addrs : Option (List String)) : Outside ℚ :=
  { plainOutside ℚ with
    resolver := { lookupMX := fun _ => .error err, lookupHost := fun _ => addrs } }

theorem hasParts_example : HasParts "a@example.org" "a".utf8Bytes "example.org".utf8Bytes := by
  unfold HasParts
  decide +kernel

/-- A temporary error for a domain without an address record is returned. -/
theorem leads_decision_temporary :
    Leads (run (F := ℚ) plainService.disposable
      (failingOutside (.dns false true false) none).resolver 0 "a@example.org") .retry :=
  (leads_decision_iff plainService (failingOutside (.dns false true false) none) false
    hasParts_example (by decide +kernel)).1.mpr (by
      rintro ⟨err, herr, -, haddress | hother⟩
      · cases haddress
      · cases herr
        exact hother false rfl)

/-- All should be tried again. With an address record, a temporary error leads to a probe of the
    domain. Without one, a timeout leads to a verdict, and so does the error of a context, as it
    is or as that of a lookup; the verdict is stored. -/
theorem transient_errors_judged :
    (decision (failingOutside (.dns false true false) (some ["192.0.2.1"])).resolver false
        "example.org" = .retry ∧
      Leads (run (F := ℚ) plainService.disposable
        (failingOutside (.dns false true false) (some ["192.0.2.1"])).resolver 0 "a@example.org")
        (.proceed ["example.org"])) ∧
    (decision (failingOutside (.dns false false true) none).resolver false "example.org" = .retry ∧
      Leads (run (F := ℚ) plainService.disposable
        (failingOutside (.dns false false true) none).resolver 0 "a@example.org") .reject) ∧
    ∀ err ∈ [.other, .dns false false false],
      decision (failingOutside err none).resolver true "example.org" = .retry ∧
      ((plainService.verify (failingOutside err none) "a@example.org" fun _ => none).cache
          "a@example.org").map (fun e => (e.verdict.status, e.verdict.subStatus)) =
        some (.undeliverable, .noMXRecord) := by
  have hdomain : toLower (.ofAscii "example.org".utf8Bytes) = "example.org" := by decide +kernel
  have hleads : ∀ err addrs, Leads
      (run (F := ℚ) plainService.disposable (failingOutside err addrs).resolver 0 "a@example.org")
      (decided (failingOutside err addrs).resolver "example.org") := by
    intro err addrs
    rw [← hdomain]
    exact leads_decided _ _ hasParts_example (by decide +kernel)
  refine ⟨⟨rfl, hleads _ _⟩, ⟨rfl, hleads _ _⟩, fun err herr => ?_⟩
  rcases List.mem_pair.mp herr with rfl | rfl
  · exact ⟨rfl, by decide +kernel⟩
  · exact ⟨rfl, by decide +kernel⟩

end Rcptto.Native
