import Rcptto.Native.Verifier
import Rcptto.Spec.Address

/-!
# What the funnel says of an address

The fields of a verdict that depend on the address only are settled before the network is
asked. `addressFields` gives them in closed form; every result of the funnel has them, whatever
DNS answers.

## Key results

- `Pipeline.run_tells`: the funnel's result has the fields of its address
- `Pipeline.run_reasoned`: the reasons that the funnel gives
- `addressFields_eq_of_key`: how far the key of an address determines its fields
-/

namespace Rcptto.Native

/-- The fields of a verdict that depend on the address only. -/
@[ext]
structure AddressFields where
  email : String
  normalized : String
  syntaxCheck : SyntaxCheck
  disposable : Bool
  role : Bool
  free : Bool
  deriving DecidableEq

/-- These fields of a verdict. -/
def Verdict.fields {F : Type} (v : Verdict F) : AddressFields where
  email := v.email
  normalized := v.normalized
  syntaxCheck := v.checks.syntaxCheck
  disposable := v.checks.disposable
  role := v.checks.role
  free := v.checks.free

/-- The provider class of a domain before its mail exchangers are known. -/
def providerClass (domain : String) : String :=
  if providerForDomain domain = "" then "custom" else providerForDomain domain

/-- The fields of an address. -/
def addressFields (disposable : String → Bool) (email : String) : AddressFields :=
  match splitAndValidate (trimSpace email).utf8Bytes with
  | none =>
    { email := trimSpace email
      normalized := email
      syntaxCheck := { valid := false }
      disposable := false
      role := false
      free := false }
  | some (localPart, domain) =>
    let localPart := String.ofAscii localPart
    let domain := toLower (.ofAscii domain)
    -- the funnel ends at a disposable domain and asks nothing more of the address
    { email := localPart ++ "@" ++ domain
      normalized := Pipeline.canonicalKey localPart domain (providerClass domain)
      syntaxCheck := { valid := true }
      disposable := disposable domain
      role := !disposable domain && isRoleAccount localPart
      free := !disposable domain && isFreeDomain domain }

/-- The address is accepted, with these two parts. -/
def HasParts (email : String) (l d : Bytes) : Prop :=
  splitAndValidate (trimSpace email).utf8Bytes = some (l, d)

theorem hasParts_or_none (email : String) :
    (∃ l d, HasParts email l d) ∨ splitAndValidate (trimSpace email).utf8Bytes = none := by
  cases h : splitAndValidate (trimSpace email).utf8Bytes with
  | none => exact .inr rfl
  | some parts => exact .inl ⟨parts.1, parts.2, h⟩

namespace Pipeline

variable {F : Type} [OfScientific F]

/-- The confidences of the funnel's verdicts. -/
def rejectConfidences : List F := [0.99, 0.98, 0.95, 0.9]

/-- The reasons of the funnel's verdicts. -/
def rejectReasons : List SubStatus := [.invalidSyntax, .disposable, .domainNotFound, .noMXRecord]

/-- A verdict of the funnel on an address with these fields. -/
def Rejects (v : Verdict F) (f : AddressFields) : Prop :=
  v.fields = f ∧ v.status.valid = true ∧ v.confidence ∈ rejectConfidences (F := F)

/-- The fields of an address in the state of the funnel. -/
def State.fields (s : State F) : AddressFields where
  email := s.email
  normalized := s.normalized
  syntaxCheck := s.checks.syntaxCheck
  disposable := s.checks.disposable
  role := s.checks.role
  free := s.checks.free

/-- The fields of an address in a result of the funnel. -/
def Result.fields (res : Result F) : AddressFields where
  email := match res.outcome with
    | .inl v => v.email
    | .inr t => t.email
  normalized := Service.cacheKey res
  syntaxCheck := res.checks.syntaxCheck
  disposable := res.checks.disposable
  role := res.checks.role
  free := res.checks.free

/-- The state has these fields, and so has its verdict if there is one. -/
def State.Tells (s : State F) (f : AddressFields) : Prop :=
  s.fields = f ∧ ∀ v, s.terminal = some v → Rejects v f

/-- The result has these fields, and so has its verdict if there is one. -/
def Result.Tells (res : Result F) (f : AddressFields) : Prop :=
  res.fields = f ∧ ∀ v, res.outcome = .inl v → Rejects v f

/-- What a state tells of its address, its result tells too. -/
theorem State.Tells.result {s : State F} {f : AddressFields} (h : s.Tells f) :
    s.result.Tells f := by
  obtain ⟨rfl, hterminal⟩ := h
  -- the result is a task or the verdict of a stage
  cases hs : s.terminal with
  | none =>
    rw [State.result, hs]
    exact ⟨rfl, fun v hv => by cases hv⟩
  | some v =>
    have hv := hterminal v hs
    rw [State.result, hs]
    refine ⟨?_, fun v' hv' => by cases hv'; exact hv⟩
    show AddressFields.mk v.fields.email v.fields.normalized _ _ _ _ = _
    rw [hv.1]
    rfl

section Stages

variable {s s' : State F} {f : AddressFields} {stop : Bool} {now : Int}

/-- A rejection tells what the state does. -/
theorem reject_tells {status : Status} {confidence : F} (h : s.fields = f)
    (hstatus : status.valid = true) (hconfidence : confidence ∈ rejectConfidences (F := F))
    (sub : SubStatus) : (s.reject status sub confidence now).Tells f := by
  refine ⟨h, fun v hv => ?_⟩
  cases hv
  exact ⟨h, hstatus, hconfidence⟩

/-- The state with the hosts that receive the mail of the domain. -/
def State.found (s : State F) (hosts : List String) (provider : String) : State F :=
  { s with
    mx := hosts
    checks := { s.checks with mx := { found := true, records := hosts } }
    provider := provider }

omit [OfScientific F] in
/-- The domain as its own mail exchanger. -/
theorem implicitMX_eq_some {r : Resolver} (h : implicitMX r s = some s') :
    s' = s.found [s.domain] s.provider := by
  unfold implicitMX at h
  split at h
  · cases h
  · split at h
    · cases h
    · cases h
      rfl

omit [OfScientific F] in
/-- The role stage sets its flag and goes on. -/
theorem roleStage_eq (h : s.checks.role = false) :
    roleStage s =
      .ok (false, { s with checks := { s.checks with role := isRoleAccount s.localPart } }) := by
  unfold roleStage
  cases isRoleAccount s.localPart with
  | false => simp [← h]
  | true => rfl

omit [OfScientific F] in
/-- The free stage sets its flag and goes on. -/
theorem freeStage_eq (h : s.checks.free = false) :
    freeStage s =
      .ok (false, { s with checks := { s.checks with free := isFreeDomain s.domain } }) := by
  unfold freeStage
  cases isFreeDomain s.domain with
  | false => simp [← h]
  | true => rfl

/-- The stage that asks the network finds hosts or rejects the address. It looks at the hosts for
    the class of a custom domain only. -/
theorem mxStage_ok {r : Resolver} (h : mxStage r now s = .ok (stop, s')) :
    (∃ hosts provider, s' = s.found hosts provider ∧
        (provider = s.provider ∨
          s.provider = "custom" ∧ provider = refineProviderFromMX hosts)) ∨
      ∃ sub ∈ rejectReasons, ∃ confidence ∈ rejectConfidences (F := F),
        s' = s.reject .undeliverable sub confidence now := by
  unfold mxStage at h
  split at h
  · split at h
    · next himplicit =>
      cases h
      exact .inl ⟨_, _, implicitMX_eq_some himplicit, .inl rfl⟩
    · split at h <;> cases h <;>
        exact .inr ⟨_, by decide, _, by simp [rejectConfidences], rfl⟩
  · split at h
    · -- the null record
      cases h
      exact .inr ⟨_, by decide, _, by simp [rejectConfidences], rfl⟩
    · dsimp only at h
      split at h
      · split at h
        · next himplicit =>
          cases h
          exact .inl ⟨_, _, implicitMX_eq_some himplicit, .inl rfl⟩
        · cases h
          exact .inr ⟨_, by decide, _, by simp [rejectConfidences], rfl⟩
      · split at h
        · next hcustom =>
          cases h
          simp only [Bool.and_eq_true, decide_eq_true_eq] at hcustom
          exact .inl ⟨_, _, rfl, .inr ⟨hcustom.1, rfl⟩⟩
        · cases h
          exact .inl ⟨_, _, rfl, .inl rfl⟩

/-- It changes nothing that a verdict says, or rejects the address. -/
theorem mxStage_cases {r : Resolver} (h : mxStage r now s = .ok (stop, s')) :
    s'.fields = s.fields ∧ s'.domain = s.domain ∧ s'.terminal = s.terminal ∨
      ∃ sub ∈ rejectReasons, ∃ confidence ∈ rejectConfidences (F := F),
        s' = s.reject .undeliverable sub confidence now := by
  rcases mxStage_ok h with ⟨hosts, provider, rfl, -⟩ | hreject
  · exact .inl ⟨rfl, rfl, rfl⟩
  · exact .inr hreject

/-- The MX stage adds nothing to the address. -/
theorem mxStage_tells {r : Resolver} (h : s.Tells f) (hstage : mxStage r now s = .ok (stop, s')) :
    s'.Tells f := by
  rcases mxStage_cases hstage with
    ⟨hfields, -, hterminal⟩ | ⟨sub, -, confidence, hconfidence, rfl⟩
  · exact ⟨hfields.trans h.1, hterminal ▸ h.2⟩
  · exact reject_tells h.1 rfl hconfidence sub

/-- The stages leave a state with the fields of the address they started from. -/
theorem runStages_tells {disposable : String → Bool} {r : Resolver} {email : String}
    (h : runStages (stages disposable r now)
      { input := email, email := email, normalized := email } = .ok s) :
    s.Tells (addressFields disposable email) := by
  unfold stages localStages at h
  unfold addressFields
  -- the funnel ends at a syntax error, at a disposable domain, or in the stage that asks DNS
  cases hsplit : splitAndValidate (trimSpace email).utf8Bytes with
  | none =>
    simp only [List.cons_append, runStages, syntaxStage, hsplit, Bool.true_or, if_true] at h
    cases h
    exact reject_tells rfl rfl (by simp [rejectConfidences]) _
  | some parts =>
    obtain ⟨l, d⟩ := parts
    cases hlisted : disposable (toLower (.ofAscii d)) with
    | true =>
      simp only [List.cons_append, runStages, syntaxStage, hsplit, normalizeStage,
        disposableStage, hlisted, Bool.true_or, if_true, Option.isSome_none, Bool.or_self,
        Bool.false_eq_true, if_false] at h
      cases h
      exact reject_tells (by simp [State.fields, hlisted, providerClass]) rfl
        (by simp [rejectConfidences]) _
    | false =>
      simp only [List.cons_append, runStages, syntaxStage, hsplit, normalizeStage,
        disposableStage, hlisted, Option.isSome_none, Bool.or_self, Bool.false_eq_true,
        if_false, roleStage_eq, freeStage_eq, List.nil_append] at h
      split at h
      · cases h
      · next hmx =>
        rw [ite_self] at h
        cases h
        refine mxStage_tells ⟨?_, fun v hv => by cases hv⟩ hmx
        simp [State.fields, providerClass, hlisted]

/-- The funnel's result has the fields of its address. -/
theorem run_tells {disposable : String → Bool} {r : Resolver} {email : String} {res : Result F}
    (h : run disposable r now email = .ok res) : res.Tells (addressFields disposable email) := by
  unfold run at h
  split at h
  · cases h
  · next hs =>
    cases h
    exact (runStages_tells hs).result

/-- The verdict of the state, if there is one, has a reason of the funnel. -/
def State.Reasoned (s : State F) : Prop := ∀ v, s.terminal = some v → v.subStatus ∈ rejectReasons

omit [OfScientific F] in
/-- A rejection with one of the reasons of the funnel. -/
theorem reject_reasoned {status : Status} {sub : SubStatus} {confidence : F}
    (h : sub ∈ rejectReasons) : (s.reject status sub confidence now).Reasoned := by
  intro v hv
  cases hv
  exact h

omit [OfScientific F] in
/-- What every stage keeps holds after the loop. -/
theorem runStages_invariant {P : State F → Prop} {stages : List (Stage F)}
    (hstages : ∀ stage ∈ stages, ∀ s stop s', P s → stage s = .ok (stop, s') → P s') (hs : P s)
    (h : runStages stages s = .ok s') : P s' := by
  -- by induction on the stages: one of them fails, stops, or leaves its state to the next
  induction stages generalizing s with
  | nil =>
    cases h
    exact hs
  | cons stage stages ih =>
    unfold runStages at h
    cases hstage : stage s with
    | error err =>
      rw [hstage] at h
      cases h
    | ok next =>
      obtain ⟨stop, t⟩ := next
      have ht : P t := hstages stage (by simp) s stop t hs hstage
      simp only [hstage] at h
      split at h
      · cases h
        exact ht
      · exact ih (fun stage' hmem => hstages stage' (List.mem_cons_of_mem _ hmem)) ht h

/-- A stage leaves the verdict of the state alone, or rejects the address for one of the reasons.
    The check of a conversation is not its business. -/
theorem stages_cases {disposable : String → Bool} {r : Resolver} {stage : Stage F}
    (hstage : stage ∈ stages disposable r now) (h : stage s = .ok (stop, s')) :
    (s'.terminal = s.terminal ∧ s'.checks.smtp = s.checks.smtp) ∨
      ∃ (s₀ : State F) (status : Status) (confidence : F), ∃ sub ∈ rejectReasons,
        s₀.checks.smtp = s.checks.smtp ∧ s' = s₀.reject status sub confidence now := by
  simp only [stages, localStages, List.cons_append, List.nil_append, List.mem_cons,
    List.not_mem_nil, or_false] at hstage
  -- one case for each of the six stages
  rcases hstage with rfl | rfl | rfl | rfl | rfl | rfl
  · unfold syntaxStage at h
    dsimp only at h
    split at h <;> cases h
    · exact .inr ⟨{ s with
        email := _, checks := { s.checks with syntaxCheck := { valid := false } } }, _, _, _,
        by decide, rfl, rfl⟩
    · exact .inl ⟨rfl, rfl⟩
  · cases h
    exact .inl ⟨rfl, rfl⟩
  · unfold disposableStage at h
    split at h <;> cases h
    · exact .inr ⟨{ s with checks := { s.checks with disposable := true } }, _, _, _, by decide,
        rfl, rfl⟩
    · exact .inl ⟨rfl, rfl⟩
  · unfold roleStage at h
    split at h <;> cases h <;> exact .inl ⟨rfl, rfl⟩
  · unfold freeStage at h
    split at h <;> cases h <;> exact .inl ⟨rfl, rfl⟩
  · rcases mxStage_ok h with ⟨hosts, provider, rfl, -⟩ | ⟨sub, hsub, confidence, -, rfl⟩
    · exact .inl ⟨rfl, rfl⟩
    · exact .inr ⟨s, _, confidence, sub, hsub, rfl, rfl⟩

omit [OfScientific F] in
/-- A task is for the address of its state. -/
theorem result_outcome_inr {t : Task} (h : s.result.outcome = .inr t) :
    t.email = s.email ∧ t.domain = s.domain := by
  unfold State.result at h
  split at h
  · cases h
  · cases h
    exact ⟨rfl, rfl⟩

omit [OfScientific F] in
/-- A verdict of the funnel is the one that its state stopped with. -/
theorem result_outcome_inl {v : Verdict F} (h : s.result.outcome = .inl v) :
    s.terminal = some v := by
  cases hterminal : s.terminal with
  | none => simp [State.result, hterminal] at h
  | some v' =>
    obtain rfl : v' = v := by simpa [State.result, hterminal] using h
    rfl

/-- What every rejection has holds of the verdicts of the funnel. -/
theorem run_verdict {P : Verdict F → Prop} {disposable : String → Bool} {r : Resolver}
    {email : String} {res : Result F} {v : Verdict F}
    (hP : ∀ (s : State F) status confidence, ∀ sub ∈ rejectReasons, ∀ v,
      (s.reject status sub confidence now).terminal = some v → P v)
    (h : run disposable r now email = .ok res) (hv : res.outcome = .inl v) : P v := by
  unfold run at h
  split at h
  · cases h
  · next s hs =>
    cases h
    have hkept : ∀ v, s.terminal = some v → P v := by
      -- every verdict in a state was put there by `Reject`
      refine runStages_invariant (P := fun s : State F => ∀ v, s.terminal = some v → P v)
        (fun stage hstage a stop b ha hb => ?_) (fun v hv => by cases hv) hs
      rcases stages_cases hstage hb with ⟨hsame, -⟩ | ⟨s₀, status, confidence, sub, hsub, -, rfl⟩
      · rwa [hsame]
      · exact hP s₀ status confidence sub hsub
    exact hkept v (result_outcome_inl hv)

/-- A verdict of the funnel has one of its reasons. -/
theorem run_reasoned {disposable : String → Bool} {r : Resolver} {email : String} {res : Result F}
    {v : Verdict F} (h : run disposable r now email = .ok res) (hv : res.outcome = .inl v) :
    v.subStatus ∈ rejectReasons :=
  run_verdict (P := fun v => v.subStatus ∈ rejectReasons)
    (fun _ _ _ _ hsub => reject_reasoned hsub) h hv

/-- A verdict of the funnel is not marked as cached. -/
theorem run_cached {disposable : String → Bool} {r : Resolver} {email : String} {res : Result F}
    {v : Verdict F} (h : run disposable r now email = .ok res) (hv : res.outcome = .inl v) :
    v.cached = false := by
  refine run_verdict (P := fun v => v.cached = false) ?_ h hv
  intro s status confidence sub _ v hv
  cases hv
  rfl

/-- The funnel does not speak of a conversation. -/
def State.Unprobed (s : State F) : Prop :=
  s.checks.smtp = {} ∧ ∀ v, s.terminal = some v → v.checks.smtp = {}

/-- No stage of the funnel fills in the check of a conversation. -/
theorem stages_unprobed {disposable : String → Bool} {r : Resolver} {stage : Stage F}
    (hstage : stage ∈ stages disposable r now) (hs : s.Unprobed) (h : stage s = .ok (stop, s')) :
    s'.Unprobed := by
  obtain ⟨hsmtp, hterminal⟩ := hs
  rcases stages_cases hstage h with ⟨hsame, hkept⟩ | ⟨s₀, status, confidence, sub, -, hkept, rfl⟩
  · exact ⟨hkept.trans hsmtp, hsame ▸ hterminal⟩
  · -- a rejection has the checks of its state
    refine ⟨hkept.trans hsmtp, fun v hv => ?_⟩
    cases hv
    exact hkept.trans hsmtp

/-- The result of the funnel does not speak of a conversation. -/
theorem run_unprobed {disposable : String → Bool} {r : Resolver} {email : String} {res : Result F}
    (h : run disposable r now email = .ok res) :
    res.checks.smtp = {} ∧ ∀ v, res.outcome = .inl v → v.checks.smtp = {} := by
  unfold run at h
  split at h
  · cases h
  · next s hs =>
    cases h
    have hunprobed : s.Unprobed :=
      runStages_invariant (fun stage hstage _ _ _ ha hb => stages_unprobed hstage ha hb)
        ⟨rfl, fun v hv => by cases hv⟩ hs
    exact ⟨hunprobed.1, fun v hv => hunprobed.2 v (result_outcome_inl hv)⟩

/-- Only an accepted address is probed. -/
theorem accepted_of_task {disposable : String → Bool} {r : Resolver} {email : String}
    {res : Result F} {t : Task} (h : run disposable r now email = .ok res)
    (htask : res.outcome = .inr t) : ∃ l d, HasParts email l d := by
  rcases hasParts_or_none email with hparts | hnone
  · exact hparts
  · simp only [run, stages, localStages, List.cons_append, runStages, syntaxStage, hnone,
      Bool.true_or, if_true] at h
    cases h
    cases htask

end Stages

end Pipeline

/-! ## Addresses with the same key -/

/-- An accepted address of a consumer domain of Gmail. -/
def AtGmail (email : String) : Prop :=
  ∃ l d, HasParts email l d ∧ toLower (.ofAscii d) ∈ ["gmail.com", "googlemail.com"]

/-- Two domains have the class of Gmail. -/
theorem providerClass_eq_gmail_iff {domain : String} :
    providerClass domain = "gmail" ↔ domain ∈ ["gmail.com", "googlemail.com"] := by
  constructor
  · intro h
    unfold providerClass providerForDomain at h
    -- a domain that is not in the table has the class `custom`
    cases hlookup : providerDomains.lookup domain with
    | none => simp [hlookup] at h
    | some provider =>
      obtain ⟨l₁, l₂, hmem, -⟩ := List.lookup_eq_some_iff.mp hlookup
      have hprovider : provider = "gmail" := by
        rw [hlookup, Option.getD_some] at h
        split at h
        · exact absurd h (by decide)
        · exact h
      have hin : (domain, provider) ∈ providerDomains := by simp [hmem]
      rw [hprovider] at hin
      simpa [providerDomains] using hin
  · intro h
    rcases List.mem_pair.mp h with rfl | rfl <;> decide +kernel

section Keys

variable (disposable : String → Bool) {email : String} {l d : Bytes}

theorem addressFields_of_none (h : splitAndValidate (trimSpace email).utf8Bytes = none) :
    addressFields disposable email =
      { email := trimSpace email, normalized := email, syntaxCheck := { valid := false },
        disposable := false, role := false, free := false } := by
  rw [addressFields, h]

omit disposable in
theorem HasParts.ascii (h : HasParts email l d) : (∀ b ∈ l, b < 128) ∧ ∀ b ∈ d, b < 128 := by
  have hmem := mem_of_splitAndValidate h
  rw [(splitAndValidate_eq_some_iff.mp h).1] at hmem
  exact ⟨fun b hb => (hmem b (by simp [hb])).1, fun b hb => (hmem b (by simp [hb])).1⟩

/-- The key of an accepted address, in bytes. -/
theorem normalized_of_parts (h : HasParts email l d) :
    (addressFields disposable email).normalized =
      .ofAscii (keyBytes l (d.map lowerByte) (providerClass (toLower (.ofAscii d)))) := by
  rw [addressFields, h]
  dsimp only
  rw [toLower_ofAscii h.ascii.2, canonicalKey_ofAscii h.ascii.1]

/-- The key of an accepted address is accepted itself, unless it is `@gmail.com`. -/
theorem splitAndValidate_normalized (h : HasParts email l d)
    (hkey : (addressFields disposable email).normalized ≠ "@gmail.com") :
    splitAndValidate (trimSpace (addressFields disposable email).normalized).utf8Bytes =
      some (keyParts l (d.map lowerByte) (providerClass (toLower (.ofAscii d)))) := by
  rw [normalized_of_parts disposable h] at hkey ⊢
  refine splitAndValidate_trimSpace (splitAndValidate_key h fun hgmail hnil => hkey ?_)
  rw [hgmail, keyBytes_of_gmailLocal_eq_nil hnil]

/-- The fields of an address with its two parts. -/
theorem addressFields_of_parts (h : HasParts email l d) :
    addressFields disposable email =
      { email := .ofAscii l ++ "@" ++ toLower (.ofAscii d)
        normalized := (addressFields disposable email).normalized
        syntaxCheck := { valid := true }
        disposable := disposable (toLower (.ofAscii d))
        role := !disposable (toLower (.ofAscii d)) && isRoleAccount (.ofAscii l)
        free := !disposable (toLower (.ofAscii d)) && isFreeDomain (toLower (.ofAscii d)) } := by
  rw [addressFields, h]

/-- The key of an accepted address is not empty. -/
theorem normalized_ne_empty (h : HasParts email l d) :
    (addressFields disposable email).normalized ≠ "" := by
  rw [normalized_of_parts disposable h, keyBytes, String.ofAscii_append]
  intro hempty
  have := congrArg String.toList hempty
  simp at this

-- from here on the fields are known through these lemmas only
attribute [irreducible] addressFields

end Keys

/-- The same fields, with an email in another letter case. -/
def AddressFields.SameButCase (f f' : AddressFields) : Prop :=
  f = { f' with email := f.email } ∧ toLower f.email = toLower f'.email

theorem AddressFields.SameButCase.refl (f : AddressFields) : f.SameButCase f := ⟨rfl, rfl⟩

/-- How the fields of `e` and `e'` are related if the addresses share a key. -/
structure Akin (disposable : String → Bool) (e e' : String) : Prop where
  /-- Both are accepted, or none. -/
  syntaxCheck : (addressFields disposable e).syntaxCheck = (addressFields disposable e').syntaxCheck
  /-- A text that is no address shares its key with no other. -/
  invalid : (addressFields disposable e').syntaxCheck.valid = false → e = e'
  /-- Outside Gmail the addresses differ in letter case only. -/
  elsewhere : ¬ AtGmail e' → (addressFields disposable e).SameButCase (addressFields disposable e')
  /-- If no difference is made between the domains of Gmail, both are disposable, or none, and
      both are free, or none. -/
  gmail : disposable "gmail.com" = disposable "googlemail.com" →
    (addressFields disposable e).disposable = (addressFields disposable e').disposable ∧
    (addressFields disposable e).free = (addressFields disposable e').free

theorem Akin.refl (disposable : String → Bool) (e : String) : Akin disposable e e where
  syntaxCheck := rfl
  invalid _ := rfl
  elsewhere _ := .refl _
  gmail _ := ⟨rfl, rfl⟩

theorem toLower_append (s t : String) : toLower (s ++ t) = toLower s ++ toLower t := by
  simp [toLower]

/-- Accepted addresses that share a key are in the same lower-case domain with the same
    lower-case local part, or both at Gmail. -/
theorem parts_of_key {disposable : String → Bool} {e e' : String} {l d l' d' : Bytes}
    (h : HasParts e l d) (h' : HasParts e' l' d')
    (hkey : (addressFields disposable e).normalized = (addressFields disposable e').normalized)
    (hslip : (addressFields disposable e').normalized ≠ "@gmail.com") :
    (toLower (.ofAscii l) = toLower (.ofAscii l') ∧ toLower (.ofAscii d) = toLower (.ofAscii d')) ∨
    (toLower (.ofAscii d) ∈ ["gmail.com", "googlemail.com"] ∧
      toLower (.ofAscii d') ∈ ["gmail.com", "googlemail.com"]) := by
  have hparts := splitAndValidate_normalized disposable h (by rw [hkey]; exact hslip)
  rw [hkey, splitAndValidate_normalized disposable h' hslip, Option.some.injEq] at hparts
  by_cases hclass : providerClass (toLower (.ofAscii d)) = "gmail"
  · refine .inr ⟨providerClass_eq_gmail_iff.mp hclass, ?_⟩
    by_cases hclass' : providerClass (toLower (.ofAscii d')) = "gmail"
    · exact providerClass_eq_gmail_iff.mp hclass'
    · rw [keyParts, if_neg hclass', keyParts, if_pos hclass, Prod.mk.injEq] at hparts
      rw [toLower_ofAscii h'.ascii.2, hparts.2, ofAscii_gmailDomain]
      exact List.mem_cons_self
  · by_cases hclass' : providerClass (toLower (.ofAscii d')) = "gmail"
    · -- a domain that is spelled `gmail.com` is at Gmail
      rw [keyParts, if_pos hclass', keyParts, if_neg hclass, Prod.mk.injEq] at hparts
      rw [toLower_ofAscii h.ascii.2, ← hparts.2, ofAscii_gmailDomain] at hclass
      exact absurd (providerClass_eq_gmail_iff.mpr List.mem_cons_self) hclass
    · rw [keyParts, if_neg hclass', keyParts, if_neg hclass, Prod.mk.injEq] at hparts
      rw [toLower_ofAscii h.ascii.1, toLower_ofAscii h'.ascii.1, toLower_ofAscii h.ascii.2,
        toLower_ofAscii h'.ascii.2, hparts.1, hparts.2]
      exact .inl ⟨rfl, rfl⟩

/-- Accepted addresses with one key are akin, unless the key is that of a tag only. -/
theorem akin_of_parts {disposable : String → Bool} {e e' : String} {l d l' d' : Bytes}
    (h : HasParts e l d) (h' : HasParts e' l' d')
    (hkey : (addressFields disposable e).normalized = (addressFields disposable e').normalized)
    (hslip : (addressFields disposable e').normalized ≠ "@gmail.com") : Akin disposable e e' := by
  have hfields := addressFields_of_parts disposable h
  have hfields' := addressFields_of_parts disposable h'
  have hvalid' : (addressFields disposable e').syntaxCheck.valid = true := by rw [hfields']
  refine ⟨by rw [hfields, hfields'], fun hinvalid => absurd hinvalid (by simp [hvalid']), ?_, ?_⟩
  · -- outside of Gmail the parts are the same but for their case
    intro helsewhere
    rcases parts_of_key h h' hkey hslip with ⟨hl, hd⟩ | ⟨-, hd'⟩
    · have hrole : isRoleAccount (.ofAscii l) = isRoleAccount (.ofAscii l') := by
        rw [isRoleAccount, hl, isRoleAccount]
      refine ⟨AddressFields.ext rfl hkey ?_ ?_ ?_ ?_, ?_⟩
      all_goals rw [hfields, hfields']
      all_goals simp only [hd, hrole, toLower_append, hl]
    · exact absurd ⟨l', d', h', hd'⟩ helsewhere
  · intro halike
    rcases parts_of_key h h' hkey hslip with ⟨hl, hd⟩ | ⟨hd, hd'⟩
    · rw [hfields, hfields', hd]
      exact ⟨rfl, rfl⟩
    · -- the free domains have both spellings, the disposable ones have to treat them alike
      have hfree : ∀ domain ∈ ["gmail.com", "googlemail.com"], isFreeDomain domain = true := by
        decide +kernel
      have hlisted : ∀ domain ∈ ["gmail.com", "googlemail.com"],
          disposable domain = disposable "gmail.com" := by simp [halike]
      rw [hfields, hfields']
      dsimp only
      rw [hfree _ hd, hfree _ hd', hlisted _ hd, hlisted _ hd']
      exact ⟨rfl, rfl⟩

/-- Addresses that share a key are akin, unless the key is `@gmail.com`. -/
theorem akin_of_key {disposable : String → Bool} {e e' : String}
    (hkey : (addressFields disposable e).normalized = (addressFields disposable e').normalized)
    (hslip : (addressFields disposable e').normalized ≠ "@gmail.com") : Akin disposable e e' := by
  rcases hasParts_or_none e with ⟨l, d, h⟩ | h <;> rcases hasParts_or_none e' with ⟨l', d', h'⟩ | h'
  · exact akin_of_parts h h' hkey hslip
  · -- the key of an accepted address would be a text that is not accepted
    have hsplit := splitAndValidate_normalized disposable h (by rw [hkey]; exact hslip)
    rw [hkey, addressFields_of_none disposable h', h'] at hsplit
    cases hsplit
  · have hsplit := splitAndValidate_normalized disposable h' hslip
    rw [← hkey, addressFields_of_none disposable h, h] at hsplit
    cases hsplit
  · -- a text that is not accepted is its own key
    rw [addressFields_of_none disposable h, addressFields_of_none disposable h'] at hkey
    obtain rfl : e = e' := hkey
    exact .refl disposable e

end Rcptto.Native
