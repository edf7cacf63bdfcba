import Rcptto.ForStd.Binary64
import Rcptto.Spec.Answers

/-!
# Well-formed verdicts

The funnel, the policies, the deferrals and the builtin engine produce verdicts that pass
`Validate`, for every address that is not blank. The verdict of an agent is passed on as it was
sent, and so is kept in the cache as well: it passes exactly if the agent's answer is well-formed.

## Key results

- `Service.merge_validate_iff`: when a verdict of an engine passes
- `answers_valid_iff`: when everything that leaves the verifier in a history of calls passes
-/

namespace Rcptto.Native

/-! ## Blank addresses -/

/-- A text of white space. -/
def Blank (s : String) : Prop := trimSpace s = ""

/-- A blank text is all white space. -/
theorem blank_iff {s : String} : Blank s ↔ ∀ c ∈ s.toList, isSpace c = true := by
  have hempty : Blank s ↔ (s.toList.dropWhile isSpace).rdropWhile isSpace = [] := by
    rw [Blank, trimSpace, ← String.toList_inj]
    simp
  rw [hempty, List.rdropWhile_eq_nil_iff]
  constructor
  · intro h
    rw [← List.dropWhile_eq_nil_iff]
    by_contra hne
    -- what is left begins with a character that is not white space
    have hhead := List.head_dropWhile_not isSpace hne
    rw [h _ (List.head_mem hne)] at hhead
    cases hhead
  · intro h
    rw [List.dropWhile_eq_nil_iff.mpr h]
    simp

section Fields

variable (disposable : String → Bool) {email : String}

/-- The key is blank if the address is. -/
theorem blank_normalized_iff : Blank (addressFields disposable email).normalized ↔ Blank email := by
  -- the key of an accepted address has an at sign, and any other input is its own key
  rcases hasParts_or_none email with ⟨l, d, h⟩ | h
  · have hkey : ¬ Blank (addressFields disposable email).normalized := by
      rw [normalized_of_parts disposable h, blank_iff, keyBytes]
      intro hall
      exact absurd (hall '@' (by simp; exact .inr (.inl rfl))) (by decide)
    have hemail : ¬ Blank email := by
      intro hblank
      rw [HasParts, hblank] at h
      cases h
    exact ⟨fun hblank => absurd hblank hkey, fun hblank => absurd hblank hemail⟩
  · rw [addressFields_of_none disposable h]

/-- The funnel returns an address for every input that is not blank. -/
theorem email_ne_empty (h : ¬ Blank email) : (addressFields disposable email).email ≠ "" := by
  rcases hasParts_or_none email with ⟨l, d, hparts⟩ | hnone
  · rw [addressFields_of_parts disposable hparts]
    intro hempty
    have := congrArg String.toList hempty
    simp at this
  · rw [addressFields_of_none disposable hnone]
    exact h

end Fields

/-! ## Verdicts that pass -/

variable {F : Type} [OfScientific F] [LinearOrder F]

/-- The confidences that the source assigns lie between 0 and 1. -/
def Graded (F : Type) [OfScientific F] [LinearOrder F] : Prop :=
  ∀ x ∈ ([0.99, 0.98, 0.95, 0.9, 0.5, 0.3, 0.1] : List F), 0.0 ≤ x ∧ x ≤ 1.0

/-- The confidences of the source are in range as floating-point numbers. -/
theorem graded_binary64 : Graded Binary64 := by
  unfold Graded
  decide +kernel

/-- What `Validate` accepts. -/
theorem Verdict.validate_eq_ok_iff {v : Verdict F} :
    v.validate = .ok () ↔
      v.email ≠ "" ∧ v.status.valid = true ∧ 0.0 ≤ v.confidence ∧ v.confidence ≤ 1.0 := by
  unfold Verdict.validate
  split_ifs with hemail hstatus hrange
  · simp [hemail]
  · simp_all
  · simp only [false_iff]
    rintro ⟨-, -, hlo, hhi⟩
    rcases hrange with h | h
    · exact absurd hlo (not_le.mpr h)
    · exact absurd hhi (not_le.mpr h)
  · obtain ⟨hlo, hhi⟩ := not_or.mp hrange
    simp_all

/-- What an agent has to answer for a verdict that passes. The confidence of a deliverable role
    account is not looked at. -/
def WellFormed (ev : Verdict F) (role : Bool) : Prop :=
  ev.email ≠ "" ∧ ev.status.valid = true ∧
    ((0.0 ≤ ev.confidence ∧ ev.confidence ≤ 1.0) ∨ ev.status = .deliverable ∧ role = true)

/-- The verdict of an engine passes, after merging, exactly if it is well-formed. -/
theorem Service.merge_validate_iff (hgraded : Graded F) (res : Pipeline.Result F) (t : Task)
    (ev : Verdict F) :
    (Service.merge res t ev).validate = .ok () ↔ WellFormed ev res.checks.role := by
  rw [Verdict.validate_eq_ok_iff, WellFormed]
  unfold Service.merge
  dsimp only
  split
  · next hrole =>
    have hhalf := hgraded 0.5 (by simp)
    simp [hrole, hhalf, Status.valid]
  · next hrole =>
    simp [hrole]

theorem confidenceFor_graded (hgraded : Graded F) (status : Status) :
    0.0 ≤ (confidenceFor status : F) ∧ (confidenceFor status : F) ≤ 1.0 := by
  cases status <;> exact hgraded _ (by simp [confidenceFor])

/-- The builtin engine's verdict is well-formed. -/
theorem Engine.verify_wellFormed (hgraded : Graded F) (cfg : Config) (env : Env) {t : Task}
    (eg : Binding) (ht : t.email ≠ "") (role : Bool) :
    WellFormed (Engine.verify (F := F) cfg env t eg).verdict role := by
  obtain ⟨⟨status, sub, code, msg, catchAll, hvalid, hverdict⟩, -⟩ :=
    Engine.verify_report (F := F) cfg env t eg
  rw [hverdict]
  exact ⟨ht, hvalid, .inl (confidenceFor_graded hgraded status)⟩

/-- A rejection of the funnel passes. -/
theorem Pipeline.Rejects.validate {v : Verdict F} {f : AddressFields} (hgraded : Graded F)
    (h : Pipeline.Rejects v f) (hemail : f.email ≠ "") : v.validate = .ok () := by
  obtain ⟨rfl, hstatus, hconfidence⟩ := h
  refine Verdict.validate_eq_ok_iff.mpr ⟨hemail, hstatus, hgraded _ ?_⟩
  simp only [Pipeline.rejectConfidences, List.mem_cons, List.not_mem_nil, or_false] at hconfidence ⊢
  tauto

/-! ## Calls -/

/-- The call passes on the answer `ev` of an agent: the address is to be probed, it is not in the
    cache, and an identity of another machine is handed out, whose agent answers. -/
def VerifyCall.Relays (c : VerifyCall F) (cache : ResultStore F) (res : Pipeline.Result F)
    (ev : Verdict F) : Prop :=
  c.funnel = .ok res ∧
    (c.service.cacheGet cache (Service.cacheKey res) c.outside.readAt).1 = none ∧
    ∃ t eg signals, res.outcome = .inr t ∧
      (c.service.policy.lookup (Service.policyKey res t)).strategy ≠ .skip ∧
      (c.service.limiting = true → c.outside.wait = .ok ()) ∧ c.outside.binding = .ok eg ∧
      c.service.remote eg.id = true ∧ c.outside.agent = some (ev, signals)

/-- An answer that the call passes on is well-formed. -/
def VerifyCall.Trustworthy (c : VerifyCall F) (cache : ResultStore F) : Prop :=
  ∀ res ev, c.Relays cache res ev → WellFormed ev res.checks.role

/-- What is kept under a key that is not blank passes. -/
def ResultStore.Valid (cache : ResultStore F) : Prop :=
  ∀ key entry, cache key = some entry → ¬ Blank key → entry.verdict.validate = .ok ()

/-- The answer to a call passes. -/
def VerifyCall.Passes (c : VerifyCall F) : Prop := ∀ v, c.result = .ok v → v.validate = .ok ()

omit [LinearOrder F] in
/-- The answer of the agent is the answer to the call, after merging. -/
theorem VerifyCall.Relays.result {c : VerifyCall F} {cache : ResultStore F}
    {res : Pipeline.Result F} {ev : Verdict F} (h : c.Relays cache res ev) :
    ∃ t, (c.service.verify c.outside c.email cache).result = .ok (Service.merge res t ev) := by
  obtain ⟨hrun, hmiss, t, eg, signals, ht, hskip, hwait, hbinding, hremote, hagent⟩ := h
  have hprobe : (c.service.probe c.outside res t).1 = .ok (Service.merge res t ev) := by
    have hask : c.service.askEngine c.outside t eg = some (ev, signals) := by
      rw [Service.askEngine, if_pos hremote, hagent]
    have hgo : (if c.service.limiting = true then c.outside.wait else .ok ()) = .ok () := by
      split
      · next hlimiting => exact hwait hlimiting
      · rfl
    unfold Service.probe
    simp only [hgo, hbinding, hask]
  -- the policy does not skip, so the probe decides
  have hsettle : (c.service.settle c.outside res).1 = .ok (Service.merge res t ev) := by
    unfold Service.settle
    rw [ht]
    dsimp only
    rw [if_neg hskip, hprobe]
  have hget : c.service.cacheGet cache (Service.cacheKey res) c.outside.readAt = (none, _) :=
    Prod.ext hmiss rfl
  refine ⟨t, ?_⟩
  rw [Service.verify_of_miss hrun hget, hsettle]

/-- What a call settles on passes if it passes on well-formed answers only. -/
theorem VerifyCall.validate_of_settle (hgraded : Graded F) {c : VerifyCall F}
    {cache : ResultStore F} {res : Pipeline.Result F} {v : Verdict F} {calls : List ServiceCall}
    (hblank : ¬ Blank c.email) (htrust : c.Trustworthy cache) (hrun : c.funnel = .ok res)
    (hmiss : (c.service.cacheGet cache (Service.cacheKey res) c.outside.readAt).1 = none)
    (hsettle : c.service.settle c.outside res = (.ok v, calls)) : v.validate = .ok () := by
  obtain ⟨hfields, hverdict⟩ := Pipeline.run_tells hrun
  have hemail := email_ne_empty c.service.disposable hblank
  -- from the funnel, a skip, a deferral, or an engine
  rcases c.service.settle_cases c.outside hsettle with hv | ⟨t, ht, hcases⟩
  · exact (hverdict v hv).validate hgraded hemail
  have htask : t.email ≠ "" := by
    rw [← (Pipeline.Result.fields_of_task ht).1, hfields]
    exact hemail
  rcases hcases with rfl | rfl | ⟨eg, ev, signals, hskip, hwait, hbinding, hask, rfl⟩
  · exact Verdict.validate_eq_ok_iff.mpr ⟨htask, rfl, hgraded 0.3 (by simp)⟩
  · exact Verdict.validate_eq_ok_iff.mpr ⟨htask, rfl, hgraded 0.1 (by simp)⟩
  · rw [Service.merge_validate_iff hgraded]
    unfold Service.askEngine at hask
    split at hask
    · next hremote =>
      exact htrust res ev ⟨hrun, hmiss, t, eg, signals, ht, hskip, hwait, hbinding, hremote, hask⟩
    · cases hask
      exact Engine.verify_wellFormed hgraded _ _ eg htask _

/-- On a cache whose verdicts pass, the answer to a call passes exactly if an answer that it
    passes on is well-formed. -/
theorem VerifyCall.passes_iff (hgraded : Graded F) {disposable : String → Bool}
    {c : VerifyCall F} {cache cache' : ResultStore F} (hcache : cache.Valid)
    (hstep : ResultStore.Step disposable cache c cache') (hblank : ¬ Blank c.email) :
    c.Passes ↔ c.Trustworthy cache := by
  obtain ⟨-, hresult, -⟩ := hstep
  constructor
  · intro hpasses res ev hrelays
    obtain ⟨t, hanswer⟩ := hrelays.result
    rw [hresult] at hanswer
    exact (Service.merge_validate_iff hgraded res t ev).mp (hpasses _ hanswer)
  · intro htrust v hv
    rw [← hresult] at hv
    rcases c.service.verify_cases c.outside c.email cache with
      ⟨-, err, herr⟩ | ⟨res, hrun, ⟨-, entry, hentry, hhit⟩ |
        ⟨final, calls, hmiss, hsettle, hfinal, -⟩⟩
    · rw [herr] at hv
      cases hv
    · rw [hhit] at hv
      cases hv
      have hkey : ¬ Blank (Service.cacheKey res) := by
        rw [show Service.cacheKey res = _ from congrArg AddressFields.normalized
          (Pipeline.run_tells hrun).1, blank_normalized_iff]
        exact hblank
      -- `Validate` does not look at `Cached`
      exact Verdict.validate_eq_ok_iff.mpr
        (Verdict.validate_eq_ok_iff.mp (hcache _ entry hentry hkey))
    · rw [hfinal] at hv
      cases hv
      exact validate_of_settle hgraded hblank htrust hrun hmiss hsettle

/-! ## Histories -/

/-- Everything that leaves the verifier in the history passes: the answers to the calls for
    addresses that are not blank, and what is kept under keys that are not blank at any time. -/
def OnlyValid (disposable : String → Bool) (calls : List (VerifyCall F)) : Prop :=
  (∀ c ∈ calls, ¬ Blank c.email → c.Passes) ∧
    ∀ earlier later cache, calls = earlier ++ later →
      ResultStore.Runs disposable (fun _ => none) earlier cache → cache.Valid

/-- A history in which the agents answer well-formed verdicts. -/
abbrev ResultStore.TrustworthyRuns (disposable : String → Bool) (cache : ResultStore F)
    (calls : List (VerifyCall F)) (cache' : ResultStore F) : Prop :=
  Run (fun cache c cache' => (¬ Blank c.email → c.Trustworthy cache) ∧
    ResultStore.Step disposable cache c cache') cache calls cache'

/-- If all answers pass, so does what is kept. -/
theorem ResultStore.Runs.valid {disposable : String → Bool} {calls : List (VerifyCall F)}
    {cache : ResultStore F} (h : ResultStore.Runs disposable (fun _ => none) calls cache)
    (hpasses : ∀ c ∈ calls, ¬ Blank c.email → c.Passes) : cache.Valid := by
  intro key entry hentry hkey
  obtain ⟨c, hc, hsettles, hresult⟩ := ResultStore.Runs.stored h key entry hentry
  refine hpasses c hc ?_ _ hresult
  rwa [hsettles.asks.eq, blank_normalized_iff] at hkey

/-- All answers pass if the agents can be trusted at every call, and only then. -/
theorem passes_iff_trustworthyRuns (hgraded : Graded F) {disposable : String → Bool}
    {calls : List (VerifyCall F)} {cache : ResultStore F}
    (h : ResultStore.Runs disposable (fun _ => none) calls cache) :
    (∀ c ∈ calls, ¬ Blank c.email → c.Passes) ↔
      ResultStore.TrustworthyRuns disposable (fun _ => none) calls cache := by
  -- the last call is split off, since it meets the cache that the others leave
  induction calls using List.reverseRecOn generalizing cache with
  | nil => simpa using h
  | append_singleton calls c ih =>
    obtain ⟨cache₀, hrun, hstep⟩ := Run.snoc_iff.mp h
    constructor
    · intro hpasses
      have hearlier : ∀ a ∈ calls, ¬ Blank a.email → a.Passes :=
        fun a ha => hpasses a (List.mem_append_left _ ha)
      -- the answers so far pass, so what is kept passes, and `passes_iff` applies to the last call
      refine Run.snoc_iff.mpr ⟨cache₀, (ih hrun).mp hearlier, fun hblank => ?_, hstep⟩
      exact (VerifyCall.passes_iff hgraded (ResultStore.Runs.valid hrun hearlier) hstep hblank).mp
        (hpasses c (by simp) hblank)
    · intro htrust
      obtain ⟨cache₁, htrust₁, htrustc, hstep₁⟩ := Run.snoc_iff.mp htrust
      have hrun₁ : ResultStore.Runs disposable (fun _ => none) calls cache₁ :=
        htrust₁.mono fun _ _ _ hstep => hstep.2
      have hearlier := (ih hrun₁).mpr htrust₁
      intro a ha hblank
      rcases List.mem_append.mp ha with ha | ha
      · exact hearlier a ha hblank
      · obtain rfl := List.mem_singleton.mp ha
        exact (VerifyCall.passes_iff hgraded (ResultStore.Runs.valid hrun₁ hearlier) hstep₁
          hblank).mpr (htrustc hblank)

/-- In a history of calls that starts with an empty cache, everything that leaves the verifier
    passes exactly if the agents whose answers are passed on answer well-formed verdicts. -/
theorem answers_valid_iff {disposable : String → Bool} {calls : List (VerifyCall Binary64)}
    {cache : ResultStore Binary64}
    (h : ResultStore.Runs disposable (fun _ => none) calls cache) :
    OnlyValid disposable calls ↔
      ResultStore.TrustworthyRuns disposable (fun _ => none) calls cache := by
  rw [← passes_iff_trustworthyRuns graded_binary64 h]
  refine ⟨fun honly => honly.1, fun hpasses => ⟨hpasses, ?_⟩⟩
  rintro earlier later cache₁ rfl hrun
  exact ResultStore.Runs.valid hrun fun c hc => hpasses c (List.mem_append_left _ hc)

/-- A service whose identities are all served by agents. -/
def agentService : Service := { plainService with remote := fun _ => true }

/-- The verdict that is read from an answer without any field. -/
def emptyVerdict : Verdict Binary64 where
  email := ""
  normalized := ""
  status := .other "" (by decide)
  subStatus := .other "" (by decide)
  confidence := 0.0
  checks := {}
  provider := ""
  engine := ""
  egressID := ""
  checkedAt := 0

/-- A verdict that an agent sends for `a@example.net`. -/
def soundVerdict : Verdict Binary64 :=
  { emptyVerdict with
    email := "a@example.net"
    status := .deliverable
    subStatus := .validMailbox
    confidence := 0.9 }

/-- A call that passes on the answer of an agent. -/
theorem answers_valid_iff_agent : ∃ c : VerifyCall Binary64, c.email = "a@example.net" ∧
    c.result.toOption.map (·.status) = some .deliverable ∧
    OnlyValid defaultDisposableSet [c] := by
  have hstep := agentService.step_call (agentOutside soundVerdict) "a@example.net" fun _ => none
  refine ⟨_, rfl, ?_, (answers_valid_iff (Run.singleton_iff.mpr hstep)).mpr
    (Run.singleton_iff.mpr ⟨fun _ => ?_, hstep⟩)⟩
  · decide +kernel
  · rintro res ev ⟨-, -, t, eg, signals, -, -, -, -, -, hagent⟩
    cases hagent
    exact ⟨by decide, rfl, .inl (graded_binary64 0.9 (by simp))⟩

/-- The answer to a call for `a@example.net`, and what is kept, is an empty verdict if the agent
    sends one. -/
theorem empty_answer_kept : ∃ (c : VerifyCall Binary64) (cache : ResultStore Binary64)
    (v : Verdict Binary64) (entry : CacheEntry Binary64),
    ResultStore.Runs defaultDisposableSet (fun _ => none) [c] cache ∧ c.email = "a@example.net" ∧
    c.result = .ok v ∧ v.validate = .error .emptyEmail ∧ v.status.valid = false ∧
    cache "a@example.net" = some entry ∧ entry.verdict.validate = .error .emptyEmail := by
  have hresult : (agentService.call (agentOutside emptyVerdict) "a@example.net"
      fun _ => none).result.toOption.map (fun v => (v.email, v.status.valid)) =
        some ("", false) := by
    decide +kernel
  have hkept : ((agentService.verify (agentOutside emptyVerdict) "a@example.net"
      fun _ => none).cache "a@example.net").map (·.verdict.email) = some "" := by
    decide +kernel
  obtain ⟨v, hv, hfields⟩ := VerifyCall.exists_result hresult
  obtain ⟨entry, hentry, hempty⟩ := Option.map_eq_some_iff.mp hkept
  obtain ⟨hemail, hstatus⟩ := Prod.mk.inj hfields
  exact ⟨_, _, v, entry, Run.singleton_iff.mpr (agentService.step_call _ _ _), rfl, hv,
    if_pos hemail, hstatus, hentry, if_pos hempty⟩

end Rcptto.Native
