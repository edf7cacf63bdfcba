import Rcptto.Spec.MailExchangers
import Rcptto.Spec.Probing

/-!
# Boundaries of domains

The mail exchangers of a custom domain tell whether Google or Microsoft receives its mail, and under
the default policies an address at Microsoft is not probed. The names of the hosts are compared by
their last characters, and nothing says that a label has to begin there: a host in a domain of
somebody else, whose name happens to end in the same characters, is taken for one of Microsoft's.

## Key results

- `hasSuffix_iff`: the comparison accepts the domain, its subdomains and the domains that only
  look like it
- `respects_iff`: when the class of a list of hosts respects the boundaries
- `boundaries_respected_iff`: the same for addresses, and for what is skipped
-/

namespace Rcptto.Native

/-! ## Names of hosts -/

/-- The name of a host as it is compared. -/
def hostName (host : String) : String := toLower (trimDot host)

/-- The host is the domain or a subdomain of it. -/
def Inside (host domain : String) : Prop :=
  hostName host = domain ∨ hasSuffix (hostName host) ("." ++ domain) = true

instance (host domain : String) : Decidable (Inside host domain) :=
  inferInstanceAs (Decidable (_ ∨ _))

/-- The name of the host ends in that of the domain, in the middle of a label. -/
def Glued (host domain : String) : Prop :=
  ∃ before c, (hostName host).toList = before ++ c :: domain.toList ∧ c ≠ '.'

theorem hasSuffix_eq_true_iff {s suffix : String} :
    hasSuffix s suffix = true ↔ suffix.toList <:+ s.toList := by
  rw [hasSuffix, decide_eq_true_eq]

/-- What the comparison of the last characters accepts. -/
theorem hasSuffix_iff (host domain : String) :
    hasSuffix (hostName host) domain = true ↔ Inside host domain ∨ Glued host domain := by
  unfold Inside
  simp only [hasSuffix_eq_true_iff, String.toList_append]
  constructor
  · rintro ⟨before, hname⟩
    rcases List.eq_nil_or_concat' before with rfl | ⟨before, c, rfl⟩
    · exact .inl (.inl (String.toList_inj.mp hname.symm))
    rw [List.append_assoc, List.singleton_append] at hname
    -- what counts is the character in front of the suffix
    by_cases hdot : c = '.'
    · subst hdot
      exact .inl (.inr ⟨before, hname⟩)
    · exact .inr ⟨before, c, hname.symm, hdot⟩
  · rintro ((rfl | hsub) | ⟨before, c, hname, -⟩)
    · exact List.suffix_rfl
    · exact (List.suffix_append _ _).trans hsub
    · rw [hname]
      exact (List.suffix_cons _ _).trans (List.suffix_append _ _)

/-- A name that is glued to a domain is not inside of it. -/
theorem Glued.not_inside {host domain : String} (h : Glued host domain) :
    ¬ Inside host domain := by
  obtain ⟨before, c, hname, hdot⟩ := h
  rintro (rfl | hsub)
  · have := congrArg List.length hname
    simp only [List.length_append, List.length_cons] at this
    omega
  · rw [hasSuffix_eq_true_iff, String.toList_append] at hsub
    obtain ⟨before', hname'⟩ := hsub
    -- the character before the domain is the dot
    have hlast : before ++ [c] = before' ++ ['.'] := by
      apply (List.append_left_inj domain.toList).mp
      simpa using hname.symm.trans hname'.symm
    exact hdot (by simpa using congrArg List.getLast? hlast)

/-- A name does not end with two texts of which neither ends with the other. -/
theorem hasSuffix_ne {s a b : String} (ha : hasSuffix s a = true)
    (hab : hasSuffix a b = false) (hba : hasSuffix b a = false) : hasSuffix s b = false := by
  rw [← Bool.not_eq_true, hasSuffix_eq_true_iff] at *
  intro hb
  rcases le_total a.toList.length b.toList.length with hle | hle
  · exact hba (List.suffix_of_suffix_length_le ha hb hle)
  · exact hab (List.suffix_of_suffix_length_le hb ha hle)

/-! ## Classes of hosts -/

/-- The host decides the class. -/
def recognised (host : String) : Bool := refineProviderFromMX [host] ≠ ""

/-- The first host that is recognised decides. -/
theorem refineProviderFromMX_cons (host : String) (mx : List String) :
    refineProviderFromMX (host :: mx) =
      if recognised host then refineProviderFromMX [host] else refineProviderFromMX mx := by
  unfold recognised
  simp only [refineProviderFromMX]
  split_ifs <;> simp_all

/-- The class of a list of hosts is that of the first one that is recognised. -/
theorem refineProviderFromMX_eq (mx : List String) :
    refineProviderFromMX mx =
      match mx.find? recognised with
      | none => ""
      | some host => refineProviderFromMX [host] := by
  induction mx with
  | nil => rfl
  | cons host mx ih =>
    rw [refineProviderFromMX_cons, List.find?_cons]
    cases hrecognised : recognised host with
    | true => rw [if_pos rfl]
    | false =>
      rw [if_neg Bool.false_ne_true]
      exact ih

/-- The class is one of a provider only if the first host that is recognised is in one of the
    domains of this provider. -/
structure Respects (provider : String) (mx : List String) : Prop where
  google : provider = "google_workspace" → ∃ host, mx.find? recognised = some host ∧
    (Inside host "google.com" ∨ Inside host "googlemail.com")
  microsoft : provider = "microsoft365" → ∃ host, mx.find? recognised = some host ∧
    Inside host "outlook.com"

/-- The name of the host looks like one of Google or Microsoft, and is not. -/
def Lookalike (host : String) : Prop :=
  Glued host "google.com" ∨ Glued host "googlemail.com" ∨ Glued host "outlook.com"

/-- The first host that is recognised is a lookalike. -/
def Misled (mx : List String) : Prop := ∃ host, mx.find? recognised = some host ∧ Lookalike host

/-- A suffix of Google makes the class of Google. -/
theorem classOf_google {host : String}
    (h : hasSuffix (hostName host) "google.com" = true ∨
      hasSuffix (hostName host) "googlemail.com" = true) :
    refineProviderFromMX [host] = "google_workspace" := by
  rw [refineProviderFromMX]
  exact if_pos (Bool.or_eq_true_iff.mpr h)

/-- A suffix of Microsoft makes the class of Microsoft, since it is none of Google. -/
theorem classOf_microsoft {host : String}
    (h : hasSuffix (hostName host) "outlook.com" = true) :
    refineProviderFromMX [host] = "microsoft365" := by
  have hgoogle := hasSuffix_ne h (b := "google.com") (by decide) (by decide)
  have hgooglemail := hasSuffix_ne h (b := "googlemail.com") (by decide) (by decide)
  unfold hostName at h hgoogle hgooglemail
  simp only [refineProviderFromMX, h, hgoogle, hgooglemail]
  rfl

/-- The class of a host says which suffix it has. -/
theorem classOf_cases (host : String) :
    refineProviderFromMX [host] = "google_workspace" ∧
        (hasSuffix (hostName host) "google.com" = true ∨
          hasSuffix (hostName host) "googlemail.com" = true) ∨
      refineProviderFromMX [host] = "microsoft365" ∧
        hasSuffix (hostName host) "outlook.com" = true ∨
      refineProviderFromMX [host] = "" := by
  unfold hostName
  simp only [refineProviderFromMX]
  split_ifs with hgoogle hmicrosoft
  · exact .inl ⟨rfl, Bool.or_eq_true_iff.mp hgoogle⟩
  · refine .inr (.inl ⟨rfl, ?_⟩)
    rcases Bool.or_eq_true_iff.mp hmicrosoft with h | h
    · exact h
    · -- the longer of the two domains is in the other one
      rw [hasSuffix_eq_true_iff] at h ⊢
      exact List.IsSuffix.trans (by decide) h
  · exact .inr (.inr rfl)

/-- A host that is inside one of the domains does not look like another one. -/
theorem Lookalike.not_respected {host : String} (h : Lookalike host) :
    (refineProviderFromMX [host] = "google_workspace" ∧
        ¬ Inside host "google.com" ∧ ¬ Inside host "googlemail.com") ∨
      refineProviderFromMX [host] = "microsoft365" ∧ ¬ Inside host "outlook.com" := by
  -- a host ends in one of the three domains, which are not suffixes of each other
  rcases h with h | h | h
  · have hsuffix := (hasSuffix_iff host _).mpr (.inr h)
    refine .inl ⟨classOf_google (.inl hsuffix), h.not_inside, fun hinside => ?_⟩
    exact Bool.eq_false_iff.mp (hasSuffix_ne hsuffix (by decide) (by decide))
      ((hasSuffix_iff host _).mpr (.inl hinside))
  · have hsuffix := (hasSuffix_iff host _).mpr (.inr h)
    refine .inl ⟨classOf_google (.inr hsuffix), fun hinside => ?_, h.not_inside⟩
    exact Bool.eq_false_iff.mp (hasSuffix_ne hsuffix (by decide) (by decide))
      ((hasSuffix_iff host _).mpr (.inl hinside))
  · exact .inr ⟨classOf_microsoft ((hasSuffix_iff host _).mpr (.inr h)), h.not_inside⟩

/-- The class of a list of hosts respects the boundaries of domains unless it is misled. -/
theorem respects_iff (mx : List String) : Respects (refineProviderFromMX mx) mx ↔ ¬ Misled mx := by
  rw [refineProviderFromMX_eq]
  unfold Misled
  cases hfirst : mx.find? recognised with
  | none =>
    refine iff_of_true ⟨fun h => ?_, fun h => ?_⟩ (by simp)
    · exact absurd h (by decide)
    · exact absurd h (by decide)
  | some host =>
    dsimp only
    simp only [Option.some.injEq, exists_eq_left']
    constructor
    · rintro ⟨hgoogle, hmicrosoft⟩ hlook
      simp only [hfirst, Option.some.injEq, exists_eq_left'] at hgoogle hmicrosoft
      -- a lookalike decides the class, and is in none of the domains of its provider
      rcases hlook.not_respected with ⟨hclass, hnot⟩ | ⟨hclass, hnot⟩
      · exact not_or.mpr hnot (hgoogle hclass)
      · exact hnot (hmicrosoft hclass)
    · intro hlook
      simp only [Lookalike, not_or] at hlook
      obtain ⟨hgoogle, hgooglemail, hmicrosoft⟩ := hlook
      -- whatever ends in a domain without being glued to it is inside
      rcases classOf_cases host with ⟨hclass, hsuffix⟩ | ⟨hclass, hsuffix⟩ | hclass
      · rw [hasSuffix_iff, hasSuffix_iff] at hsuffix
        refine ⟨fun _ => ⟨host, hfirst, ?_⟩, fun h => ?_⟩
        · exact hsuffix.imp (·.resolve_right hgoogle) (·.resolve_right hgooglemail)
        · exact absurd (hclass.symm.trans h) (by decide)
      · rw [hasSuffix_iff] at hsuffix
        refine ⟨fun h => ?_, fun _ => ⟨host, hfirst, hsuffix.resolve_right hmicrosoft⟩⟩
        exact absurd (hclass.symm.trans h) (by decide)
      · refine ⟨fun h => ?_, fun h => ?_⟩
        · exact absurd (hclass.symm.trans h) (by decide)
        · exact absurd (hclass.symm.trans h) (by decide)

/-! ## Classes of addresses -/

namespace Pipeline

variable {F : Type} [OfScientific F]

/-- The class is that of a custom domain, or that of the mail exchangers. -/
def State.Refined (s : State F) : Prop :=
  s.provider = "custom" ∨ s.provider = refineProviderFromMX s.mx

/-- The MX stage leaves the class `custom` or refines it. -/
theorem mxStage_refined {r : Resolver} {now : Int} {s s' : State F} {stop : Bool}
    (hs : s.provider = "custom") (h : mxStage r now s = .ok (stop, s')) : s'.Refined := by
  rcases mxStage_ok h with ⟨hosts, provider, rfl, hprovider⟩ | ⟨sub, -, confidence, -, rfl⟩
  · rcases hprovider with hkept | ⟨-, hrefined⟩
    · exact .inl (hkept.trans hs)
    · exact .inr hrefined
  · exact .inl hs

omit [OfScientific F] in
/-- The loop ends before the last stage, or with it. -/
theorem runStages_concat {stages : List (Stage F)} {stage : Stage F} {s s' : State F}
    (h : runStages (stages ++ [stage]) s = .ok s') :
    runStages stages s = .ok s' ∨
      ∃ s₁ stop, runStages stages s = .ok s₁ ∧ stage s₁ = .ok (stop, s') := by
  induction stages generalizing s with
  | nil =>
    rw [List.nil_append, runStages_singleton] at h
    cases hstage : stage s with
    | error err =>
      rw [hstage] at h
      cases h
    | ok p =>
      rw [hstage] at h
      cases h
      exact .inr ⟨s, p.1, rfl, hstage⟩
  | cons first stages ih =>
    -- a stage that stops the loop hides the last one
    rw [List.cons_append, runStages] at h
    rw [runStages]
    cases hfirst : first s with
    | error err =>
      rw [hfirst] at h
      cases h
    | ok p =>
      simp only [hfirst] at h ⊢
      split at h
      · next hstop =>
        rw [if_pos hstop]
        exact .inl h
      · next hstop =>
        rw [if_neg hstop]
        exact ih h

/-- The loop over the stages after normalization. -/
theorem run_late {disposable : String → Bool} {r : Resolver} {now : Int} {email : String}
    {l d : Bytes} {res : Result F} (h : HasParts email l d)
    (hrun : run disposable r now email = .ok res) :
    ∃ s, runStages (lateStages disposable r now) ((normalized l d).withInput email) = .ok s ∧
      res = s.result := by
  rw [run_of_parts disposable r now h] at hrun
  cases hlate : runStages (lateStages disposable r now) ((normalized (F := F) l d).withInput email)
    with
  | error err =>
    rw [hlate] at hrun
    cases hrun
  | ok s =>
    rw [hlate] at hrun
    exact ⟨s, rfl, (Except.ok.inj hrun).symm⟩

/-- The stages between normalization and the lookup of the mail exchangers. -/
def earlyStages (disposable : String → Bool) (now : Int) : List (Stage F) :=
  [disposableStage disposable now, roleStage, freeStage]

theorem lateStages_eq (disposable : String → Bool) (r : Resolver) (now : Int) :
    lateStages (F := F) disposable r now = earlyStages disposable now ++ [mxStage r now] := rfl

/-- No stage between the key and the MX records changes the class. -/
theorem earlyStages_provider {disposable : String → Bool} {now : Int} {stage : Stage F}
    {s s' : State F} {stop : Bool} (hmem : stage ∈ earlyStages disposable now)
    (h : stage s = .ok (stop, s')) : s'.provider = s.provider := by
  simp only [earlyStages, List.mem_cons, List.not_mem_nil, or_false] at hmem
  rcases hmem with rfl | rfl | rfl
  · unfold disposableStage at h
    split at h <;> cases h <;> rfl
  · unfold roleStage at h
    split at h <;> cases h <;> rfl
  · unfold freeStage at h
    split at h <;> cases h <;> rfl

theorem runStages_earlyStages_provider {disposable : String → Bool} {now : Int} {s s' : State F}
    (h : runStages (earlyStages disposable now) s = .ok s') : s'.provider = s.provider :=
  runStages_invariant (P := fun t => t.provider = s.provider)
    (fun _ hmem _ _ _ hs hstage => (earlyStages_provider hmem hstage).trans hs) rfl h

/-- The class of an accepted address at a custom domain. -/
theorem run_refined {disposable : String → Bool} {r : Resolver} {now : Int} {email : String}
    {l d : Bytes} {res : Result F} (h : HasParts email l d)
    (hcustom : providerClass (toLower (.ofAscii d)) = "custom")
    (hrun : run disposable r now email = .ok res) :
    res.provider = "custom" ∨ res.provider = refineProviderFromMX res.mx := by
  obtain ⟨s, hlate, rfl⟩ := run_late h hrun
  have hstart : ((normalized (F := F) l d).withInput email).provider = "custom" := by
    simpa only [normalized, State.withInput] using hcustom
  rw [lateStages_eq] at hlate
  rcases runStages_concat hlate with hs | ⟨s₁, stop, hs₁, hmx⟩
  · exact .inl ((runStages_earlyStages_provider hs).trans hstart)
  · exact mxStage_refined ((runStages_earlyStages_provider hs₁).trans hstart) hmx

/-- The domain of a task is that of the address, in lower case. -/
theorem run_task_domain {disposable : String → Bool} {r : Resolver} {now : Int} {email : String}
    {l d : Bytes} {res : Result F} {t : Task} (h : HasParts email l d)
    (hrun : run disposable r now email = .ok res) (htask : res.outcome = .inr t) :
    t.domain = toLower (.ofAscii d) := by
  obtain ⟨s, hlate, rfl⟩ := run_late h hrun
  have hdomain := (runStages_keeps (fun stage => late_of_mem) hlate).2.1
  exact (result_outcome_inr htask).2.trans hdomain

end Pipeline

namespace Policy

/-- The classes that the default policies skip. -/
def skipped : List String := ["gmail", "yahoo", "microsoft", "microsoft365"]

/-- A rule for one key leaves the rules for other keys alone. -/
theorem lookup_set_of_ne {s : Set} {providerOrDomain key : String} {r : Rule}
    (hdefault : toLower providerOrDomain ≠ "default")
    (hkey : toLower key ≠ toLower providerOrDomain) :
    (s.set providerOrDomain r).lookup key = s.lookup key := by
  unfold Set.set Set.lookup
  rw [if_neg hdefault]
  dsimp only
  rw [Function.update_of_ne hkey]

/-- So do any number of rules. -/
theorem lookup_foldl_of_ne {key : String} (rules : List (String × Rule)) (s : Set)
    (h : ∀ kv ∈ rules, toLower kv.1 ≠ "default" ∧ toLower key ≠ toLower kv.1) :
    (rules.foldl (fun s kv => s.set kv.1 kv.2) s).lookup key = s.lookup key := by
  induction rules generalizing s with
  | nil => rfl
  | cons kv rules ih =>
    obtain ⟨hdefault, hkey⟩ := h kv List.mem_cons_self
    rw [List.foldl_cons, ih _ fun kv' hkv' => h kv' (List.mem_cons_of_mem _ hkv'),
      lookup_set_of_ne hdefault hkey]

/-- Only these classes are skipped. -/
theorem lookup_default_skip {key : String} (h : (default.lookup key).strategy = .skip) :
    toLower key ∈ skipped := by
  by_contra hnot
  unfold default new at h
  -- no rule applies to the key, so the default of a new set does, which is not to skip
  rw [lookup_foldl_of_ne] at h
  · cases h
  · intro kv hkv
    have hmem : toLower kv.1 ∈ skipped := by
      revert kv
      decide
    refine ⟨fun hdefault => ?_, fun hkey => hnot (hkey ▸ hmem)⟩
    rw [hdefault] at hmem
    exact absurd hmem (by decide)

end Policy

/-! ## What is skipped -/

/-- There is a dot in the domain of an accepted address. -/
theorem dot_mem_of_parts {email : String} {l d : Bytes} (h : HasParts email l d) :
    '.' ∈ (toLower (.ofAscii d)).toList := by
  obtain ⟨-, -, -, -, -, hvalid⟩ := splitAndValidate_eq_some_iff.mp h
  have hdot : '.'.toUInt8 ∈ d := by
    by_contra hnot
    have hlabels := (labels_of_validDomain hvalid).1
    rw [List.splitOn_eq_singleton hnot] at hlabels
    exact absurd hlabels (Nat.not_succ_le_self 1)
  rw [toLower, String.toList_ofList, String.toList_ofAscii, List.map_map]
  exact List.mem_map.mpr ⟨_, hdot, by decide⟩

/-- A class is not a domain. -/
theorem toLower_not_skipped {domain : String} (h : '.' ∈ domain.toList) :
    toLower domain ∉ Policy.skipped := by
  have hdot : '.' ∈ (toLower domain).toList := by
    rw [toLower, String.toList_ofList]
    exact List.mem_map.mpr ⟨_, h, by decide⟩
  intro hmem
  have hnone : ∀ name ∈ Policy.skipped, '.' ∉ name.toList := by decide
  exact hnone _ hmem hdot

/-- MX records lead to one of these classes. -/
theorem refineProviderFromMX_mem (mx : List String) :
    refineProviderFromMX mx ∈ ["", "google_workspace", "microsoft365"] := by
  rw [refineProviderFromMX_eq]
  split
  · decide
  · next host _ =>
    rcases classOf_cases host with ⟨hclass, -⟩ | ⟨hclass, -⟩ | hclass <;> rw [hclass] <;> decide

namespace Service

variable {F : Type} [OfScientific F] {s : Service} {o : Outside F} {email : String}
  {cache : ResultStore F} {res : Pipeline.Result F} {t : Task}

/-- A probe asks somebody. -/
theorem probe_calls_ne_nil : (s.probe o res t).2 ≠ [] := by
  rcases s.probe_calls o res t with ⟨hgranted, hcalls⟩ | ⟨err, -, hcalls⟩ | ⟨eg, -, -, hcalls⟩
  · -- only a limiter can deny the probe
    have hlimiting : s.limiting = true := by
      by_contra hnot
      exact hgranted fun h => absurd h hnot
    rw [hcalls, waits, if_pos hlimiting]
    exact List.cons_ne_nil _ _
  · rw [hcalls]
    exact List.append_ne_nil_of_right_ne_nil _ (List.cons_ne_nil _ _)
  · rw [hcalls]
    exact List.append_ne_nil_of_right_ne_nil _ (List.cons_ne_nil _ _)

/-- Of the addresses at custom domains, the default policies skip those at Microsoft. -/
theorem class_of_skipped {l d : Bytes} (h : HasParts email l d)
    (hcustom : providerClass (toLower (.ofAscii d)) = "custom")
    (hpolicy : s.policy = Policy.default) (hopen : s.Open o email cache res t)
    (hcalls : (s.verify o email cache).calls = []) :
    refineProviderFromMX res.mx = "microsoft365" := by
  have hskip : (s.policy.lookup (policyKey res t)).strategy = .skip := by
    by_contra hnot
    rw [s.verify_calls_of_open o email cache hopen, if_neg hnot] at hcalls
    exact probe_calls_ne_nil hcalls
  rw [hpolicy] at hskip
  have hkey := Policy.lookup_default_skip hskip
  have hdomain : toLower t.domain ∉ Policy.skipped := by
    rw [Pipeline.run_task_domain h hopen.run hopen.task]
    exact toLower_not_skipped (dot_mem_of_parts h)
  -- the key is the class if there is one besides `custom`, and the domain otherwise
  unfold policyKey at hkey
  split at hkey
  · next hprovider =>
    have hrefined := (Pipeline.run_refined h hcustom hopen.run).resolve_left hprovider.2
    have hclass := refineProviderFromMX_mem res.mx
    simp only [List.mem_cons, List.not_mem_nil, or_false] at hclass
    rcases hclass with hclass | hclass | hclass
    · exact absurd (hrefined.trans hclass) hprovider.1
    · rw [hrefined, hclass] at hkey
      exact absurd hkey (by decide)
    · exact hclass
  · exact absurd hkey hdomain

end Service

/-- The class of every list of hosts respects the boundaries of domains if and only if it is not
    misled. If it is not, then so does the class of an address at a custom domain, and with the
    default policies such an address is skipped only if one of its hosts is inside Microsoft's
    domain. -/
theorem boundaries_respected_iff {F : Type} [OfScientific F] :
    (∀ mx, Respects (refineProviderFromMX mx) mx ↔ ¬ Misled mx) ∧
    ∀ (s : Service) (o : Outside F) (email : String) (cache : ResultStore F)
      (res : Pipeline.Result F) (t : Task) (l d : Bytes), s.Open o email cache res t →
      HasParts email l d → providerClass (toLower (.ofAscii d)) = "custom" → ¬ Misled res.mx →
      Respects res.provider res.mx ∧
        (s.policy = Policy.default → (s.verify o email cache).calls = [] →
          ∃ host ∈ res.mx, Inside host "outlook.com") := by
  refine ⟨respects_iff, fun s o email cache res t l d hopen h hcustom hmisled => ?_⟩
  have hrespects := (respects_iff res.mx).mpr hmisled
  refine ⟨?_, fun hpolicy hcalls => ?_⟩
  · -- the class `custom` promises nothing, and a refined one is that of the MX records
    rcases Pipeline.run_refined h hcustom hopen.run with hprovider | hprovider
    · rw [hprovider]
      exact ⟨fun h => absurd h (by decide), fun h => absurd h (by decide)⟩
    · rwa [hprovider]
  · have hclass := Service.class_of_skipped h hcustom hpolicy hopen hcalls
    obtain ⟨host, hfirst, hinside⟩ := hrespects.microsoft hclass
    exact ⟨host, List.mem_of_find?_eq_some hfirst, hinside⟩

/-- Every domain has this mail exchanger. -/
def exchangerOutside (host : String) : Outside ℚ :=
  { plainOutside ℚ with
    resolver := { lookupMX := fun _ => .ok [host], lookupHost := fun _ => none } }

/-- The mail exchanger of a customer of Microsoft. -/
theorem boundaries_respected_customer :
    ∃ host ∈ ["example-org.mail.protection.outlook.com"], Inside host "outlook.com" := by
  let o := exchangerOutside "example-org.mail.protection.outlook.com."
  obtain ⟨res, t, hrun, htask, -, hmx⟩ :
      Pipeline.Leads (Pipeline.run (F := ℚ) plainService.disposable o.resolver 0 "a@example.org")
        (.proceed ["example-org.mail.protection.outlook.com"]) :=
    Pipeline.leads_decided o.resolver 0 hasParts_example (by decide +kernel)
  have hopen : plainService.Open o "a@example.org" (fun _ => none) res t :=
    ⟨hrun, htask, fun _ e he => by cases he⟩
  have hmisled : ¬ Misled res.mx := by
    rw [hmx, ← respects_iff]
    exact ⟨by decide, fun _ => ⟨"example-org.mail.protection.outlook.com", by decide, by decide⟩⟩
  rw [← hmx]
  exact (boundaries_respected_iff.2 plainService o "a@example.org" (fun _ => none) res t _ _ hopen
    hasParts_example (by decide +kernel) hmisled).2 rfl (by decide +kernel)

/-- The name of the mail exchanger ends in that of Microsoft's domain, but it is in another one.
    The address is skipped. -/
theorem lookalike_skipped :
    let out := plainService.verify (exchangerOutside "mx.notoutlook.com.") "a@example.org"
      fun _ => none
    out.calls = [] ∧
      out.result.toOption.map (fun v => (v.provider, v.subStatus, v.checks.mx.records)) =
        some ("microsoft365", .providerSkipped, ["mx.notoutlook.com"]) ∧
      ¬ Inside "mx.notoutlook.com" "outlook.com" := by
  decide +kernel

end Rcptto.Native
