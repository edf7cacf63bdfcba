import Rcptto.Spec.Injection

/-!
# Keys as canonical forms

The key of an address in the cache is meant to be a canonical form: an address itself, the same
for all spellings of one address and for nothing else. That holds except for addresses at Gmail
whose local part is only a tag, of which nothing is left.

Go's strings are bytes, and so are the inputs here.

## Key results

- `runStages_normalize`, `run_normalize`, `runBytes_normalize`: the keys of the funnel
- `Accepts.canonical`: the key of an address is its own key
- `Accepts.normalize_eq_iff`: the addresses with the same key
- `canonical_key_iff`: both together, with the exception
-/

namespace Rcptto.Native

open Pipeline

/-! ## Definitions -/

/-- `Normalized` and `Provider` after `normalizeStage`. An input that is no address does not get
    there: its key is the input, and it has no provider. -/
def normalize (email : Bytes) : Bytes × String :=
  match splitAndValidate (trimSpaceBytes email) with
  | none => (email, "")
  | some (localPart, domain) =>
    let domain := toLower (.ofAscii domain)
    ((canonicalKey (.ofAscii localPart) domain (providerClass domain)).utf8Bytes,
      providerClass domain)

/-- The funnel accepts the input as an address with these parts. -/
def Accepts (email l d : Bytes) : Prop := splitAndValidate (trimSpaceBytes email) = some (l, d)

/-- Equal up to letter case. -/
def EqualFold (s t : Bytes) : Prop := s.map lowerByte = t.map lowerByte

/-- The domain is `gmail.com` or `googlemail.com`. -/
def IsGmail (d : Bytes) : Prop :=
  EqualFold d "gmail.com".utf8Bytes ∨ EqualFold d "googlemail.com".utf8Bytes

/-- A local part up to its tag, without the dots. -/
def untagged (l : Bytes) : Bytes := (l.takeWhile (· ≠ '+'.toUInt8)).filter (· ≠ '.'.toUInt8)

/-- Addresses that are equal up to white space around them, letter case and, at Gmail, dots and
    a tag in the local part. -/
def Variants (e e' : Bytes) : Prop :=
  ∃ l d l' d', Accepts e l d ∧ Accepts e' l' d' ∧
    ((EqualFold l l' ∧ EqualFold d d') ∨
      (IsGmail d ∧ IsGmail d' ∧ EqualFold (untagged l) (untagged l')))

/-- The input is an address at Gmail whose local part is a tag only. -/
def TagOnly (email : Bytes) : Prop :=
  ∃ l d, Accepts email l d ∧ IsGmail d ∧ l.head? = some '+'.toUInt8

/-- What a key should be to its address: an address with the same key and provider. -/
structure Canonical (email : Bytes) : Prop where
  accepted : ∃ l d, splitAndValidate (normalize email).1 = some (l, d)
  fixed : normalize (normalize email).1 = normalize email

/-! ## The keys of the funnel -/

theorem normalize_of_none {email : Bytes} (h : splitAndValidate (trimSpaceBytes email) = none) :
    normalize email = (email, "") := by
  rw [normalize, h]

/-- Nothing is trimmed from an address. -/
theorem accepts_of_splitAndValidate {addr l d : Bytes} (h : splitAndValidate addr = some (l, d)) :
    Accepts addr l d := by
  have hascii : (String.ofAscii addr).utf8Bytes = addr :=
    String.utf8Bytes_ofAscii fun b hb => (mem_of_splitAndValidate h b hb).1
  rw [Accepts, ← hascii, trimSpaceBytes_utf8Bytes]
  exact splitAndValidate_trimSpace h

section Funnel

variable {F : Type} [OfScientific F] (disposable : String → Bool) {r : Resolver} {now : Int}

/-- On the bytes of a string, `normalize` has what the funnel puts into its `normalized`. -/
theorem normalize_utf8Bytes (email : String) :
    (normalize email.utf8Bytes).1 = (addressFields disposable email).normalized.utf8Bytes := by
  rcases hasParts_or_none email with ⟨l, d, h⟩ | h
  · have hparts := normalized_of_parts disposable h
    rw [normalize, trimSpaceBytes_utf8Bytes, h]
    dsimp only
    rw [hparts, toLower_ofAscii h.ascii.2, canonicalKey_ofAscii h.ascii.1]
  · rw [addressFields_of_none disposable h, normalize_of_none]
    rw [trimSpaceBytes_utf8Bytes, h]

variable {disposable}

/-- On text, the cache uses this key. -/
theorem run_normalize {email : String} {res : Result F}
    (h : run disposable r now email = .ok res) :
    (Service.cacheKey res).utf8Bytes = (normalize email.utf8Bytes).1 := by
  have hfields := congrArg AddressFields.normalized (run_tells h).1
  rw [normalize_utf8Bytes disposable, ← hfields]
  rfl

/-- On text, the first two stages compute this key and this provider. -/
theorem runStages_normalize {email : String} {s : Pipeline.State F}
    (h : runStages [syntaxStage now, normalizeStage]
      { input := email, email := email, normalized := email } = .ok s) :
    (s.normalized.utf8Bytes, s.provider) = normalize email.utf8Bytes := by
  rcases hasParts_or_none email with ⟨l, d, hparts⟩ | hnone
  · rw [runStages_of_parts hparts, runStages, Except.ok.injEq] at h
    rw [normalize, trimSpaceBytes_utf8Bytes, hparts, ← h]
    simp only [State.withInput, normalized]
  · rw [normalize_of_none (by rw [trimSpaceBytes_utf8Bytes, hnone])]
    simp only [runStages, syntaxStage, hnone, Bool.true_or, if_true] at h
    cases h
    rfl

/-- On any bytes, the cache uses this key for an address. -/
theorem runBytes_normalize {email : Bytes} {res : Result F}
    (h : runBytes disposable r now email = .ok (some res)) :
    (Service.cacheKey res).utf8Bytes = (normalize email).1 := by
  cases hsplit : splitAndValidate (trimSpaceBytes email) with
  | none =>
    rw [runBytes, hsplit] at h
    cases h
  | some parts =>
    -- the address without the white space is text
    obtain ⟨l, d⟩ := parts
    have htrim := accepts_of_splitAndValidate hsplit
    have htext : (String.ofAscii (trimSpaceBytes email)).utf8Bytes = trimSpaceBytes email :=
      String.utf8Bytes_ofAscii fun b hb => (mem_of_splitAndValidate hsplit b hb).1
    have hrun : runBytes (F := F) disposable r now (trimSpaceBytes email) = .ok (some res) := by
      rw [runBytes, htrim, ← h, runBytes, hsplit]
    have hkey : normalize (trimSpaceBytes email) = normalize email := by
      rw [normalize, htrim, normalize, hsplit]
    rw [← htext, runBytes_utf8Bytes] at hrun
    cases hres : run (F := F) disposable r now (String.ofAscii (trimSpaceBytes email)) with
    | error err =>
      rw [hres] at hrun
      cases hrun
    | ok res' =>
      rw [hres] at hrun
      simp only [Except.map, Except.ok.injEq] at hrun
      split at hrun
      · obtain rfl := Option.some.inj hrun
        rw [run_normalize hres, htext, hkey]
      · cases hrun

end Funnel

/-! ## The key of an address -/

/-- Lower case makes and loses no plus sign and no at sign, no text ceases to be ASCII, and there is
    no lower case of lower case. -/
theorem lowerByte_keeps (b : UInt8) :
    (lowerByte b = '+'.toUInt8 ↔ b = '+'.toUInt8) ∧
    (lowerByte b = '@'.toUInt8 ↔ b = '@'.toUInt8) ∧ (b < 128 → lowerByte b < 128) ∧
    lowerByte (lowerByte b) = lowerByte b := by
  revert b
  exact UInt8.forall_of_lt (by decide +kernel)

theorem map_lowerByte_map_lowerByte (s : Bytes) :
    (s.map lowerByte).map lowerByte = s.map lowerByte := by
  rw [List.map_map]
  exact List.map_congr_left fun b _ => (lowerByte_keeps b).2.2.2

/-- The tag may be cut off and the dots be dropped in any order. -/
theorem gmailLocal_eq (l : Bytes) : gmailLocal l = (untagged l).map lowerByte := by
  have hstop : (fun b : UInt8 => !decide (b ≠ '.'.toUInt8) || decide (b ≠ '+'.toUInt8)) =
      fun b => decide (b ≠ '+'.toUInt8) := by
    funext b
    by_cases hdot : b = '.'.toUInt8
    · rw [hdot]
      decide
    · simp [hdot]
  rw [gmailLocal, List.takeWhile_filter, hstop, List.takeWhile_map, List.filter_map, untagged]
  simp only [Function.comp_def, ne_eq, (lowerByte_facts _).2.2.2.1, (lowerByte_keeps _).1]

/-- The key of a local part at Gmail is in lower case and has neither dots nor a tag. -/
theorem mem_gmailLocal_facts {l : Bytes} {b : UInt8} (h : b ∈ gmailLocal l) :
    lowerByte b = b ∧ b ≠ '.'.toUInt8 ∧ b ≠ '+'.toUInt8 := by
  have hplus := List.mem_takeWhile_imp h
  obtain ⟨hmem, hdot⟩ := List.mem_filter.mp (List.takeWhile_subset _ h)
  obtain ⟨c, -, rfl⟩ := List.mem_map.mp hmem
  exact ⟨(lowerByte_keeps c).2.2.2, by simpa using hdot, by simpa using hplus⟩

/-- So it is its own key. -/
theorem gmailLocal_gmailLocal (l : Bytes) : gmailLocal (gmailLocal l) = gmailLocal l := by
  have hlower : (gmailLocal l).map lowerByte = gmailLocal l := by
    conv_rhs => rw [← List.map_id (gmailLocal l)]
    exact List.map_congr_left fun b hb => (mem_gmailLocal_facts hb).1
  have hdots : (gmailLocal l).filter (· ≠ '.'.toUInt8) = gmailLocal l :=
    List.filter_eq_self.mpr fun b hb => decide_eq_true (mem_gmailLocal_facts hb).2.1
  have htag : (gmailLocal l).takeWhile (· ≠ '+'.toUInt8) = gmailLocal l :=
    List.takeWhile_eq_self_iff.mpr fun b hb => decide_eq_true (mem_gmailLocal_facts hb).2.2
  conv_lhs => rw [gmailLocal, hlower, hdots, htag]

/-- Nothing is left of a local part if it is a tag only. -/
theorem gmailLocal_eq_nil_iff {l : Bytes} (hne : l ≠ []) (h : localPartRe l = true) :
    gmailLocal l = [] ↔ l.head? = some '+'.toUInt8 := by
  obtain ⟨b, rest, rfl⟩ := List.exists_cons_of_ne_nil hne
  -- a local part does not begin with a dot, so the first character stays unless a tag begins there
  have hdot : b ≠ '.'.toUInt8 := by
    rintro rfl
    have hempty := List.all_eq_true.mp h [] (by
      rw [← List.nil_append ('.'.toUInt8 :: rest), List.splitOn_append_cons_self]
      simp)
    cases hempty
  rw [gmailLocal_eq, List.map_eq_nil_iff, untagged, List.head?_cons, Option.some.injEq]
  by_cases hplus : b = '+'.toUInt8
  · simp [hplus]
  · simp [hplus, hdot]

section Parts

theorem keyParts_gmail (l d : Bytes) : keyParts l d "gmail" = (gmailLocal l, gmailDomain) := by
  rw [keyParts, if_pos rfl]

theorem keyParts_of_ne {provider : String} (h : provider ≠ "gmail") (l d : Bytes) :
    keyParts l d provider = (l.map lowerByte, d) := by
  rw [keyParts, if_neg h]

variable {email l d : Bytes}

theorem Accepts.ne_none (h : Accepts email l d) :
    splitAndValidate (trimSpaceBytes email) ≠ none := by
  rw [h]
  exact Option.some_ne_none _

theorem Accepts.facts (h : Accepts email l d) :
    l ≠ [] ∧ localPartRe l = true ∧ validDomain d = true := by
  obtain ⟨-, -, hne, -, hl, hd⟩ := splitAndValidate_eq_some_iff.mp h
  exact ⟨hne, hl, hd⟩

/-- Both parts are ASCII, and the at sign between them is the only one. -/
theorem Accepts.ascii (h : Accepts email l d) :
    (∀ b ∈ l, b < 128 ∧ b ≠ '@'.toUInt8) ∧ ∀ b ∈ d, b < 128 ∧ b ≠ '@'.toUInt8 := by
  obtain ⟨-, hl, hd⟩ := h.facts
  refine ⟨fun b hb => ?_, fun b hb => ?_⟩
  · rcases mem_of_localPartRe hl b hb with rfl | hatext
    · decide
    · have hfacts := (byte_facts b).1 hatext
      exact ⟨hfacts.1, hfacts.2.1⟩
  · have hfacts := (byte_facts b).2 (mem_of_validDomain hd b hb)
    exact ⟨hfacts.1, hfacts.2.1⟩

/-- A domain of ASCII letters in lower case, and its text. -/
structure Spelled (domain : Bytes) (name : String) : Prop where
  mem : ∀ b ∈ domain, b < 128 ∧ b ≠ '@'.toUInt8
  lower : domain.map lowerByte = domain
  text : String.ofAscii domain = name

theorem gmail_spelled : Spelled gmailDomain "gmail.com" ∧
    Spelled "googlemail.com".utf8Bytes "googlemail.com" := by
  refine ⟨⟨?_, ?_, ofAscii_gmailDomain⟩, ⟨?_, ?_, ?_⟩⟩ <;> decide +kernel

/-- In bytes and in text, two domains are equal up to letter case at the same time. -/
theorem Spelled.ofAscii_eq_iff {domain : Bytes} {name : String} (hname : Spelled domain name)
    (h : ∀ b ∈ d, b < 128) :
    String.ofAscii (d.map lowerByte) = name ↔ EqualFold d domain := by
  -- in lower case the bytes are ASCII too
  have hlower : ∀ b ∈ d.map lowerByte, b < 128 := by
    intro b hb
    obtain ⟨c, hc, rfl⟩ := List.mem_map.mp hb
    exact (lowerByte_keeps c).2.2.1 (h c hc)
  have hascii := fun b hb => (hname.mem b hb).1
  rw [EqualFold, hname.lower, ← hname.text]
  constructor
  · intro heq
    rw [← String.utf8Bytes_ofAscii hlower, heq, String.utf8Bytes_ofAscii hascii]
  · exact fun heq => congrArg _ heq

/-- The class of the consumer domains of Gmail. -/
theorem providerClass_of_ascii (h : ∀ b ∈ d, b < 128) :
    providerClass (toLower (.ofAscii d)) = "gmail" ↔ IsGmail d := by
  obtain ⟨hgmail, hgooglemail⟩ := gmail_spelled
  rw [providerClass_eq_gmail_iff, toLower_ofAscii h, List.mem_pair]
  exact or_congr (hgmail.ofAscii_eq_iff h) (hgooglemail.ofAscii_eq_iff h)

theorem IsGmail.of_equalFold {d' : Bytes} (hgmail : IsGmail d) (h : EqualFold d d') :
    IsGmail d' :=
  hgmail.imp h.symm.trans h.symm.trans

theorem isGmail_of_map_lowerByte (h : d.map lowerByte = gmailDomain) : IsGmail d :=
  .inl (h.trans gmail_spelled.1.lower.symm)

/-- The parts of the key in ASCII, without an at sign. -/
theorem Accepts.mem_keyParts (h : Accepts email l d) (provider : String) :
    (∀ b ∈ (keyParts l (d.map lowerByte) provider).1, b < 128 ∧ b ≠ '@'.toUInt8) ∧
    ∀ b ∈ (keyParts l (d.map lowerByte) provider).2, b < 128 ∧ b ≠ '@'.toUInt8 := by
  have hlower : ∀ s : Bytes, (∀ b ∈ s, b < 128 ∧ b ≠ '@'.toUInt8) →
      ∀ b ∈ s.map lowerByte, b < 128 ∧ b ≠ '@'.toUInt8 := by
    intro s hs b hb
    obtain ⟨c, hc, rfl⟩ := List.mem_map.mp hb
    exact ⟨(lowerByte_keeps c).2.2.1 (hs c hc).1, mt (lowerByte_keeps c).2.1.mp (hs c hc).2⟩
  unfold keyParts
  -- for Gmail the domain is fixed, and dots and tags are dropped
  split
  · refine ⟨fun b hb => ?_, gmail_spelled.1.mem⟩
    exact hlower l h.ascii.1 b (List.mem_of_mem_filter (List.takeWhile_subset _ hb))
  · exact ⟨hlower l h.ascii.1, hlower d h.ascii.2⟩

/-- The key of an accepted address, put together from its parts. -/
theorem Accepts.normalize_eq (h : Accepts email l d) :
    normalize email =
      (keyBytes l (d.map lowerByte) (providerClass (toLower (.ofAscii d))),
        providerClass (toLower (.ofAscii d))) := by
  have hl := fun b hb => (h.ascii.1 b hb).1
  have hd := fun b hb => (h.ascii.2 b hb).1
  have hparts := h.mem_keyParts (providerClass (toLower (.ofAscii d)))
  rw [normalize, h]
  dsimp only
  -- the parts are ASCII, so on bytes the key is what it is on characters
  nth_rewrite 1 [toLower_ofAscii hd]
  rw [canonicalKey_ofAscii hl, String.utf8Bytes_ofAscii]
  intro b hb
  rcases List.mem_append.mp hb with hb | hb
  · exact (hparts.1 b hb).1
  · rcases List.mem_cons.mp hb with rfl | hb
    · decide
    · exact (hparts.2 b hb).1

/-- The key of an address is an address with the same key and provider. -/
theorem Accepts.canonical (h : Accepts email l d)
    (hleft : ¬ (IsGmail d ∧ l.head? = some '+'.toUInt8)) : Canonical email := by
  have hd := fun b hb => (h.ascii.2 b hb).1
  have hclass := providerClass_of_ascii hd
  have hkey : splitAndValidate
      (keyBytes l (d.map lowerByte) (providerClass (toLower (.ofAscii d)))) =
        some (keyParts l (d.map lowerByte) (providerClass (toLower (.ofAscii d)))) := by
    refine splitAndValidate_key h fun hgmail hnil => hleft ⟨hclass.mp hgmail, ?_⟩
    exact (gmailLocal_eq_nil_iff h.facts.1 h.facts.2.1).mp hnil
  refine ⟨?_, ?_⟩
  · rw [h.normalize_eq]
    obtain ⟨⟨kl, kd⟩, hparts⟩ := Option.isSome_iff_exists.mp (Option.isSome_of_eq_some hkey)
    exact ⟨kl, kd, hparts⟩
  rw [h.normalize_eq]
  -- the key of an address at Gmail has the domain `gmail.com`, and is a key of Gmail again
  by_cases hgmail : providerClass (toLower (.ofAscii d)) = "gmail"
  · have hself : providerClass (toLower (.ofAscii gmailDomain)) = "gmail" :=
      (providerClass_of_ascii fun b hb => (gmail_spelled.1.mem b hb).1).mpr
        (isGmail_of_map_lowerByte gmail_spelled.1.lower)
    rw [hgmail, keyParts_gmail] at hkey
    rw [hgmail, (accepts_of_splitAndValidate hkey).normalize_eq, hself, keyBytes, keyParts_gmail,
      gmailLocal_gmailLocal, keyBytes, keyParts_gmail]
  · have hself : toLower (.ofAscii (d.map lowerByte)) = toLower (.ofAscii d) := by
      have hlower := (h.mem_keyParts "").2
      rw [keyParts_of_ne (by decide)] at hlower
      rw [toLower_ofAscii fun b hb => (hlower b hb).1, map_lowerByte_map_lowerByte,
        toLower_ofAscii hd]
    rw [keyParts_of_ne hgmail] at hkey
    rw [(accepts_of_splitAndValidate hkey).normalize_eq, hself, keyBytes, keyParts_of_ne hgmail,
      map_lowerByte_map_lowerByte, map_lowerByte_map_lowerByte, keyBytes, keyParts_of_ne hgmail]

/-- Of an address whose local part is a tag only, the at sign and the domain are left. -/
theorem Accepts.normalize_of_tagOnly (h : Accepts email l d) (hgmail : IsGmail d)
    (htag : l.head? = some '+'.toUInt8) : (normalize email).1 = "@gmail.com".utf8Bytes := by
  have hclass := (providerClass_of_ascii fun b hb => (h.ascii.2 b hb).1).mpr hgmail
  have hnil := (gmailLocal_eq_nil_iff h.facts.1 h.facts.2.1).mpr htag
  rw [h.normalize_eq, hclass, keyBytes, keyParts_gmail, hnil]
  decide +kernel

/-- Addresses have the same key if they are variants of each other. -/
theorem Accepts.normalize_eq_iff {email' l' d' : Bytes} (h : Accepts email l d)
    (h' : Accepts email' l' d') :
    (normalize email).1 = (normalize email').1 ↔
      (EqualFold l l' ∧ EqualFold d d') ∨
        (IsGmail d ∧ IsGmail d' ∧ EqualFold (untagged l) (untagged l')) := by
  have hclass := providerClass_of_ascii fun b hb => (h.ascii.2 b hb).1
  have hclass' := providerClass_of_ascii fun b hb => (h'.ascii.2 b hb).1
  have hparts := h.mem_keyParts (providerClass (toLower (.ofAscii d)))
  have hparts' := h'.mem_keyParts (providerClass (toLower (.ofAscii d')))
  -- the at sign separates the parts of a key
  rw [h.normalize_eq, h'.normalize_eq, keyBytes, keyBytes, List.append_cons_inj_of_notMem
    (fun hmem => (hparts.1 _ hmem).2 rfl) (fun hmem => (hparts.2 _ hmem).2 rfl)]
  by_cases hgmail : IsGmail d <;> by_cases hgmail' : IsGmail d'
  · rw [hclass.mpr hgmail, hclass'.mpr hgmail', keyParts_gmail, keyParts_gmail]
    constructor
    · rintro ⟨hlocal, -, -⟩
      rw [gmailLocal_eq, gmailLocal_eq] at hlocal
      exact .inr ⟨hgmail, hgmail', hlocal⟩
    · rintro (⟨hl, -⟩ | ⟨-, -, hl⟩)
      · exact ⟨by rw [gmailLocal, hl, gmailLocal], rfl, rfl⟩
      · exact ⟨by rw [gmailLocal_eq, gmailLocal_eq, hl], rfl, rfl⟩
  · rw [hclass.mpr hgmail, keyParts_gmail, keyParts_of_ne (mt hclass'.mp hgmail')]
    refine iff_of_false (fun heq => hgmail' (isGmail_of_map_lowerByte heq.2.2.symm)) ?_
    rintro (⟨-, hd⟩ | ⟨-, hd', -⟩)
    · exact hgmail' (hgmail.of_equalFold hd)
    · exact hgmail' hd'
  · rw [hclass'.mpr hgmail', keyParts_gmail, keyParts_of_ne (mt hclass.mp hgmail)]
    refine iff_of_false (fun heq => hgmail (isGmail_of_map_lowerByte heq.2.2)) ?_
    rintro (⟨-, hd⟩ | ⟨hd, -⟩)
    · exact hgmail (hgmail'.of_equalFold hd.symm)
    · exact hgmail hd
  · rw [keyParts_of_ne (mt hclass.mp hgmail), keyParts_of_ne (mt hclass'.mp hgmail')]
    constructor
    · exact fun heq => .inl ⟨heq.1, heq.2.2⟩
    · rintro (⟨hl, hd⟩ | ⟨hd, -⟩)
      · exact ⟨hl, rfl, hd⟩
      · exact absurd hd hgmail

end Parts

/-! ## Inputs with the same key -/

/-- Every text is accepted, with its two parts, or rejected. -/
theorem accepts_or_none (email : Bytes) :
    (∃ l d, Accepts email l d) ∨ splitAndValidate (trimSpaceBytes email) = none := by
  cases h : splitAndValidate (trimSpaceBytes email) with
  | none => exact .inr rfl
  | some parts => exact .inl ⟨parts.1, parts.2, h⟩

/-- The inputs are the text `@gmail.com`, which is no address, and an address at Gmail whose
    local part is a tag only. -/
def Collide (e e' : Bytes) : Prop := TagOnly e ∧ e' = "@gmail.com".utf8Bytes

theorem accepts_unique {email l d l' d' : Bytes} (h : Accepts email l d)
    (h' : Accepts email l' d') : l = l' ∧ d = d' :=
  Prod.mk.inj (Option.some.inj (h.symm.trans h'))

theorem gmail_rejected : splitAndValidate (trimSpaceBytes "@gmail.com".utf8Bytes) = none := by
  decide +kernel

/-- A key is canonical unless the address has nothing but a tag. -/
theorem canonical_iff_not_tagOnly {email l d : Bytes} (h : Accepts email l d) :
    Canonical email ↔ ¬ TagOnly email := by
  constructor
  · rintro ⟨⟨l', d', hkey⟩, -⟩ ⟨l₀, d₀, h₀, hgmail, htag⟩
    rw [h₀.normalize_of_tagOnly hgmail htag] at hkey
    exact (accepts_of_splitAndValidate hkey).ne_none gmail_rejected
  · exact fun hnot => h.canonical fun hleft => hnot ⟨l, d, h, hleft⟩

/-- An input that is no address shares its key with an address only if nothing is left of it. -/
theorem normalize_eq_rejected_iff {e e' l d : Bytes} (h : Accepts e l d)
    (h' : splitAndValidate (trimSpaceBytes e') = none) :
    (normalize e).1 = (normalize e').1 ↔ Collide e e' := by
  rw [normalize_of_none h']
  constructor
  · -- if the key of `e` is the rejected text `e'`, it is not canonical, so `e` has nothing but a
    -- tag
    intro hkey
    by_contra hnot
    have htag : ¬ TagOnly e := by
      rintro ⟨l₀, d₀, h₀, hgmail, htag⟩
      exact hnot ⟨⟨l₀, d₀, h₀, hgmail, htag⟩,
        hkey.symm.trans (h₀.normalize_of_tagOnly hgmail htag)⟩
    obtain ⟨⟨l₁, d₁, haccepted⟩, -⟩ := (canonical_iff_not_tagOnly h).mpr htag
    rw [hkey] at haccepted
    exact (accepts_of_splitAndValidate haccepted).ne_none h'
  · rintro ⟨⟨l₀, d₀, h₀, hgmail, htag⟩, rfl⟩
    exact h₀.normalize_of_tagOnly hgmail htag

/-- Text that is rejected is no variant of anything. -/
theorem not_variants_of_rejected {e e' : Bytes}
    (h : splitAndValidate (trimSpaceBytes e) = none ∨ splitAndValidate (trimSpaceBytes e') = none) :
    ¬ Variants e e' := by
  rintro ⟨l, d, l', d', haccepted, haccepted', -⟩
  rcases h with h | h
  · exact haccepted.ne_none h
  · exact haccepted'.ne_none h

/-- Accepted addresses share a key exactly if they are variants. -/
theorem normalize_eq_variants_iff {e e' l d l' d' : Bytes} (h : Accepts e l d)
    (h' : Accepts e' l' d') : (normalize e).1 = (normalize e').1 ↔ Variants e e' := by
  rw [h.normalize_eq_iff h']
  constructor
  · exact fun hsame => ⟨l, d, l', d', h, h', hsame⟩
  · rintro ⟨l₀, d₀, l₀', d₀', h₀, h₀', hsame⟩
    obtain ⟨rfl, rfl⟩ := accepts_unique h h₀
    obtain ⟨rfl, rfl⟩ := accepts_unique h' h₀'
    exact hsame

/-- An accepted address is not the key of one with nothing but a tag. -/
theorem not_collide {e e' l' d' : Bytes} (h' : Accepts e' l' d') : ¬ Collide e e' := by
  rintro ⟨-, rfl⟩
  exact h'.ne_none gmail_rejected

theorem not_collide_of_none {e e' : Bytes} (h : splitAndValidate (trimSpaceBytes e) = none) :
    ¬ Collide e e' := by
  rintro ⟨⟨l, d, haccepted, -⟩, -⟩
  exact haccepted.ne_none h

/-- Sharing a key means being variants, but for the text `@gmail.com` and addresses with nothing but
    a tag. -/
theorem shared_key_iff {e e' : Bytes} (hne : e ≠ e') :
    ((normalize e).1 = (normalize e').1 ↔ Variants e e') ↔ ¬ (Collide e e' ∨ Collide e' e) := by
  -- two accepted addresses, one accepted and one rejected in either order, and two rejected ones,
  -- whose keys are they themselves
  rcases accepts_or_none e with ⟨l, d, h⟩ | h <;> rcases accepts_or_none e' with ⟨l', d', h'⟩ | h'
  · exact iff_of_true (normalize_eq_variants_iff h h')
      (not_or.mpr ⟨not_collide h', not_collide h⟩)
  · rw [normalize_eq_rejected_iff h h', iff_false_right (not_variants_of_rejected (.inr h')),
      or_iff_left (not_collide_of_none h')]
  · rw [eq_comm, normalize_eq_rejected_iff h' h,
      iff_false_right (not_variants_of_rejected (.inl h)), or_iff_right (not_collide_of_none h)]
  · rw [normalize_of_none h, normalize_of_none h']
    exact iff_of_true (iff_of_false hne (not_variants_of_rejected (.inl h)))
      (not_or.mpr ⟨not_collide_of_none h, not_collide_of_none h'⟩)

/-- The key of an address is canonical unless the address is at Gmail with a local part that is a
    tag only; and different inputs share a key exactly if they are variants of one address, unless
    one is such an address and the other the text `@gmail.com`. The key is the one that the funnel
    computes and the cache uses. -/
theorem canonical_key_iff {F : Type} [OfScientific F] (disposable : String → Bool) (r : Resolver)
    (now : Int) :
    (∀ email l d, Accepts email l d → (Canonical email ↔ ¬ TagOnly email)) ∧
    (∀ e e', e ≠ e' →
      (((normalize e).1 = (normalize e').1 ↔ Variants e e') ↔
        ¬ (Collide e e' ∨ Collide e' e))) ∧
    (∀ email (s : Pipeline.State F),
      runStages [syntaxStage now, normalizeStage]
        { input := email, email := email, normalized := email } = .ok s →
      (s.normalized.utf8Bytes, s.provider) = normalize email.utf8Bytes) ∧
    (∀ email (res : Result F), run disposable r now email = .ok res →
      (Service.cacheKey res).utf8Bytes = (normalize email.utf8Bytes).1) ∧
    ∀ email (res : Result F), runBytes disposable r now email = .ok (some res) →
      (Service.cacheKey res).utf8Bytes = (normalize email).1 :=
  ⟨fun _ _ _ => canonical_iff_not_tagOnly, fun _ _ => shared_key_iff,
    fun _ _ => runStages_normalize, fun _ _ => run_normalize, fun _ _ => runBytes_normalize⟩

/-- The address `+abc@gmail.com` is accepted, its key is not, and the text `@gmail.com` has the
    same key. -/
theorem key_of_tag :
    Accepts "+abc@gmail.com".utf8Bytes "+abc".utf8Bytes "gmail.com".utf8Bytes ∧
    normalize "+abc@gmail.com".utf8Bytes = ("@gmail.com".utf8Bytes, "gmail") ∧
    splitAndValidate "@gmail.com".utf8Bytes = none ∧
    normalize "@gmail.com".utf8Bytes = ("@gmail.com".utf8Bytes, "") := by
  refine ⟨?_, ?_, ?_, ?_⟩
  · unfold Accepts
    decide +kernel
  all_goals decide +kernel

end Rcptto.Native
