import Rcptto.ForStd.List
import Rcptto.Spec.Address

/-!
# The texts of replies

A mail server that rejects an address says why in words. `classifyRCPT` looks for an enhanced
status code in the first word of the text, and for certain keywords anywhere in it. The keywords
are also found in an address that the server repeats, so that the letters of an address can decide
what becomes of it. And a reply 552 is taken for a full mailbox whatever its text says.

## Key results

- `classifyRCPT_of_rejection`: the text decides whether a rejection is a block, and nothing else
- `enhancedStatus_eq`: the code is looked for in the first word only
- `classifyRCPT_policy_iff`: rejections that speak of a policy are blocks, unless the code is 552
- `enhancedStatus_fill`, `keywordBlock_fill`: texts with a hole for an address
- `classifyRCPT_fill_iff`: the texts for which the address does not matter
-/

namespace Rcptto.Native

/-! ## Rejections -/

/-- The text of a rejection with this code makes it a block. -/
def SaysBlock (code : Int) (msg : String) : Prop :=
  500 ≤ code ∧ enhancedIsPolicy (enhancedStatus msg) = true ∨ keywordBlock msg = true

instance (code : Int) (msg : String) : Decidable (SaysBlock code msg) :=
  inferInstanceAs (Decidable (_ ∨ _))

/-- The text of a rejection decides whether it is a block, and nothing else. -/
theorem classifyRCPT_of_rejection {code : Int} (msg : String) (hlow : 400 ≤ code)
    (hhigh : code < 600) (hfull : code ≠ 552) :
    classifyRCPT code msg =
      if SaysBlock code msg then ⟨.unknown, .blocked, .blocked⟩
      else if code < 500 then ⟨.unknown, .greylisted, .tempFail⟩
      else ⟨.undeliverable, .mailboxNotFound, .mailboxGone⟩ := by
  have haccepted : ¬ (code ≥ 200 ∧ code < 300) := by omega
  unfold classifyRCPT SaysBlock
  dsimp only
  rw [if_neg haccepted, if_neg hfull]
  -- a soft rejection is a block by its words only, and a hard one by its policy code too
  by_cases hsoft : code < 500
  · rw [if_pos (show code ≥ 400 ∧ code < 500 from ⟨hlow, hsoft⟩), if_pos hsoft]
    simp only [show ¬ 500 ≤ code by omega, false_and, false_or]
  · have hhard : 500 ≤ code := by omega
    rw [if_neg (show ¬ (code ≥ 400 ∧ code < 500) by omega),
      if_pos (show code ≥ 500 ∧ code < 600 from ⟨hhard, hhigh⟩), if_neg hsoft]
    simp only [hhard, true_and, Bool.or_eq_true]

/-- The text does not matter for any other reply. -/
theorem classifyRCPT_of_not_rejection {code : Int} (msg msg' : String)
    (h : code < 400 ∨ 600 ≤ code ∨ code = 552) :
    classifyRCPT code msg = classifyRCPT code msg' := by
  unfold classifyRCPT
  dsimp only
  split
  · rfl
  split
  · rfl
  · have hsoft : ¬ (code ≥ 400 ∧ code < 500) := by omega
    have hhard : ¬ (code ≥ 500 ∧ code < 600) := by omega
    rw [if_neg hsoft, if_neg hsoft, if_neg hhard, if_neg hhard]

/-! ## Words -/

/-- The first word of a text. -/
def firstWord (l : List Char) : List Char := (l.dropWhile isSpace).takeWhile (!isSpace ·)

/-- An enhanced status code: three numbers with dots between them. -/
def IsStatusCode (word : List Char) : Prop :=
  (word.splitOn '.').length = 3 ∧
    ∀ part ∈ word.splitOn '.', part ≠ [] ∧ ∀ c ∈ part, '0' ≤ c ∧ c ≤ '9'

instance (word : List Char) : Decidable (IsStatusCode word) :=
  inferInstanceAs (Decidable (_ ∧ _))

/-- The enhanced status code is the first word, if it is one. -/
theorem enhancedStatus_eq (msg : String) : enhancedStatus msg =
    if IsStatusCode (firstWord msg.toList) then .ofList (firstWord msg.toList) else "" := by
  have hword := List.head?_filter_splitOnP isSpace msg.toList
  rw [← firstWord] at hword
  unfold enhancedStatus fields
  cases hwords : (msg.toList.splitOnP isSpace).filter (· ≠ []) with
  | nil =>
    rw [hwords] at hword
    rw [← hword]
    rfl
  | cons word rest =>
    rw [hwords] at hword
    simp only [List.head?_cons, Option.getD_some] at hword
    subst hword
    -- the tests on the parts, in terms of their characters
    have hparts :
        ((splitDots (.ofList (firstWord msg.toList))).any fun p => p = "" || !isDigits p) = false ↔
        ∀ part ∈ (firstWord msg.toList).splitOn '.',
          part ≠ [] ∧ ∀ c ∈ part, '0' ≤ c ∧ c ≤ '9' := by
      simp [splitDots, isDigits]
    have hlength : (splitDots (.ofList (firstWord msg.toList))).length =
        ((firstWord msg.toList).splitOn '.').length := by
      simp [splitDots]
    simp only [List.map_cons, hlength]
    by_cases hthree : ((firstWord msg.toList).splitOn '.').length = 3
    · rw [if_neg (not_not_intro hthree)]
      by_cases hdigits : ∀ part ∈ (firstWord msg.toList).splitOn '.',
          part ≠ [] ∧ ∀ c ∈ part, '0' ≤ c ∧ c ≤ '9'
      · rw [hparts.mpr hdigits, if_neg Bool.false_ne_true, if_pos ⟨hthree, hdigits⟩]
      · rw [if_pos (Bool.not_eq_false _ ▸ mt hparts.mp hdigits), if_neg fun h => hdigits h.2]
    · rw [if_pos hthree, if_neg fun h => hthree h.1]

/-- A message whose first word has an at sign has no status code. -/
theorem enhancedStatus_of_mem_at {msg : String} (h : '@' ∈ firstWord msg.toList) :
    enhancedStatus msg = "" := by
  rw [enhancedStatus_eq, if_neg]
  rintro ⟨-, hparts⟩
  rcases List.eq_or_mem_splitOn (a := '.') h with hdot | ⟨part, hpart, hmem⟩
  · cases hdot
  · exact absurd ((hparts part hpart).2 _ hmem) (by decide)

/-- A word that is complete stays the first one, and one that is not goes on. -/
theorem firstWord_append (l : List Char) :
    (∀ m, firstWord (l ++ m) = firstWord l) ∨
      ∀ c m, isSpace c = false →
        firstWord (l ++ c :: m) = l.dropWhile isSpace ++ (c :: m).takeWhile (!isSpace ·) := by
  -- whether there is white space after the first word of `l`
  by_cases h : ∀ c ∈ l.dropWhile isSpace, isSpace c = false
  · right
    intro c m hc
    have hdrop : (l ++ c :: m).dropWhile isSpace = l.dropWhile isSpace ++ c :: m := by
      rw [List.dropWhile_append]
      split
      · next hempty =>
        rw [List.isEmpty_iff.mp hempty, List.dropWhile_cons_of_neg (by simp [hc]), List.nil_append]
      · rfl
    rw [firstWord, hdrop, List.takeWhile_append_of_pos fun c hc => by simp [h c hc]]
  · left
    intro m
    have hne : (l.dropWhile isSpace).isEmpty = false := by
      rw [List.isEmpty_eq_false_iff]
      rintro hnil
      simp [hnil] at h
    have hword : ((l.dropWhile isSpace).takeWhile (!isSpace ·)).length ≠
        (l.dropWhile isSpace).length := by
      intro hlength
      have hself := (List.takeWhile_prefix _).eq_of_length hlength
      exact h fun c hc => by simpa using List.takeWhile_eq_self_iff.mp hself c hc
    rw [firstWord, List.dropWhile_append, hne, if_neg Bool.false_ne_true, List.takeWhile_append,
      if_neg hword, firstWord]

/-! ## Policies -/

/-- The text starts with an enhanced status code of the subject 7, security or policy. White space
    before it does not matter. -/
def StartsWithPolicyCode (msg : String) : Prop :=
  ∃ lead cls detail rest, msg.toList = lead ++ (cls ++ '.' :: '7' :: '.' :: detail) ++ rest ∧
    (∀ c ∈ lead, isSpace c = true) ∧ (∀ c ∈ rest.head?, isSpace c = true) ∧
    cls ≠ [] ∧ detail ≠ [] ∧ ∀ c ∈ cls ++ detail, '0' ≤ c ∧ c ≤ '9'

/-- The text contains one of the keywords, in any letter case. -/
def SpeaksOfBlock (msg : String) : Prop :=
  ∃ kw ∈ blockKeywords, ∃ word, word <:+: msg.toList ∧ word.map Char.toLower = kw.toList

/-- The characters of a status code are not white space. -/
theorem isSpace_of_digit_or_dot {c : Char} (h : '0' ≤ c ∧ c ≤ '9' ∨ c = '.') :
    isSpace c = false := by
  rcases h with ⟨hlow, hhigh⟩ | rfl
  · have hlow : 48 ≤ c.toNat := hlow
    have hhigh : c.toNat ≤ 57 := hhigh
    simp only [isSpace, List.mem_cons, List.not_mem_nil, or_false, Bool.or_eq_false_iff,
      decide_eq_false_iff_not, Bool.and_eq_false_iff]
    omega
  · decide

/-- Three numbers with a 7 in the middle are a code of a policy. -/
theorem isPolicy_of_parts {cls detail : List Char} (hcls : cls ≠ []) (hdetail : detail ≠ [])
    (hdigits : ∀ c ∈ cls ++ detail, '0' ≤ c ∧ c ≤ '9') :
    IsStatusCode (cls ++ '.' :: '7' :: '.' :: detail) ∧
      enhancedIsPolicy (.ofList (cls ++ '.' :: '7' :: '.' :: detail)) = true := by
  have hparts : ∀ part ∈ [cls, ['7'], detail], part ≠ [] ∧ ∀ c ∈ part, '0' ≤ c ∧ c ≤ '9' := by
    simp only [List.mem_cons, List.not_mem_nil, or_false]
    rintro part (rfl | rfl | rfl)
    · exact ⟨hcls, fun c hc => hdigits c (List.mem_append_left _ hc)⟩
    · exact ⟨by simp, List.forall_mem_singleton.mpr (by decide)⟩
    · exact ⟨hdetail, fun c hc => hdigits c (List.mem_append_right _ hc)⟩
  -- no part has a dot, so splitting gives the three parts back
  have hsplit : (cls ++ '.' :: '7' :: '.' :: detail).splitOn '.' = [cls, ['7'], detail] := by
    have hjoin : cls ++ '.' :: '7' :: '.' :: detail = ['.'].intercalate [cls, ['7'], detail] := by
      simp [List.intercalate]
    rw [hjoin]
    refine List.splitOn_intercalate '.' (fun part hpart hdot => ?_) (by simp)
    exact absurd ((hparts part hpart).2 _ hdot) (by decide)
  refine ⟨⟨by rw [hsplit]; rfl, by rwa [hsplit]⟩, ?_⟩
  simp [enhancedIsPolicy, splitDots, hsplit]

/-- A message that begins with a policy code is recognized. -/
theorem enhancedIsPolicy_of_startsWith {msg : String} (h : StartsWithPolicyCode msg) :
    enhancedIsPolicy (enhancedStatus msg) = true := by
  obtain ⟨lead, cls, detail, rest, hmsg, hlead, hrest, hcls, hdetail, hdigits⟩ := h
  -- the code has no white space in it and some after it, so it is the first word
  have hsolid : ∀ c ∈ cls ++ '.' :: '7' :: '.' :: detail, (!isSpace c) = true := by
    intro c hc
    rw [Bool.not_eq_true', isSpace_of_digit_or_dot]
    simp only [List.mem_append, List.mem_cons] at hc
    rcases hc with hc | rfl | rfl | rfl | hc
    · exact .inl (hdigits c (List.mem_append_left _ hc))
    · exact .inr rfl
    · exact .inl (by decide)
    · exact .inr rfl
    · exact .inl (hdigits c (List.mem_append_right _ hc))
  have hword : firstWord msg.toList = cls ++ '.' :: '7' :: '.' :: detail := by
    have hend : rest.takeWhile (!isSpace ·) = [] := by
      cases rest with
      | nil => rfl
      | cons c rest => rw [List.takeWhile_cons_of_neg (by simp [hrest c (by simp)])]
    rw [firstWord, hmsg, List.append_assoc, List.dropWhile_append_of_pos hlead]
    cases cls with
    | nil => exact absurd rfl hcls
    | cons c cls =>
      have hc : isSpace c = false := by simpa using hsolid c (by simp)
      rw [List.cons_append, List.cons_append, List.dropWhile_cons_of_neg (by simp [hc]),
        ← List.cons_append, ← List.cons_append, List.takeWhile_append_of_pos hsolid, hend,
        List.append_nil]
  obtain ⟨hcode, hpolicy⟩ := isPolicy_of_parts hcls hdetail hdigits
  rw [enhancedStatus_eq, hword, if_pos hcode]
  exact hpolicy

/-- The two letters outside ASCII with an ASCII lower-case form are left alone by `Char.toLower`. -/
theorem toLowerRune_of_toLower {c : Char} (h : c.toLower.toNat < 128) :
    toLowerRune c = c.toLower := by
  -- `Char.toLower` keeps the two letters beyond ASCII that `toLowerRune` changes
  have hdotted : c.toNat ≠ 0x130 := by
    intro hc
    have hc : c = Char.ofNat 0x130 := by rw [← hc, Char.ofNat_toNat]
    rw [hc] at h
    exact absurd h (by decide)
  have hkelvin : c.toNat ≠ 0x212a := by
    intro hc
    have hc : c = Char.ofNat 0x212a := by rw [← hc, Char.ofNat_toNat]
    rw [hc] at h
    exact absurd h (by decide)
  rw [toLowerRune, if_neg hdotted, if_neg hkelvin]

theorem blockKeywords_ascii : ∀ kw ∈ blockKeywords, ∀ c ∈ kw.toList, c.toNat < 128 := by
  simp [blockKeywords]

theorem keywordBlock_eq_true_iff {msg : String} : keywordBlock msg = true ↔
    ∃ kw ∈ blockKeywords, kw.toList <:+: msg.toList.map toLowerRune := by
  simp [keywordBlock, contains, toLower]

/-- A message that speaks of a block has a keyword, in whatever case. -/
theorem keywordBlock_of_speaksOfBlock {msg : String} (h : SpeaksOfBlock msg) :
    keywordBlock msg = true := by
  obtain ⟨kw, hkw, word, hword, hlower⟩ := h
  refine keywordBlock_eq_true_iff.mpr ⟨kw, hkw, ?_⟩
  have hmap : word.map toLowerRune = word.map Char.toLower := by
    refine List.map_congr_left fun c hc => toLowerRune_of_toLower ?_
    refine blockKeywords_ascii kw hkw _ ?_
    rw [← hlower]
    exact List.mem_map_of_mem hc
  rw [← hlower, ← hmap]
  exact hword.map toLowerRune

/-- A rejection that starts with the code of a policy or contains one of the keywords is taken for
    a block, and not for an answer about the mailbox, if and only if its code is not 552. -/
theorem classifyRCPT_policy_iff {code : Int} {msg : String} (hcode : 500 ≤ code ∧ code ≤ 599)
    (hmsg : StartsWithPolicyCode msg ∨ SpeaksOfBlock msg) :
    classifyRCPT code msg = ⟨.unknown, .blocked, .blocked⟩ ↔ code ≠ 552 := by
  have hsays : SaysBlock code msg := by
    rcases hmsg with hstart | hspeaks
    · exact .inl ⟨hcode.1, enhancedIsPolicy_of_startsWith hstart⟩
    · exact .inr (keywordBlock_of_speaksOfBlock hspeaks)
  by_cases hfull : code = 552
  · subst hfull
    simp [classifyRCPT]
  · rw [classifyRCPT_of_rejection msg (by omega) (by omega) hfull, if_pos hsays]
    exact iff_of_true rfl hfull

/-- A policy code, and a keyword in capitals. -/
theorem classifyRCPT_policy_iff_spam :
    StartsWithPolicyCode "5.7.1 Listed" ∧ SpeaksOfBlock "Looks like SPAM" ∧
      classifyRCPT 550 "5.7.1 Listed" = ⟨.unknown, .blocked, .blocked⟩ ∧
      classifyRCPT 554 "Looks like SPAM" = ⟨.unknown, .blocked, .blocked⟩ := by
  have hstart : StartsWithPolicyCode "5.7.1 Listed" :=
    ⟨[], ['5'], ['1'], " Listed".toList, by decide, by simp, by simp [isSpace], by simp, by simp,
      by simp⟩
  have hspeaks : SpeaksOfBlock "Looks like SPAM" :=
    ⟨"spam", by decide, "SPAM".toList, ⟨"Looks like ".toList, [], by decide⟩, by decide⟩
  exact ⟨hstart, hspeaks, (classifyRCPT_policy_iff (by decide) (.inl hstart)).mpr (by decide),
    (classifyRCPT_policy_iff (by decide) (.inr hspeaks)).mpr (by decide)⟩

/-- A message that is rejected for its content is taken for a full mailbox. -/
theorem policy_full_mailbox :
    StartsWithPolicyCode "5.7.0 This message was blocked" ∧
      SpeaksOfBlock "5.7.0 This message was blocked" ∧
      classifyRCPT 552 "5.7.0 This message was blocked" = ⟨.risky, .fullMailbox, .accepted⟩ := by
  refine ⟨⟨[], ['5'], ['0'], " This message was blocked".toList, by decide, by simp,
    by simp [isSpace], by simp, by simp, by simp⟩, ⟨"block", by decide, "block".toList,
      ⟨"5.7.0 This message was ".toList, "ed".toList, by decide⟩, by decide⟩, by decide +kernel⟩

/-! ## Texts with a hole -/

/-- A text that is accepted as an address. -/
def ValidAddress (a : String) : Prop := ∃ parts, splitAndValidate a.utf8Bytes = some parts

/-- An accepted address has an at sign and no white space. -/
theorem ValidAddress.mem_toList {a : String} (h : ValidAddress a) :
    '@' ∈ a.toList ∧ ∀ c ∈ a.toList, isSpace c = false := by
  obtain ⟨⟨l, d⟩, hparts⟩ := h
  constructor
  · have hmem : '@'.toUInt8 ∈ a.utf8Bytes := by
      rw [(splitAndValidate_eq_some_iff.mp hparts).1]
      simp
    exact String.mem_toList_of_mem_utf8Bytes hmem (by decide)
  · intro c hc
    -- an accepted address is ASCII, so its characters are its bytes
    obtain ⟨b, hb⟩ := List.exists_mem_of_ne_nil _ (String.utf8EncodeChar_ne_nil (c := c))
    obtain ⟨hlt, hspace⟩ := mem_of_splitAndValidate hparts b (List.mem_flatMap.mpr ⟨c, hc, hb⟩)
    rwa [String.mem_utf8EncodeChar hb hlt]

variable {before a after : String}

/-- What fills a hole with an at sign and no white space in it does not matter for the enhanced
    status code: if the hole is part of the first word, that is not a code. -/
theorem enhancedStatus_fill (hat : '@' ∈ a.toList) (hspace : ∀ c ∈ a.toList, isSpace c = false) :
    enhancedStatus (before ++ a ++ after) = enhancedStatus (before ++ "@") := by
  rcases firstWord_append before.toList with hdone | hgoes
  · rw [enhancedStatus_eq, enhancedStatus_eq, String.append_assoc, String.toList_append, hdone,
      String.toList_append, hdone]
  · -- the at sign ends up in the first word on both sides
    have hempty : enhancedStatus (before ++ "@") = "" := by
      apply enhancedStatus_of_mem_at
      rw [String.toList_append]
      show '@' ∈ firstWord (before.toList ++ '@' :: [])
      rw [hgoes '@' [] (by decide)]
      exact List.mem_append_right _ (by decide)
    rw [hempty]
    apply enhancedStatus_of_mem_at
    rw [String.append_assoc, String.toList_append, String.toList_append]
    cases hchars : a.toList with
    | nil => simp [hchars] at hat
    | cons c cs =>
      rw [hchars] at hat hspace
      rw [List.cons_append, hgoes c _ (hspace c (by simp)), ← List.cons_append,
        List.takeWhile_append_of_pos fun c hc => by simp [hspace c hc]]
      exact List.mem_append_right _ (List.mem_append_left _ hat)

theorem keywordBlock_of_contains {msg msg' : String} (h : msg.toList <:+: msg'.toList)
    (hmsg : keywordBlock msg = true) : keywordBlock msg' = true := by
  obtain ⟨kw, hkw, hinfix⟩ := keywordBlock_eq_true_iff.mp hmsg
  exact keywordBlock_eq_true_iff.mpr ⟨kw, hkw, hinfix.trans (h.map toLowerRune)⟩

/-- A filling that shares no letter with the keywords neither contains one nor completes one. -/
theorem keywordBlock_fill (hne : a ≠ "")
    (hletters : ∀ kw ∈ blockKeywords, ∀ c ∈ a.toList, toLowerRune c ∉ kw.toList)
    (h : keywordBlock (before ++ a ++ after) = true) :
    keywordBlock before = true ∨ keywordBlock after = true := by
  obtain ⟨kw, hkw, hinfix⟩ := keywordBlock_eq_true_iff.mp h
  have hkws : ∀ kw ∈ blockKeywords, kw.toList ≠ [] := by decide
  rw [String.toList_append, String.toList_append, List.map_append, List.map_append] at hinfix
  have hshare : ∀ c ∈ a.toList.map toLowerRune, c ∉ kw.toList := by
    intro c hc
    obtain ⟨c', hc', rfl⟩ := List.mem_map.mp hc
    exact hletters kw hkw c' hc'
  -- the keyword cannot reach into the filling, so it lies on one side of it
  rcases List.infix_or_infix_of_disjoint (hkws kw hkw) (by simpa using hne) hshare hinfix with h | h
  · exact .inl (keywordBlock_eq_true_iff.mpr ⟨kw, hkw, h⟩)
  · exact .inr (keywordBlock_eq_true_iff.mpr ⟨kw, hkw, h⟩)

/-- What fills the hole does not matter: the reply is not a rejection, or is one for a full mailbox;
    or the text around the hole makes it a block, by the code of a policy before the hole or by a
    keyword on one of its sides. -/
def Insensitive (code : Int) (before after : String) : Prop :=
  (code < 400 ∨ 600 ≤ code ∨ code = 552) ∨
    500 ≤ code ∧ enhancedIsPolicy (enhancedStatus (before ++ "@")) = true ∨
    keywordBlock before = true ∨ keywordBlock after = true

/-- The text around the hole makes the rejection a block, whatever is in the hole. -/
theorem saysBlock_fill {code : Int} (ha : ValidAddress a)
    (h : 500 ≤ code ∧ enhancedIsPolicy (enhancedStatus (before ++ "@")) = true ∨
      keywordBlock before = true ∨ keywordBlock after = true) :
    SaysBlock code (before ++ a ++ after) := by
  rcases h with ⟨hhard, hpolicy⟩ | hbefore | hafter
  · obtain ⟨hat, hspace⟩ := ha.mem_toList
    exact .inl ⟨hhard, by rwa [enhancedStatus_fill hat hspace]⟩
  · refine .inr (keywordBlock_of_contains ?_ hbefore)
    rw [String.append_assoc, String.toList_append]
    exact (List.prefix_append _ _).isInfix
  · refine .inr (keywordBlock_of_contains ?_ hafter)
    rw [String.toList_append]
    exact (List.suffix_append _ _).isInfix

/-- An address with a keyword in it. -/
theorem validAddress_spam : ValidAddress "spam@example.com" :=
  ⟨("spam".utf8Bytes, "example.com".utf8Bytes), by decide +kernel⟩

/-- An address that shares no letter with the keywords. -/
theorem validAddress_plain : ValidAddress "7@7.zz" :=
  ⟨("7".utf8Bytes, "7.zz".utf8Bytes), by decide +kernel⟩

/-- For every code and every text with a hole, the classification is the same for all addresses in
    the hole if and only if the text around the hole decides it. -/
theorem classifyRCPT_fill_iff (code : Int) (before after : String) :
    (∀ a a', ValidAddress a → ValidAddress a' →
      classifyRCPT code (before ++ a ++ after) = classifyRCPT code (before ++ a' ++ after)) ↔
    Insensitive code before after := by
  by_cases hcode : code < 400 ∨ 600 ≤ code ∨ code = 552
  · exact iff_of_true (fun _ _ _ _ => classifyRCPT_of_not_rejection _ _ hcode) (.inl hcode)
  have hfill := fun a => classifyRCPT_of_rejection (before ++ a ++ after)
    (show 400 ≤ code by omega) (by omega) (by omega)
  constructor
  · intro h
    refine .inr ?_
    -- one address makes the text a block, so all of them do, also one that adds no letters
    have hspam : SaysBlock code (before ++ "spam@example.com" ++ after) := by
      have hword : keywordBlock "spam" = true := by decide +kernel
      refine .inr (keywordBlock_of_contains ?_ hword)
      rw [String.toList_append, String.toList_append]
      exact ⟨before.toList, "@example.com".toList ++ after.toList, by simp⟩
    have hplain : SaysBlock code (before ++ "7@7.zz" ++ after) := by
      have heq := h _ _ validAddress_spam validAddress_plain
      rw [hfill, hfill, if_pos hspam] at heq
      by_contra hnot
      rw [if_neg hnot] at heq
      split at heq
      · cases heq
      · cases heq
    rcases hplain with ⟨hhard, hpolicy⟩ | hword
    · obtain ⟨hat, hspace⟩ := validAddress_plain.mem_toList
      exact .inl ⟨hhard, by rwa [enhancedStatus_fill hat hspace] at hpolicy⟩
    · exact .inr (keywordBlock_fill (by decide) (by simp [blockKeywords, toLowerRune]) hword)
  · rintro (h | h) a a' ha ha'
    · exact absurd h hcode
    · rw [hfill, hfill, if_pos (saysBlock_fill ha h), if_pos (saysBlock_fill ha' h)]

/-- The reply to an address that does not exist is a block if the address has a keyword in it. -/
theorem unknown_user_blocked :
    classifyRCPT 550 ("5.1.1 <" ++ "user@example.com" ++ ">: no such user") =
        ⟨.undeliverable, .mailboxNotFound, .mailboxGone⟩ ∧
      classifyRCPT 550 ("5.1.1 <" ++ "spam@example.com" ++ ">: no such user") =
        ⟨.unknown, .blocked, .blocked⟩ ∧
      ValidAddress "user@example.com" ∧ ValidAddress "spam@example.com" :=
  ⟨by decide +kernel, by decide +kernel,
    ⟨("user".utf8Bytes, "example.com".utf8Bytes), by decide +kernel⟩, validAddress_spam⟩

end Rcptto.Native
