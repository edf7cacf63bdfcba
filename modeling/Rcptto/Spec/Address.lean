import Rcptto.ForStd.List
import Rcptto.Native.Pipeline

/-!
# Addresses and their keys

What the syntax stage accepts, and how the key of an address in the cache relates to the
addresses it stands for. An accepted address is ASCII, so most of this is about bytes.

## Key results

- `splitAndValidate_eq_some_iff`: the accepted addresses
- `splitAndValidate_key`: the key of an accepted address is an accepted address, unless nothing
  is left of its local part
-/

namespace Rcptto.Native

/-! ## Splitting an address -/

section Split

variable {s l d : Bytes} {b : UInt8}

theorem lastIndexByte_of_notMem (h : b ∉ s) : lastIndexByte s b = -1 := by
  have hnone : s.reverse.idxOf? b = none := List.idxOf?_eq_none_iff.mpr (by simpa using h)
  rw [lastIndexByte, hnone]

/-- The last index of a byte that does not appear after it. -/
theorem lastIndexByte_append (h : b ∉ d) : lastIndexByte (l ++ b :: d) b = l.length := by
  have hsome : (l ++ b :: d).reverse.idxOf? b = some d.length := by
    rw [List.reverse_append, List.reverse_cons, List.append_assoc, List.singleton_append,
      List.idxOf?_append_cons_self (by simpa using h), List.length_reverse]
  rw [lastIndexByte, hsome]
  simp only [List.length_append, List.length_cons]
  omega

/-- A byte string with an at sign, split at the last one. -/
theorem exists_last_append (h : b ∈ s) : ∃ l d, s = l ++ b :: d ∧ b ∉ d := by
  obtain ⟨d, l, hs, hd⟩ := List.eq_append_cons_of_mem (List.mem_reverse.mpr h)
  refine ⟨l.reverse, d.reverse, ?_, by simpa using hd⟩
  have := congrArg List.reverse hs
  simpa using this

end Split

/-! ## Characters -/

/-- A character of a domain. -/
def isDomainByte (b : UInt8) : Bool :=
  (Char.ofUInt8 b).isAlphanum || b = '-'.toUInt8 || b = '.'.toUInt8

/-- An accepted local part consists of the characters of an atom, and dots. -/
theorem mem_of_localPartRe {l : Bytes} (h : localPartRe l = true) :
    ∀ b ∈ l, b = '.'.toUInt8 ∨ isAtext b = true := by
  intro b hb
  rcases List.eq_or_mem_splitOn (a := '.'.toUInt8) hb with hdot | ⟨atom, hatom, hmem⟩
  · exact .inl hdot
  · have hatoms := List.all_eq_true.mp h atom hatom
    simp only [Bool.and_eq_true] at hatoms
    exact .inr (List.all_eq_true.mp hatoms.2 b hmem)

/-- The bytes of a label are letters, digits and hyphens. -/
theorem mem_of_domainLabelRe {label : Bytes} (h : domainLabelRe label = true) :
    ∀ b ∈ label, isDomainByte b = true := by
  cases label with
  | nil => simp
  | cons c rest =>
    simp only [domainLabelRe, Bool.and_eq_true] at h
    obtain ⟨hc, hrest⟩ := h
    intro b hb
    -- the first, the last and the characters in between are checked one after the other
    rcases List.mem_cons.mp hb with rfl | hb
    · simp [isDomainByte, hc]
    · cases hlast : rest.getLast? with
      | none => simp [List.getLast?_eq_none_iff.mp hlast] at hb
      | some last =>
        simp only [hlast, Bool.and_eq_true] at hrest
        obtain ⟨⟨-, hmid⟩, hend⟩ := hrest
        rw [← List.dropLast_append_getLast? last hlast] at hb
        rcases List.mem_append.mp hb with hb | hb
        · have := List.all_eq_true.mp hmid b hb
          simp only [isDomainByte, Bool.or_eq_true] at this ⊢
          exact .inl this
        · simp [isDomainByte, List.mem_singleton.mp hb, hend]

/-- The labels of an accepted domain. -/
theorem labels_of_validDomain {d : Bytes} (h : validDomain d = true) :
    2 ≤ (d.splitOn '.'.toUInt8).length ∧ ∀ label ∈ d.splitOn '.'.toUInt8,
      domainLabelRe label = true := by
  unfold validDomain at h
  dsimp only at h
  -- the dots at the ends, the number of labels, and then each label
  split at h
  · cases h
  split at h
  · cases h
  · rename_i hlen
    split at h
    · cases h
    · rename_i hall
      exact ⟨by omega, List.all_eq_true.mp (by simpa using hall)⟩

/-- The bytes of a domain are those of labels, and dots. -/
theorem mem_of_validDomain {d : Bytes} (h : validDomain d = true) :
    ∀ b ∈ d, isDomainByte b = true := by
  intro b hb
  rcases List.eq_or_mem_splitOn (a := '.'.toUInt8) hb with rfl | ⟨label, hlabel, hmem⟩
  · decide
  · exact mem_of_domainLabelRe ((labels_of_validDomain h).2 label hlabel) b hmem

theorem validDomain_ne_nil {d : Bytes} (h : validDomain d = true) : d ≠ [] := by
  rintro rfl
  cases h

/-- What the characters of an address are not. -/
theorem byte_facts (b : UInt8) :
    (isAtext b = true →
      b < 128 ∧ b ≠ '@'.toUInt8 ∧ b ≠ '.'.toUInt8 ∧ isSpace (.ofUInt8 b) = false) ∧
    (isDomainByte b = true → b < 128 ∧ b ≠ '@'.toUInt8 ∧ isSpace (.ofUInt8 b) = false) := by
  revert b
  exact UInt8.forall_of_lt (by decide +kernel)

theorem at_notMem_of_validDomain {d : Bytes} (h : validDomain d = true) : '@'.toUInt8 ∉ d :=
  fun hmem => ((byte_facts _).2 (mem_of_validDomain h _ hmem)).2.1 rfl

theorem splitAndValidate_of_notMem {addr : Bytes} (h : '@'.toUInt8 ∉ addr) :
    splitAndValidate addr = none := by
  rw [splitAndValidate, lastIndexByte_of_notMem h]
  simp

/-- `splitAndValidate` on two parts with an at sign between them, the last one. -/
theorem splitAndValidate_append {l d : Bytes} (h : '@'.toUInt8 ∉ d) :
    splitAndValidate (l ++ '@'.toUInt8 :: d) =
      if l.length + (d.length + 1) ≤ 254 ∧ l ≠ [] ∧ l.length ≤ 64 ∧ localPartRe l = true ∧
        validDomain d = true then some (l, d) else none := by
  rw [splitAndValidate, lastIndexByte_append h]
  simp only [Int.toNat_natCast, List.take_left, List.drop_length_add_append, List.drop_one,
    List.tail_cons, List.length_append, List.length_cons]
  -- a domain that is not empty is part of what `validDomain` checks
  have hdomain : validDomain d = true → 0 < d.length := fun hd =>
    List.length_pos_iff.mpr (validDomain_ne_nil hd)
  have hlocal : l ≠ [] ↔ 0 < l.length := List.length_pos_iff.symm
  split_ifs <;> grind

/-- The addresses that `splitAndValidate` accepts, with their two parts. -/
theorem splitAndValidate_eq_some_iff {addr l d : Bytes} :
    splitAndValidate addr = some (l, d) ↔
      addr = l ++ '@'.toUInt8 :: d ∧ addr.length ≤ 254 ∧ l ≠ [] ∧ l.length ≤ 64 ∧
        localPartRe l = true ∧ validDomain d = true := by
  constructor
  · intro h
    have hmem : '@'.toUInt8 ∈ addr := by
      by_contra hnot
      rw [splitAndValidate_of_notMem hnot] at h
      cases h
    -- the address is cut at its last at sign
    obtain ⟨l', d', rfl, hd'⟩ := exists_last_append hmem
    rw [splitAndValidate_append hd'] at h
    split at h
    · next hall =>
      cases h
      rw [List.length_append, List.length_cons]
      exact ⟨rfl, hall⟩
    · cases h
  · rintro ⟨rfl, hall⟩
    rw [List.length_append, List.length_cons] at hall
    rw [splitAndValidate_append (at_notMem_of_validDomain hall.2.2.2.2), if_pos hall]

/-! ## Lower case -/

/-- `unicode.ToLower`, on ASCII. -/
def lowerByte (b : UInt8) : UInt8 := if 65 ≤ b ∧ b ≤ 90 then b + 32 else b

/-- Lower case keeps the kind of a character. -/
theorem lowerByte_facts (b : UInt8) :
    isAtext (lowerByte b) = isAtext b ∧
    (Char.ofUInt8 (lowerByte b)).isAlphanum = (Char.ofUInt8 b).isAlphanum ∧
    (Char.ofUInt8 (lowerByte b)).isAlpha = (Char.ofUInt8 b).isAlpha ∧
    (lowerByte b = '.'.toUInt8 ↔ b = '.'.toUInt8) ∧
    (lowerByte b = '-'.toUInt8 ↔ b = '-'.toUInt8) ∧
    (b < 128 → toLowerRune (.ofUInt8 b) = .ofUInt8 (lowerByte b)) := by
  revert b
  exact UInt8.forall_of_lt (by decide +kernel)

theorem toLower_ofAscii {bs : Bytes} (h : ∀ b ∈ bs, b < 128) :
    toLower (.ofAscii bs) = .ofAscii (bs.map lowerByte) := by
  rw [toLower, String.toList_ofAscii, String.ofAscii, List.map_map, List.map_map]
  congr 1
  exact List.map_congr_left fun b hb => (lowerByte_facts b).2.2.2.2.2 (h b hb)

theorem localPartRe_map_lowerByte (l : Bytes) : localPartRe (l.map lowerByte) = localPartRe l := by
  rw [localPartRe, List.splitOn_map fun b => (lowerByte_facts b).2.2.2.1, List.all_map, localPartRe]
  congr 1
  funext atom
  simp [Function.comp_def, (lowerByte_facts _).1]

/-- Case does not matter for a label. -/
theorem domainLabelRe_map_lowerByte (label : Bytes) :
    domainLabelRe (label.map lowerByte) = domainLabelRe label := by
  cases label with
  | nil => rfl
  | cons b rest =>
    rw [List.map_cons, domainLabelRe, domainLabelRe, List.getLast?_map, (lowerByte_facts b).2.1]
    cases rest.getLast? with
    | none => rfl
    | some last =>
      simp [← List.map_dropLast, Function.comp_def, (lowerByte_facts _).2.1,
        (lowerByte_facts _).2.2.2.2.1]

/-- Case does not matter for a domain. -/
theorem validDomain_map_lowerByte (d : Bytes) : validDomain (d.map lowerByte) = validDomain d := by
  -- every test of `validDomain` gives the same answer for the bytes in lower case
  have hdot : ∀ o : Option UInt8, o.map lowerByte = some '.'.toUInt8 ↔ o = some '.'.toUInt8 := by
    intro o
    cases o with
    | none => simp
    | some b => simpa using (lowerByte_facts b).2.2.2.1
  have htld : ((d.map lowerByte).splitOn '.'.toUInt8).getLastD [] =
      ((d.splitOn '.'.toUInt8).getLastD []).map lowerByte := by
    rw [List.splitOn_map fun b => (lowerByte_facts b).2.2.2.1, List.getLastD_eq_getLast?,
      List.getLastD_eq_getLast?, List.getLast?_map]
    cases (d.splitOn '.'.toUInt8).getLast? with
    | none => rfl
    | some label => rfl
  have hlabels : ((d.map lowerByte).splitOn '.'.toUInt8).all domainLabelRe =
      (d.splitOn '.'.toUInt8).all domainLabelRe := by
    rw [List.splitOn_map fun b => (lowerByte_facts b).2.2.2.1, List.all_map]
    congr 1
    funext label
    exact domainLabelRe_map_lowerByte label
  have hlength : ((d.map lowerByte).splitOn '.'.toUInt8).length =
      (d.splitOn '.'.toUInt8).length := by
    rw [List.splitOn_map fun b => (lowerByte_facts b).2.2.2.1, List.length_map]
  have halpha : isAllAlpha (((d.splitOn '.'.toUInt8).getLastD []).map lowerByte) =
      isAllAlpha ((d.splitOn '.'.toUInt8).getLastD []) := by
    simp [isAllAlpha, Function.comp_def, (lowerByte_facts _).2.2.1]
  unfold validDomain
  dsimp only
  rw [htld, hlabels, hlength, halpha, List.length_map]
  simp only [List.head?_map, List.getLast?_map, hdot]

/-! ## Keys -/

/-- The local part in the key of an address at Gmail. -/
def gmailLocal (l : Bytes) : Bytes :=
  ((l.map lowerByte).filter (· ≠ '.'.toUInt8)).takeWhile (· ≠ '+'.toUInt8)

/-- The bytes of `gmail.com`. -/
def gmailDomain : Bytes := "gmail.com".utf8Bytes

/-- The two parts of the key of an address. -/
def keyParts (l d : Bytes) (provider : String) : Bytes × Bytes :=
  if provider = "gmail" then (gmailLocal l, gmailDomain) else (l.map lowerByte, d)

/-- The bytes of the key of an address. -/
def keyBytes (l d : Bytes) (provider : String) : Bytes :=
  (keyParts l d provider).1 ++ '@'.toUInt8 :: (keyParts l d provider).2

/-- The dot and the plus sign are the characters of their bytes. -/
theorem ofUInt8_ne_iff (b : UInt8) :
    (Char.ofUInt8 b ≠ '.' ↔ b ≠ '.'.toUInt8) ∧ (Char.ofUInt8 b ≠ '+' ↔ b ≠ '+'.toUInt8) := by
  revert b
  exact UInt8.forall_of_lt (by decide +kernel)

theorem ofAscii_gmailDomain : String.ofAscii gmailDomain = "gmail.com" := by decide +kernel

/-- On ASCII, `canonicalKey` is `keyBytes`. -/
theorem canonicalKey_ofAscii {l : Bytes} (hl : ∀ b ∈ l, b < 128) (d : Bytes) (provider : String) :
    Pipeline.canonicalKey (.ofAscii l) (.ofAscii d) provider =
      .ofAscii (keyBytes l d provider) := by
  have hat : "@" = String.ofAscii ['@'.toUInt8] := by decide
  unfold Pipeline.canonicalKey keyBytes keyParts
  rw [toLower_ofAscii hl]
  dsimp only
  -- an address at Gmail, where the dots and the tag are dropped, and any other one
  split
  · rw [String.toList_ofAscii, List.filter_map, List.takeWhile_map, ← String.ofAscii, hat,
      ← ofAscii_gmailDomain, ← String.ofAscii_append, ← String.ofAscii_append, gmailLocal,
      List.append_assoc, List.singleton_append]
    simp only [Function.comp_def, (ofUInt8_ne_iff _).1, (ofUInt8_ne_iff _).2]
  · rw [hat, ← String.ofAscii_append, ← String.ofAscii_append, List.append_assoc,
      List.singleton_append]

/-- An accepted address is printable ASCII. -/
theorem mem_of_splitAndValidate {addr : Bytes} {parts : Bytes × Bytes}
    (h : splitAndValidate addr = some parts) :
    ∀ b ∈ addr, b < 128 ∧ isSpace (.ofUInt8 b) = false := by
  obtain ⟨l, d⟩ := parts
  obtain ⟨rfl, -, -, -, hlocal, hdomain⟩ := splitAndValidate_eq_some_iff.mp h
  intro b hb
  -- the local part, the at sign and the domain
  rcases List.mem_append.mp hb with hb | hb
  · rcases mem_of_localPartRe hlocal b hb with rfl | hatext
    · decide
    · obtain ⟨hlt, -, -, hspace⟩ := (byte_facts b).1 hatext
      exact ⟨hlt, hspace⟩
  · rcases List.mem_cons.mp hb with rfl | hb
    · decide
    · obtain ⟨hlt, -, hspace⟩ := (byte_facts b).2 (mem_of_validDomain hdomain b hb)
      exact ⟨hlt, hspace⟩

/-- The syntax stage accepts the text of an accepted address, with the same parts. -/
theorem splitAndValidate_trimSpace {addr : Bytes} {parts : Bytes × Bytes}
    (h : splitAndValidate addr = some parts) :
    splitAndValidate (trimSpace (.ofAscii addr)).utf8Bytes = some parts := by
  have hmem := mem_of_splitAndValidate h
  have htrim : trimSpace (.ofAscii addr) = .ofAscii addr := by
    rw [trimSpace, String.toList_ofAscii, List.rdropWhile_dropWhile_eq_self]
    · rfl
    · intro c hc
      obtain ⟨b, hb, rfl⟩ := List.mem_map.mp hc
      exact (hmem b hb).2
  rw [htrim, String.utf8Bytes_ofAscii fun b hb => (hmem b hb).1, h]

/-- No dot is left in the local part of a key at Gmail. -/
theorem mem_gmailLocal {l : Bytes} (h : localPartRe l = true) :
    ∀ b ∈ gmailLocal l, isAtext b = true := by
  intro b hb
  obtain ⟨hmem, hdot⟩ := List.mem_filter.mp (List.takeWhile_subset _ hb)
  obtain ⟨c, hc, rfl⟩ := List.mem_map.mp hmem
  rcases mem_of_localPartRe h c hc with rfl | hatext
  · exact absurd hdot (by decide)
  · rw [(lowerByte_facts c).1, hatext]

/-- The local part of a key at Gmail is not longer than before. -/
theorem length_gmailLocal_le (l : Bytes) : (gmailLocal l).length ≤ l.length := by
  calc (gmailLocal l).length
      ≤ ((l.map lowerByte).filter (· ≠ '.'.toUInt8)).length :=
        (List.takeWhile_sublist _).length_le
    _ ≤ (l.map lowerByte).length := List.length_filter_le _ _
    _ = l.length := List.length_map _

/-- A run of the characters of an atom is a local part. -/
theorem localPartRe_of_atext {l : Bytes} (hne : l ≠ []) (h : ∀ b ∈ l, isAtext b = true) :
    localPartRe l = true := by
  have hdot : '.'.toUInt8 ∉ l := fun hmem => ((byte_facts _).1 (h _ hmem)).2.2.1 rfl
  rw [localPartRe, List.splitOn_eq_singleton hdot]
  simp [hne, List.all_eq_true.mpr h]

/-- The key of an accepted address is an accepted address, unless it is at Gmail and nothing is
    left of its local part. -/
theorem splitAndValidate_key {addr l d : Bytes} {provider : String}
    (h : splitAndValidate addr = some (l, d))
    (hgmail : provider = "gmail" → gmailLocal l ≠ []) :
    splitAndValidate (keyBytes l (d.map lowerByte) provider) =
      some (keyParts l (d.map lowerByte) provider) := by
  obtain ⟨rfl, hlen, hne, hsize, hlocal, hdomain⟩ := splitAndValidate_eq_some_iff.mp h
  by_cases hprovider : provider = "gmail"
  · have hlength := length_gmailLocal_le l
    have hdomainLength : gmailDomain.length = 9 := by decide
    rw [keyBytes, keyParts, if_pos hprovider]
    refine splitAndValidate_eq_some_iff.mpr ⟨rfl, ?_, hgmail hprovider, hlength.trans hsize,
      localPartRe_of_atext (hgmail hprovider) (mem_gmailLocal hlocal), by decide +kernel⟩
    -- 64 characters, the at sign and the domain of Gmail
    simp only [List.length_append, List.length_cons, hdomainLength]
    omega
  · rw [keyBytes, keyParts, if_neg hprovider]
    refine splitAndValidate_eq_some_iff.mpr ⟨rfl, by simpa using hlen, by simpa using hne,
      by simpa using hsize, ?_, ?_⟩
    · rw [localPartRe_map_lowerByte, hlocal]
    · rw [validDomain_map_lowerByte, hdomain]

/-- The key of an address whose local part has nothing left is no address. -/
theorem keyBytes_of_gmailLocal_eq_nil {l d : Bytes} (h : gmailLocal l = []) :
    String.ofAscii (keyBytes l d "gmail") = "@gmail.com" := by
  rw [keyBytes, keyParts, if_pos rfl, h]
  decide +kernel

end Rcptto.Native
