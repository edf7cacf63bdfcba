import Rcptto.ForStd.Language
import Rcptto.Spec.Address

/-!
# The grammar of addresses

`splitAndValidate` checks lengths, splits at the last at sign, matches two regular expressions
and loops over the labels of the domain. Together that is one grammar, in which an address has
one reading.

## Key results

- `localPartRe_iff_mem`, `domainLabelRe_iff_mem`: the two regular expressions
- `splitAndValidate_grammar`: the accepted byte strings
-/

namespace Rcptto.Native

open scoped Computability

/-! ## The regular expressions -/

/-- The language of `localPartRe`: `A+(?:\.A+)*`, where `A` is the class of `isAtext`. -/
def localPartLang : Language UInt8 :=
  let atom := .ofClass (isAtext · = true) * (.ofClass (isAtext · = true))∗
  atom * (.ofClass (· = '.'.toUInt8) * atom)∗

/-- The class `[A-Za-z0-9]`. -/
def isAlnum (b : UInt8) : Bool := (Char.ofUInt8 b).isAlphanum

/-- The class `[A-Za-z0-9-]`. -/
def isLabelByte (b : UInt8) : Bool := (Char.ofUInt8 b).isAlphanum || b = '-'.toUInt8

/-- The language of `domainLabelRe`: `B(?:C{0,61}B)?`, with the classes of `isAlnum` and
    `isLabelByte`. -/
def domainLabelLang : Language UInt8 :=
  .ofClass (isAlnum · = true) *
    (1 + (⨆ n ≤ 61, .ofClass (isLabelByte · = true) ^ n) * .ofClass (isAlnum · = true))

/-- `localPartRe` accepts the language of its regular expression. -/
theorem localPartRe_iff_mem (l : Bytes) : localPartRe l = true ↔ l ∈ localPartLang := by
  have hdot : ∀ v ∈ Language.ofClass (isAtext · = true) * (.ofClass (isAtext · = true))∗,
      '.'.toUInt8 ∉ v := by
    intro v hv hmem
    have hatext := (Language.mem_ofClass_mul_kstar.mp hv).2 _ hmem
    exact ((byte_facts _).1 hatext).2.2.1 rfl
  rw [localPartLang, Language.mem_separated_iff_splitOn hdot]
  simp [localPartRe, Language.mem_ofClass_mul_kstar]

/-- `domainLabelRe` accepts the language of its regular expression. -/
theorem domainLabelRe_iff_mem (label : Bytes) :
    domainLabelRe label = true ↔ label ∈ domainLabelLang := by
  cases label with
  | nil => exact iff_of_false (by simp [domainLabelRe]) Language.nil_notMem_ofClass_mul
  | cons b rest =>
    rw [domainLabelLang, Language.cons_mem_ofClass_mul, Language.mem_add, Language.mem_one]
    -- a single character, or a first and a last one
    cases hlast : rest.getLast? with
    | none =>
      have hrest := List.getLast?_eq_none_iff.mp hlast
      simp [domainLabelRe, hrest, isAlnum]
    | some last =>
      have hrest := List.dropLast_append_getLast? last hlast
      -- the characters between the first and the last one
      rw [← hrest, Language.append_singleton_mem_mul_ofClass, Language.mem_iSup_ofClass_pow]
      simp [domainLabelRe, isAlnum, isLabelByte, and_assoc]

/-! ## The grammar -/

/-- An ASCII letter. -/
def IsLetter (b : UInt8) : Prop :=
  ('A'.toUInt8 ≤ b ∧ b ≤ 'Z'.toUInt8) ∨ ('a'.toUInt8 ≤ b ∧ b ≤ 'z'.toUInt8)

/-- A decimal digit. -/
def IsDigit (b : UInt8) : Prop := '0'.toUInt8 ≤ b ∧ b ≤ '9'.toUInt8

/-- The codes of letters, digits and the nineteen signs of `atext`: the exclamation mark; the number
    sign up to the apostrophe; the asterisk, the plus and the minus sign; the slash; the equals sign
    and the question mark; the caret up to the backtick; the left brace up to the tilde. -/
def IsAtext (b : UInt8) : Prop :=
  IsLetter b ∨ IsDigit b ∨ b = 33 ∨ (35 ≤ b ∧ b ≤ 39) ∨ b = 42 ∨ b = 43 ∨ b = 45 ∨ b = 47 ∨ b = 61 ∨
    b = 63 ∨ (94 ≤ b ∧ b ≤ 96) ∨ (123 ≤ b ∧ b ≤ 126)

/-- One or more non-empty runs of `atext`, with single dots between them. -/
def DotAtom (l : Bytes) : Prop :=
  ∃ atoms : List Bytes, atoms ≠ [] ∧ (∀ atom ∈ atoms, atom ≠ [] ∧ ∀ b ∈ atom, IsAtext b) ∧
    l = ['.'.toUInt8].intercalate atoms

/-- A label of a domain name. -/
structure Label (label : Bytes) : Prop where
  length_pos : 1 ≤ label.length
  length_le : label.length ≤ 63
  chars : ∀ b ∈ label, IsLetter b ∨ IsDigit b ∨ b = '-'.toUInt8
  head_ne : label.head? ≠ some '-'.toUInt8
  last_ne : label.getLast? ≠ some '-'.toUInt8

/-- At least two labels with dots between them, the last one of two letters or more. -/
def DomainName (d : Bytes) : Prop :=
  ∃ labels : List Bytes, 2 ≤ labels.length ∧ (∀ label ∈ labels, Label label) ∧
    (∀ tld ∈ labels.getLast?, 2 ≤ tld.length ∧ ∀ b ∈ tld, IsLetter b) ∧
    d = ['.'.toUInt8].intercalate labels

/-- The byte string is an address with these two parts. -/
structure Address (s l d : Bytes) : Prop where
  split : s = l ++ '@'.toUInt8 :: d
  length : 1 ≤ s.length ∧ s.length ≤ 254
  localLength : l.length ≤ 64
  localPart : DotAtom l
  domain : DomainName d

/-- Letters and digits, byte by byte. -/
theorem letter_facts (b : UInt8) :
    ((Char.ofUInt8 b).isAlpha = true ↔ IsLetter b) ∧
    ((Char.ofUInt8 b).isAlphanum = true ↔ IsLetter b ∨ IsDigit b) ∧
    (IsLetter b ∨ IsDigit b ∨ b = '-'.toUInt8 → b ≠ '.'.toUInt8) ∧
    (IsLetter b ∨ IsDigit b → b ≠ '-'.toUInt8) := by
  revert b
  unfold IsLetter IsDigit
  exact UInt8.forall_of_lt (by decide +kernel)

/-- The class of the regular expression is that of the grammar. -/
theorem isAtext_iff (b : UInt8) : isAtext b = true ↔ IsAtext b := by
  revert b
  unfold IsAtext IsLetter IsDigit
  exact UInt8.forall_of_lt (by decide +kernel)

/-- The local parts that are accepted. -/
theorem localPartRe_iff_dotAtom (l : Bytes) : localPartRe l = true ↔ DotAtom l := by
  rw [localPartRe_iff_mem, localPartLang, Language.mem_separated]
  simp only [Language.mem_ofClass_mul_kstar, isAtext_iff]
  rfl

/-- A letter or digit is a character of a label other than the hyphen. -/
theorem isAlnum_iff (b : UInt8) :
    isAlnum b = true ↔ (IsLetter b ∨ IsDigit b ∨ b = '-'.toUInt8) ∧ b ≠ '-'.toUInt8 := by
  rw [isAlnum, (letter_facts b).2.1]
  constructor
  · intro h
    exact ⟨h.imp_right .inl, (letter_facts b).2.2.2 h⟩
  · rintro ⟨h | h | h, hne⟩
    · exact .inl h
    · exact .inr h
    · exact absurd h hne

theorem isLabelByte_iff (b : UInt8) :
    isLabelByte b = true ↔ IsLetter b ∨ IsDigit b ∨ b = '-'.toUInt8 := by
  simp [isLabelByte, (letter_facts b).2.1, or_assoc]

/-- The regular expression for labels describes the labels of the grammar. -/
theorem domainLabelRe_iff_label (label : Bytes) : domainLabelRe label = true ↔ Label label := by
  rw [domainLabelRe_iff_mem]
  cases label with
  | nil => exact iff_of_false Language.nil_notMem_ofClass_mul fun h => absurd h.length_pos (by simp)
  | cons b rest =>
    rw [domainLabelLang, Language.cons_mem_ofClass_mul, Language.mem_add, Language.mem_one,
      isAlnum_iff]
    -- the last byte has a rule of its own, so the rest is taken apart from the end
    rcases List.eq_nil_or_concat rest with rfl | ⟨mid, last, rfl⟩
    · constructor
      · rintro ⟨⟨hchar, hne⟩, -⟩
        exact ⟨by simp, by simp, by simpa using hchar, by simpa using hne, by simpa using hne⟩
      · intro h
        exact ⟨⟨h.chars b (by simp), by simpa using h.head_ne⟩, .inl rfl⟩
    · rw [List.concat_eq_append, Language.append_singleton_mem_mul_ofClass,
        Language.mem_iSup_ofClass_pow, isAlnum_iff]
      simp only [isLabelByte_iff]
      constructor
      · rintro ⟨⟨hchar, hne⟩, hnil | ⟨⟨hlen, hmid⟩, hlast, hlastNe⟩⟩
        · simp at hnil
        · refine ⟨by simp, ?_, ?_, by simpa using hne, ?_⟩
          · simp only [List.length_cons, List.length_append, List.length_nil]
            omega
          · simp only [List.mem_cons, List.mem_append, List.not_mem_nil, or_false]
            rintro b' (rfl | hb' | rfl)
            · exact hchar
            · exact hmid b' hb'
            · exact hlast
          · rw [← List.cons_append, List.getLast?_concat]
            simpa using hlastNe
      · intro h
        have hlen := h.length_le
        simp only [List.length_cons, List.length_append, List.length_nil] at hlen
        have hlastNe := h.last_ne
        rw [← List.cons_append, List.getLast?_concat] at hlastNe
        refine ⟨⟨h.chars b (by simp), by simpa using h.head_ne⟩, .inr ⟨⟨by omega, ?_⟩, ?_, ?_⟩⟩
        · exact fun b' hb' => h.chars b' (by simp [hb'])
        · exact h.chars last (by simp)
        · simpa using hlastNe

/-- `validDomain`, without the checks that the labels make superfluous: an empty label would be
    refused, too. -/
theorem validDomain_eq_true_iff (d : Bytes) :
    validDomain d = true ↔ 2 ≤ (d.splitOn '.'.toUInt8).length ∧
      (∀ label ∈ d.splitOn '.'.toUInt8, domainLabelRe label = true) ∧
      2 ≤ ((d.splitOn '.'.toUInt8).getLastD []).length ∧
      isAllAlpha ((d.splitOn '.'.toUInt8).getLastD []) = true := by
  -- a dot at an end would leave an empty label there
  have hends : (∀ label ∈ d.splitOn '.'.toUInt8, domainLabelRe label = true) →
      d.head? ≠ some '.'.toUInt8 ∧ d.getLast? ≠ some '.'.toUInt8 := by
    intro hlabels
    refine ⟨fun hhead => ?_, fun hlast => ?_⟩
    · obtain ⟨rest, rfl⟩ := List.head?_eq_some_iff.mp hhead
      have hempty := hlabels [] (by
        rw [← List.nil_append ('.'.toUInt8 :: rest), List.splitOn_append_cons_self]
        simp)
      cases hempty
    · obtain ⟨front, rfl⟩ := List.getLast?_eq_some_iff.mp hlast
      have hempty := hlabels [] (by
        rw [List.splitOn_append_cons_self]
        simp)
      cases hempty
  unfold validDomain
  dsimp only
  constructor
  · intro h
    split_ifs at h with hdots hlen hall htld
    · simp only [Bool.or_eq_true, decide_eq_true_eq, Bool.not_eq_true', not_or] at htld
      exact ⟨by omega, List.all_eq_true.mp (by simpa using hall), by omega, by simpa using htld.2⟩
  · rintro ⟨hlen, hall, htld, halpha⟩
    have hne := hends hall
    rw [if_neg (by simp [hne]), if_neg (by omega), if_neg (by simpa using hall), if_neg]
    rw [halpha, decide_eq_false (by omega)]
    decide

/-- `validDomain` accepts the domain names of the grammar. -/
theorem validDomain_iff_domainName (d : Bytes) : validDomain d = true ↔ DomainName d := by
  rw [validDomain_eq_true_iff]
  constructor
  · rintro ⟨hlen, hall, htld, halpha⟩
    refine ⟨d.splitOn '.'.toUInt8, hlen, fun label hlabel => ?_, fun tld hmem => ?_,
      (List.intercalate_splitOn _).symm⟩
    · exact (domainLabelRe_iff_label label).mp (hall label hlabel)
    · rw [List.getLastD_eq_getLast?, Option.mem_def.mp hmem, Option.getD_some] at htld halpha
      exact ⟨htld, fun b hb => (letter_facts b).1.mp (List.all_eq_true.mp halpha b hb)⟩
  · rintro ⟨labels, hlen, hall, htld, rfl⟩
    have hne : labels ≠ [] := by
      rintro rfl
      simp at hlen
    -- no label has a dot, so splitting gives the labels back
    have hsplit : (['.'.toUInt8].intercalate labels).splitOn '.'.toUInt8 = labels :=
      List.splitOn_intercalate _ (fun label hlabel hdot =>
        (letter_facts _).2.2.1 ((hall label hlabel).chars _ hdot) rfl) hne
    have hlast := htld _ (List.getLast?_eq_some_getLast hne)
    rw [hsplit, List.getLastD_eq_getLast?, List.getLast?_eq_some_getLast hne, Option.getD_some]
    refine ⟨hlen, fun label hlabel => (domainLabelRe_iff_label label).mpr (hall label hlabel),
      hlast.1, List.all_eq_true.mpr fun b hb => (letter_facts b).1.mpr (hlast.2 b hb)⟩

/-- For every byte string, `splitAndValidate` succeeds with exactly the parts that the grammar
    gives it, and the grammar gives it one reading at most. -/
theorem splitAndValidate_grammar (s : Bytes) :
    (∀ l d, splitAndValidate s = some (l, d) ↔ Address s l d) ∧
    ∀ l d l' d', Address s l d → Address s l' d' → l = l' ∧ d = d' := by
  have hiff : ∀ l d, splitAndValidate s = some (l, d) ↔ Address s l d := by
    intro l d
    rw [splitAndValidate_eq_some_iff]
    constructor
    · rintro ⟨hsplit, hle, -, hlocal, hl, hd⟩
      refine ⟨hsplit, ⟨?_, hle⟩, hlocal, (localPartRe_iff_dotAtom l).mp hl,
        (validDomain_iff_domainName d).mp hd⟩
      rw [hsplit, List.length_append, List.length_cons]
      omega
    · intro h
      refine ⟨h.split, h.length.2, ?_, h.localLength, (localPartRe_iff_dotAtom l).mpr h.localPart,
        (validDomain_iff_domainName d).mpr h.domain⟩
      rintro rfl
      exact absurd ((localPartRe_iff_dotAtom []).mpr h.localPart) (by decide)
  -- the source cuts at one place, so the parts are unique
  refine ⟨hiff, fun l d l' d' h h' => ?_⟩
  have heq := ((hiff l d).mpr h).symm.trans ((hiff l' d').mpr h')
  exact Prod.mk.inj (Option.some.inj heq)

end Rcptto.Native
