import Mathlib.Data.List.DropRight
import Mathlib.Data.List.Infix
import Rcptto.ForStd.Ascii

/-!
# Prefix codes

A code in which no word begins another one, so that a text can be read from its front. UTF-8 is
such a code, and so is UTF-8 read backwards.

## Key results

- `PrefixCode.dropWords_encode`: words are dropped from an encoded text as the characters are
  from the text
- `PrefixCode.utf8`, `PrefixCode.utf8Reverse`: UTF-8 can be read from both ends
-/

/-- A code in which no word begins another one. -/
structure PrefixCode (α β : Type*) where
  word : α → List β
  word_ne_nil : ∀ a, word a ≠ []
  prefixFree : ∀ {a a' : α} {rest : List β}, word a <+: word a' ++ rest → a = a'

/-- Drops words from the front of a list, at most the given number. -/
def dropWords {β : Type*} [BEq β] (words : List (List β)) : Nat → List β → List β
  | 0, l => l
  | n + 1, l =>
    match words.find? (·.isPrefixOf l) with
    | none => l
    | some w => dropWords words n (l.drop w.length)

namespace PrefixCode

variable {α β : Type*} (C : PrefixCode α β)

/-- The text in this code. -/
def encode (as : List α) : List β := as.flatMap C.word

@[simp] theorem encode_cons (a : α) (as : List α) : C.encode (a :: as) = C.word a ++ C.encode as :=
  List.flatMap_cons

/-- No word is empty. -/
theorem length_le_length_encode (as : List α) : as.length ≤ (C.encode as).length := by
  induction as with
  | nil => simp
  | cons a as ih =>
    have hpos : 0 < (C.word a).length := List.length_pos_iff.mpr (C.word_ne_nil a)
    simp only [encode_cons, List.length_append, List.length_cons]
    omega

/-- Dropping the words of some characters from an encoded text drops these characters. -/
theorem dropWords_encode [BEq β] [LawfulBEq β] {chars : List α} {p : α → Bool}
    (hp : ∀ a, p a = true ↔ a ∈ chars) {n : Nat} (as : List α) (hn : as.length ≤ n) :
    dropWords (chars.map C.word) n (C.encode as) = C.encode (as.dropWhile p) := by
  induction as generalizing n with
  | nil =>
    cases n with
    | zero => rfl
    | succ n =>
      have hnone : (chars.map C.word).find? (·.isPrefixOf (C.encode [])) = none := by
        simp [encode, C.word_ne_nil]
      rw [dropWords, hnone]
      rfl
  | cons a as ih =>
    obtain ⟨n, rfl⟩ : ∃ m, n = m + 1 := ⟨n - 1, by simp at hn; omega⟩
    rw [encode_cons, dropWords]
    have hself : (C.word a).isPrefixOf (C.word a ++ C.encode as) = true := by simp
    cases hpa : p a with
    | true =>
      have hsome : ((chars.map C.word).find? (·.isPrefixOf (C.word a ++ C.encode as))).isSome :=
        List.find?_isSome.mpr ⟨C.word a, List.mem_map_of_mem ((hp a).mp hpa), hself⟩
      obtain ⟨w, hfind⟩ := Option.isSome_iff_exists.mp hsome
      -- the word at the front is that of the first character
      have hw : w = C.word a := by
        obtain ⟨a', -, rfl⟩ := List.mem_map.mp (List.mem_of_find?_eq_some hfind)
        have hfront : (C.word a').isPrefixOf (C.word a ++ C.encode as) = true :=
          (List.find?_eq_some_iff_append.mp hfind).1
        rw [C.prefixFree (List.isPrefixOf_iff_prefix.mp hfront)]
      rw [hfind, List.dropWhile_cons_of_pos hpa, hw]
      simp only [List.drop_left]
      exact ih (by simpa using hn)
    | false =>
      have hfind : (chars.map C.word).find? (·.isPrefixOf (C.word a ++ C.encode as)) = none := by
        rw [List.find?_eq_none]
        intro w hw hfront
        obtain ⟨a', ha', rfl⟩ := List.mem_map.mp hw
        rw [C.prefixFree (List.isPrefixOf_iff_prefix.mp hfront), ← hp, hpa] at ha'
        cases ha'
      rw [hfind, List.dropWhile_cons_of_neg (by simp [hpa]), encode_cons]

/-! ## UTF-8 -/

/-- UTF-8. -/
def utf8 : PrefixCode Char UInt8 where
  word := String.utf8EncodeChar
  word_ne_nil _ := String.utf8EncodeChar_ne_nil
  prefixFree := by
    rintro c c' rest ⟨rest', h⟩
    have hbytes := congrArg (fun l => l.toByteArray.utf8DecodeChar? 0) h
    simpa [List.toByteArray_append, ByteArray.utf8DecodeChar?_utf8EncodeChar_append] using hbytes

/-- Only the first byte of an encoding can begin one. -/
theorem eq_of_utf8EncodeChar_isSuffix {c c' : Char}
    (h : String.utf8EncodeChar c <:+ String.utf8EncodeChar c') : c = c' := by
  obtain ⟨front, hfront⟩ := h
  have hpos : 0 < (String.utf8EncodeChar c).length :=
    List.length_pos_iff.mpr String.utf8EncodeChar_ne_nil
  have hlt : front.length < (String.utf8EncodeChar c').length := by
    rw [← hfront, List.length_append]
    omega
  have hbyte : (String.utf8EncodeChar c')[front.length] = (String.utf8EncodeChar c)[0] := by
    simp [← hfront]
  -- only the first byte of an encoding can begin a character
  have hfirst : ((String.utf8EncodeChar c')[front.length]).IsUTF8FirstByte := by
    rw [hbyte]
    exact UInt8.isUTF8FirstByte_getElem_utf8EncodeChar.mpr rfl
  have hnil : front = [] :=
    List.length_eq_zero_iff.mp (UInt8.isUTF8FirstByte_getElem_utf8EncodeChar.mp hfirst)
  rw [hnil, List.nil_append] at hfront
  have hword : utf8.word c <+: utf8.word c' ++ [] := by simp [utf8, hfront]
  exact utf8.prefixFree hword

/-- UTF-8, read backwards. -/
def utf8Reverse : PrefixCode Char UInt8 where
  word c := (String.utf8EncodeChar c).reverse
  word_ne_nil _ := by simp
  prefixFree := by
    intro c c' rest h
    rcases List.prefix_or_prefix_of_prefix h (List.prefix_append _ rest) with h | h
    · exact eq_of_utf8EncodeChar_isSuffix (List.reverse_prefix.mp h)
    · exact (eq_of_utf8EncodeChar_isSuffix (List.reverse_prefix.mp h)).symm

/-- A text in UTF-8, read backwards. -/
theorem reverse_encode_utf8 (cs : List Char) :
    (utf8.encode cs).reverse = utf8Reverse.encode cs.reverse := by
  simp [encode, utf8, utf8Reverse, List.reverse_flatMap, Function.comp_def]

end PrefixCode
