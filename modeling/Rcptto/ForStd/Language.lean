import Mathlib.Computability.Language
import Mathlib.Order.CompletePartialOrder

/-!
# Regular languages of text

The languages that character classes, repetitions and separators make, with what it means for a
word to be in them.
-/

namespace Language

open scoped Computability

variable {α : Type*} {p : α → Prop} {w : List α}

/-- The words of one character of a class. -/
def ofClass (p : α → Prop) : Language α := {w | ∃ a, p a ∧ w = [a]}

/-- A word that begins with a character of the class. -/
theorem cons_mem_ofClass_mul {L : Language α} {a : α} :
    a :: w ∈ ofClass p * L ↔ p a ∧ w ∈ L := by
  rw [mem_mul]
  constructor
  · rintro ⟨_, ⟨b, hb, rfl⟩, v, hv, heq⟩
    obtain ⟨rfl, rfl⟩ := List.cons.inj heq
    exact ⟨hb, hv⟩
  · rintro ⟨ha, hw⟩
    exact ⟨[a], ⟨a, ha, rfl⟩, w, hw, rfl⟩

/-- The empty word does not begin with a character of the class. -/
theorem nil_notMem_ofClass_mul {L : Language α} : [] ∉ ofClass p * L := by
  rw [mem_mul]
  rintro ⟨_, ⟨b, -, rfl⟩, v, -, heq⟩
  cases heq

/-- A word that ends with a character of the class. -/
theorem append_singleton_mem_mul_ofClass {L : Language α} {a : α} :
    w ++ [a] ∈ L * ofClass p ↔ w ∈ L ∧ p a := by
  rw [mem_mul]
  constructor
  · rintro ⟨v, hv, _, ⟨b, hb, rfl⟩, heq⟩
    obtain ⟨rfl, hab⟩ := List.append_inj' heq rfl
    obtain rfl : b = a := by simpa using hab
    exact ⟨hv, hb⟩
  · rintro ⟨hw, ha⟩
    exact ⟨w, hw, [a], ⟨a, ha, rfl⟩, rfl⟩

/-- The words with a given number of characters of a class. -/
theorem mem_ofClass_pow {n : Nat} : w ∈ ofClass p ^ n ↔ w.length = n ∧ ∀ a ∈ w, p a := by
  -- by induction on the length, one character at the front
  induction n generalizing w with
  | zero =>
    rw [pow_zero, mem_one, List.length_eq_zero_iff]
    constructor
    · rintro rfl
      exact ⟨rfl, by simp⟩
    · exact fun h => h.1
  | succ n ih =>
    rw [pow_succ']
    cases w with
    | nil => exact iff_of_false nil_notMem_ofClass_mul (by simp)
    | cons a w => rw [cons_mem_ofClass_mul, ih]; simp [and_left_comm]

/-- The words with at most a given number of characters of a class. -/
theorem mem_iSup_ofClass_pow {k : Nat} :
    w ∈ ⨆ n ≤ k, ofClass p ^ n ↔ w.length ≤ k ∧ ∀ a ∈ w, p a := by
  simp only [mem_iSup, mem_ofClass_pow]
  constructor
  · rintro ⟨n, hn, rfl, hw⟩
    exact ⟨hn, hw⟩
  · exact fun h => ⟨w.length, h.1, rfl, h.2⟩

/-- The words with any number of characters of a class. -/
theorem mem_kstar_ofClass : w ∈ (ofClass p)∗ ↔ ∀ a ∈ w, p a := by
  rw [kstar_eq_iSup_pow, mem_iSup]
  constructor
  · rintro ⟨n, hn⟩
    exact (mem_ofClass_pow.mp hn).2
  · exact fun h => ⟨w.length, mem_ofClass_pow.mpr ⟨rfl, h⟩⟩

/-- The words with at least one character of a class. -/
theorem mem_ofClass_mul_kstar : w ∈ ofClass p * (ofClass p)∗ ↔ w ≠ [] ∧ ∀ a ∈ w, p a := by
  cases w with
  | nil => exact iff_of_false nil_notMem_ofClass_mul (by simp)
  | cons a w => rw [cons_mem_ofClass_mul, mem_kstar_ofClass]; simp

/-- The words after the first one have a separator each. -/
theorem intercalate_cons (sep : α) (v : List α) (rest : List (List α)) :
    [sep].intercalate (v :: rest) = v ++ (rest.map (sep :: ·)).flatten := by
  induction rest generalizing v with
  | nil => simp [List.intercalate]
  | cons u rest ih => rw [List.intercalate_cons_cons, ih]; simp

/-- Any number of words of a language, with a separator before each of them. -/
theorem exists_words_of_tails {L : Language α} {sep : α} {tails : List (List α)}
    (h : ∀ u ∈ tails, u ∈ ofClass (· = sep) * L) :
    ∃ rest : List (List α), (∀ u ∈ rest, u ∈ L) ∧ tails = rest.map (sep :: ·) := by
  induction tails with
  | nil => exact ⟨[], by simp, rfl⟩
  | cons u tails ih =>
    obtain ⟨rest, hrest, rfl⟩ := ih fun y hy => h y (List.mem_cons_of_mem _ hy)
    cases u with
    | nil => exact absurd (h [] List.mem_cons_self) nil_notMem_ofClass_mul
    | cons a u =>
      obtain ⟨rfl, hu⟩ := cons_mem_ofClass_mul.mp (h _ List.mem_cons_self)
      exact ⟨u :: rest, by simpa using ⟨hu, hrest⟩, rfl⟩

/-- One or more words of a language, with single separators between them. -/
theorem mem_separated {L : Language α} {sep : α} :
    w ∈ L * (ofClass (· = sep) * L)∗ ↔
      ∃ words : List (List α), words ≠ [] ∧ (∀ v ∈ words, v ∈ L) ∧
        w = [sep].intercalate words := by
  rw [mem_mul]
  constructor
  · -- every word of the star is a separator and a word
    rintro ⟨v, hv, _, hstar, rfl⟩
    obtain ⟨tails, rfl, htails⟩ := mem_kstar.mp hstar
    obtain ⟨rest, hrest, rfl⟩ := exists_words_of_tails htails
    exact ⟨v :: rest, by simp, by simpa using ⟨hv, hrest⟩, (intercalate_cons sep v rest).symm⟩
  · rintro ⟨words, hne, hwords, rfl⟩
    obtain ⟨v, rest, rfl⟩ := List.exists_cons_of_ne_nil hne
    refine ⟨v, hwords v List.mem_cons_self, (rest.map (sep :: ·)).flatten, ?_,
      (intercalate_cons sep v rest).symm⟩
    refine mem_kstar.mpr ⟨_, rfl, fun y hy => ?_⟩
    obtain ⟨u, hu, rfl⟩ := List.mem_map.mp hy
    exact cons_mem_ofClass_mul.mpr ⟨rfl, hwords u (List.mem_cons_of_mem _ hu)⟩

/-- If the separator is in no word, the words are the pieces of the split. -/
theorem mem_separated_iff_splitOn [DecidableEq α] {L : Language α} {sep : α}
    (hL : ∀ v ∈ L, sep ∉ v) :
    w ∈ L * (ofClass (· = sep) * L)∗ ↔ ∀ piece ∈ w.splitOn sep, piece ∈ L := by
  rw [mem_separated]
  constructor
  · rintro ⟨words, hne, hwords, rfl⟩
    rwa [List.splitOn_intercalate sep (fun v hv => hL v (hwords v hv)) hne]
  · exact fun h => ⟨w.splitOn sep, List.splitOn_ne_nil _ _, h, (List.intercalate_splitOn _).symm⟩

end Language
