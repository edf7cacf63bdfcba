import Mathlib.Data.Nat.Digits.Defs
import Rcptto.ForStd.List
import Rcptto.Native.Classify

/-!
# Numbers in text

The functions of Go's `strconv` and `strings` packages with which the server reads numbers and lists
from forms, cookies, file names and the environment. An `int` has 64 bits.
-/

namespace Rcptto.Native

/-- `strconv.FormatInt(n, 10)` and `strconv.Itoa`. -/
def formatInt (n : Int) : String := n.repr

/-- The range of an `int64`. -/
def int64 (n : Int) : Bool := -(2 ^ 63) ≤ n && n < 2 ^ 63

/-- The digits of a number, without a sign. -/
def parseUint (ds : List Char) : Option Nat :=
  if ds ≠ [] && ds.all (·.isDigit) then some (Nat.ofDigitChars 10 ds 0) else none

/-- `strconv.ParseInt(s, 10, 64)` and `strconv.Atoi`, if they succeed. -/
def parseInt (s : String) : Option Int :=
  let n : Option Int :=
    match s.toList with
    | '+' :: ds => (parseUint ds).map (↑)
    | '-' :: ds => (parseUint ds).map fun n => -↑n
    | ds => (parseUint ds).map (↑)
  n.filter int64

/-- `strings.Cut`, for a separator of one character. -/
def cut (sep : Char) (s : String) : Option (String × String) :=
  if sep ∈ s.toList then
    some (.ofList (s.toList.takeWhile (· ≠ sep)), .ofList ((s.toList.dropWhile (· ≠ sep)).drop 1))
  else none

/-! ## Round trips -/

/-- The digits of a number are read as the number. -/
theorem parseUint_toDigits (n : Nat) : parseUint (Nat.toDigits 10 n) = some n := by
  have hall : (Nat.toDigits 10 n).all (·.isDigit) = true :=
    List.all_eq_true.mpr fun c hc => Nat.isDigit_of_mem_toDigits (by decide) (by decide) hc
  have hne : Nat.toDigits 10 n ≠ [] := Nat.toDigits_ne_nil
  simp [parseUint, hall, hne, Nat.ofDigitChars_toDigits]

/-- The characters of a natural number are digits. -/
theorem isDigit_of_mem_toString {n : Nat} {c : Char} (h : c ∈ (toString n).toList) :
    c.isDigit = true := by
  have hc : c ∈ Nat.toDigits 10 n := by simpa [Nat.repr] using h
  exact Nat.isDigit_of_mem_toDigits (by decide) (by decide) hc

/-- The characters of a number are digits, apart from its sign. -/
theorem mem_toList_formatInt {n : Int} {c : Char} (h : c ∈ (formatInt n).toList) :
    c.isDigit = true ∨ c = '-' := by
  cases n with
  | ofNat n =>
    left
    have hc : c ∈ Nat.toDigits 10 n := by simpa [formatInt, Int.repr, Nat.repr] using h
    exact Nat.isDigit_of_mem_toDigits (by decide) (by decide) hc
  | negSucc n =>
    have hc : c = '-' ∨ c ∈ Nat.toDigits 10 (n + 1) := by
      simpa [formatInt, Int.repr, Nat.repr] using h
    exact hc.symm.imp_left fun hc => Nat.isDigit_of_mem_toDigits (by decide) (by decide) hc

/-- A text of digits is read as the number they are. -/
theorem parseInt_of_parseUint {s : String} {n : Nat} (h : parseUint s.toList = some n) :
    parseInt s = (some (n : Int)).filter int64 := by
  unfold parseInt
  -- a sign is not a digit
  split
  · next ds hs => simp [hs, parseUint] at h
  · next ds hs => simp [hs, parseUint] at h
  · simp [h]

/-- A number that is written out is read back. -/
theorem parseInt_formatInt {n : Int} (h : int64 n = true) : parseInt (formatInt n) = some n := by
  -- a negative number has a sign before its digits
  cases n with
  | ofNat n =>
    have hn : parseUint (formatInt (.ofNat n)).toList = some n := by
      simpa [formatInt, Int.repr, Nat.repr] using parseUint_toDigits n
    rw [parseInt_of_parseUint hn]
    exact Option.filter_some_pos h
  | negSucc n =>
    have hn : (formatInt (.negSucc n)).toList = '-' :: Nat.toDigits 10 (n + 1) := by
      simp [formatInt, Int.repr, Nat.repr]
    have hneg : -((n + 1 : Nat) : Int) = .negSucc n := rfl
    simp only [parseInt, hn, parseUint_toDigits, Option.map_some, hneg]
    exact Option.filter_some_pos h

/-! ## Pieces of text -/

/-- A text is cut at the first separator. -/
theorem cut_append {sep : Char} {s t : String} (h : sep ∉ s.toList) :
    cut sep (s ++ String.singleton sep ++ t) = some (s, t) := by
  have hs : ∀ c ∈ s.toList, decide (c ≠ sep) = true := by
    intro c hc
    exact decide_eq_true fun heq => h (heq ▸ hc)
  have hlist : (s ++ String.singleton sep ++ t).toList = s.toList ++ sep :: t.toList := by simp
  rw [cut, hlist, if_pos (by simp), List.takeWhile_append_of_pos hs,
    List.dropWhile_append_of_pos hs]
  simp

theorem trimSpace_trimSpace (s : String) : trimSpace (trimSpace s) = trimSpace s := by
  rw [trimSpace, trimSpace, String.toList_ofList, List.rdropWhile_dropWhile_idem]

theorem mem_toList_of_mem_trimSpace {s : String} {c : Char} (h : c ∈ (trimSpace s).toList) :
    c ∈ s.toList := by
  rw [trimSpace, String.toList_ofList] at h
  exact (List.dropWhile_sublist isSpace).subset (( List.rdropWhile_prefix isSpace _).subset h)

/-- A text is trimmed if there is no white space at its ends. -/
theorem trimSpace_eq_self_iff {s : String} : trimSpace s = s ↔
    (∀ c ∈ s.toList.head?, isSpace c = false) ∧ ∀ c ∈ s.toList.getLast?, isSpace c = false := by
  rw [← String.toList_inj, trimSpace, String.toList_ofList]
  exact List.rdropWhile_dropWhile_eq_self_iff

end Rcptto.Native
