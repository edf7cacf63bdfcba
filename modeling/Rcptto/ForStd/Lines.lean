import Mathlib.Data.List.Infix

/-!
# Lines in a byte stream

What the reader of a line-based protocol sees in a stream of bytes, and the texts in angle
brackets on one line.
-/

namespace Lines

/-- A carriage return or a line feed. -/
def isLineEnd (b : UInt8) : Bool := b = '\r'.toUInt8 || b = '\n'.toUInt8

/-- What ends a line. -/
def crlf : List UInt8 := ['\r'.toUInt8, '\n'.toUInt8]

/-- The lines of a stream that are not empty. A carriage return or a line feed ends a line, with
    the other or without it. -/
def linesOf (stream : List UInt8) : List (List UInt8) :=
  (stream.splitOnP isLineEnd).filter (· ≠ [])

/-- The texts in angle brackets. -/
def bracketed (line : List UInt8) : List (List UInt8) :=
  (line.splitOn '<'.toUInt8).tail.map fun piece => piece.takeWhile (· ≠ '>'.toUInt8)

/-- The text is one line. -/
def IsLine (text : List UInt8) : Prop := text ≠ [] ∧ ∀ b ∈ text, isLineEnd b = false

variable {text rest : List UInt8}

@[simp] theorem linesOf_nil : linesOf [] = [] := by simp [linesOf]

/-- A line is read as it was written. -/
theorem linesOf_append_crlf (h : IsLine text) :
    linesOf (text ++ crlf ++ rest) = text :: linesOf rest := by
  obtain ⟨hne, hclean⟩ := h
  have hcr : isLineEnd '\r'.toUInt8 = true := by decide
  have hlf : isLineEnd '\n'.toUInt8 = true := by decide
  unfold linesOf crlf
  rw [List.append_assoc, List.cons_append, List.splitOnP_append_cons_of_forall_mem hclean _ hcr,
    List.cons_append, List.nil_append, List.splitOnP_cons_eq_if_modifyHead, if_pos hlf]
  simp [hne]

/-- Lines written one after the other are read as they were written. -/
theorem linesOf_flatMap {α : Type*} {text : α → List UInt8} {as : List α}
    (h : ∀ a ∈ as, IsLine (text a)) :
    linesOf (as.flatMap fun a => text a ++ crlf) = as.map text := by
  induction as with
  | nil => simp
  | cons a as ih =>
    rw [List.flatMap_cons, linesOf_append_crlf (h a (by simp)), ih fun b hb => h b (by simp [hb]),
      List.map_cons]

/-- A line with one text in angle brackets at its end. -/
theorem bracketed_append {before : List UInt8} (hbefore : '<'.toUInt8 ∉ before)
    (htext : '<'.toUInt8 ∉ text ∧ '>'.toUInt8 ∉ text) :
    bracketed (before ++ '<'.toUInt8 :: (text ++ ['>'.toUInt8])) = [text] := by
  have hopen : '<'.toUInt8 ∉ text ++ ['>'.toUInt8] := by
    simp only [List.mem_append, List.mem_singleton, not_or]
    exact ⟨htext.1, by decide⟩
  -- the text ends at the first closing bracket, which is the one behind it
  have hclose : (text ++ ['>'.toUInt8]).takeWhile (· ≠ '>'.toUInt8) = text := by
    rw [List.takeWhile_append_of_pos]
    · simp
    · intro b hb
      have hne : b ≠ '>'.toUInt8 := fun heq => htext.2 (heq ▸ hb)
      simpa using hne
  have hsplit : ∀ b ∈ before, (b == '<'.toUInt8) = false := by
    intro b hb
    have hne : b ≠ '<'.toUInt8 := fun heq => hbefore (heq ▸ hb)
    simpa using hne
  unfold bracketed
  rw [List.splitOn_eq_splitOnP, List.splitOnP_append_cons_of_forall_mem hsplit _ (by simp),
    ← List.splitOn_eq_splitOnP, List.splitOn_eq_singleton hopen]
  simp only [List.tail_cons, List.map_cons, List.map_nil, hclose]

end Lines
