import Rcptto.ForStd.Csv

/-!
# Writing delimiter-separated text

A writer that quotes a cell only where the reader would not get it back otherwise: if it has a
delimiter, a quotation mark or an end of line in it, or white space in front. Every record ends with
a newline. What it writes is one of the texts of the table, so that all that is known of reading
such a text holds for it.
-/

namespace Csv

/-- The cell has to be quoted. A cell of a backslash and a dot would end the data for some
    readers. -/
def fieldNeedsQuotes (comma : Char) (space : Char → Bool) (cell : List Char) : Bool :=
  if cell = [] then false
  else if cell = ['\\', '.'] then true
  else cell.any (fun c => c = '\n' || c = '\r' || c = '"' || c = comma) || cell.head?.any space

/-- A cell as it is written. -/
def writeField (comma : Char) (space : Char → Bool) (cell : List Char) : List Char :=
  if fieldNeedsQuotes comma space cell then '"' :: (doubled cell ++ ['"']) else cell

/-- A record as it is written, without the end of the line. -/
def writeRecord (comma : Char) (space : Char → Bool) : List (List Char) → List Char
  | [] => []
  | [cell] => writeField comma space cell
  | cell :: cell' :: cells =>
    writeField comma space cell ++ comma :: writeRecord comma space (cell' :: cells)

/-- A table as it is written. -/
def write (comma : Char) (space : Char → Bool) (table : List (List (List Char))) : List Char :=
  table.flatMap fun record => writeRecord comma space record ++ ['\n']

variable {comma : Char} {space : Char → Bool}

/-- A written cell is a field. -/
theorem field_writeField (cell : List Char) : Field comma cell (writeField comma space cell) := by
  unfold writeField
  split
  · exact .quoted cell
  · -- a cell that needs no quotes has none of the four characters
    next hplain =>
    refine .plain fun c hc => ?_
    have hne : cell ≠ [] := List.ne_nil_of_mem hc
    rw [fieldNeedsQuotes, if_neg hne] at hplain
    split at hplain
    · exact absurd rfl hplain
    · simp only [Bool.or_eq_true, List.any_eq_true, decide_eq_true_eq, not_or, not_exists,
        not_and] at hplain
      obtain ⟨⟨⟨hnewline, hreturn⟩, hquote⟩, hcomma⟩ := hplain.1 c hc
      exact ⟨hcomma, hquote, hreturn, hnewline⟩

/-- A written record is a line. -/
theorem line_writeRecord (record : List (List Char)) :
    Line comma record (writeRecord comma space record) := by
  induction record using writeRecord.induct with
  | case1 => exact .empty
  | case2 cell => exact .single (field_writeField cell)
  | case3 cell cell' cells ih => exact .cons (field_writeField cell) ih

/-- What is written is a text of the table. -/
theorem text_write (table : List (List (List Char))) :
    Text comma table (write comma space table) := by
  induction table with
  | nil => exact .nil
  | cons record table ih =>
    rw [write, List.flatMap_cons]
    exact .cons (line_writeRecord record) (.inl rfl) ih

end Csv
