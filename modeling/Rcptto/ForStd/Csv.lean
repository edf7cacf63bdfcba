import Mathlib.Data.List.Chain
import Mathlib.Data.List.Forall2
import Rcptto.ForStd.List

/-!
# Delimiter-separated text

A reader of text in which a line is a record and a delimiter stands between its cells. A cell can be
quoted; then it may contain everything, with its quotation marks doubled. The reader skips empty
lines and the white space before a cell, and takes a carriage return before a newline as a part
of it.

`Text` relates a table to every text that it can be written as. The reader returns the table from
each of them, except for what it skips.

## Key results

- `Line.kept`: no carriage return inside a line is dropped
- `scan_field`, `scan_line`: what the reader makes of a cell and of a line
- `read_of_text`: the table that the reader returns
- `Text.respell`, `exists_read_eq_quote`: what it makes of text with another delimiter
-/

namespace Csv

/-! ## The reader -/

/-- What can be wrong: a quotation mark in a cell that is not quoted, or after one that is, which
    may also lack its end. -/
inductive Error where
  | bareQuote
  | quote
  deriving DecidableEq

/-- Where the reader is: before a line or a cell, in a plain or a quoted cell, or behind a
    quotation mark in a quoted one. -/
inductive Place where
  | line
  | field
  | plain
  | quoted
  | closing
  deriving DecidableEq

/-- The place, the cell read so far, and the cells before it in the record. -/
structure State where
  place : Place
  cell : List Char
  cells : List (List Char)
  deriving DecidableEq

namespace State

/-- Before a line. -/
def start : State := ⟨.line, [], []⟩

/-- The record if it ends here. -/
def record (s : State) : List (List Char) := s.cells ++ [s.cell]

/-- The state behind a delimiter. -/
def endCell (s : State) : State := ⟨.field, [], s.record⟩

/-- The first character of a cell, or white space before it. -/
def enter (comma : Char) (space : Char → Bool) (s : State) (c : Char) : State :=
  if space c then { s with place := .field }
  else if c = '"' then { s with place := .quoted }
  else if c = comma then s.endCell
  else { s with place := .plain, cell := [c] }

/-- The end of the text. -/
def finish (s : State) : List (List (List Char)) × Option Error :=
  match s.place with
  | .line => ([], none)
  | .quoted => ([], some .quote)
  | _ => ([s.record], none)

/-- One character: the next state, and the record that ends with it, if one does. -/
def step (comma : Char) (space : Char → Bool) (s : State) (c : Char) :
    Except Error (State × Option (List (List Char))) :=
  match s.place with
  | .line => if c = '\n' then .ok (s, none) else .ok (s.enter comma space c, none)
  | .field =>
    if c = '\n' then .ok (start, some s.record) else .ok (s.enter comma space c, none)
  | .plain =>
    if c = '\n' then .ok (start, some s.record)
    else if c = comma then .ok (s.endCell, none)
    else if c = '"' then .error .bareQuote
    else .ok ({ s with cell := s.cell ++ [c] }, none)
  | .quoted =>
    if c = '"' then .ok ({ s with place := .closing }, none)
    else .ok ({ s with cell := s.cell ++ [c] }, none)
  | .closing =>
    if c = '"' then .ok ({ s with place := .quoted, cell := s.cell ++ ['"'] }, none)
    else if c = comma then .ok (s.endCell, none)
    else if c = '\n' then .ok (start, some s.record)
    else .error .quote

end State

/-- The records of the rest of the text, up to an error. -/
def scan (comma : Char) (space : Char → Bool) (s : State) :
    List Char → List (List (List Char)) × Option Error
  | [] => s.finish
  | c :: text =>
    match s.step comma space c with
    | .error err => ([], some err)
    | .ok (s', ended) =>
      let rest := scan comma space s' text
      (ended.toList ++ rest.1, rest.2)

/-- The text without the carriage returns before a newline and at the end. -/
def dropCR : List Char → List Char
  | [] => []
  | ['\r'] => []
  | '\r' :: '\n' :: text => '\n' :: dropCR text
  | c :: text => c :: dropCR text

/-- The records of a text, up to an error. -/
def read (comma : Char) (space : Char → Bool) (text : List Char) :
    List (List (List Char)) × Option Error :=
  scan comma space .start (dropCR text)

/-! ## Tables as text -/

/-- A cell with its quotation marks doubled. -/
def doubled (cell : List Char) : List Char :=
  cell.flatMap fun c => if c = '"' then ['"', '"'] else [c]

/-- The ways to write a cell. -/
inductive Field (comma : Char) : List Char → List Char → Prop where
  | plain {cell : List Char} (h : ∀ c ∈ cell, c ≠ comma ∧ c ≠ '"' ∧ c ≠ '\r' ∧ c ≠ '\n') :
    Field comma cell cell
  | quoted (cell : List Char) : Field comma cell ('"' :: (doubled cell ++ ['"']))

/-- The ways to write a record; one without cells is an empty line. -/
inductive Line (comma : Char) : List (List Char) → List Char → Prop where
  | empty : Line comma [] []
  | single {cell w : List Char} (h : Field comma cell w) : Line comma [cell] w
  | cons {cell cell' w ws : List Char} {cells : List (List Char)} (h : Field comma cell w)
    (hrest : Line comma (cell' :: cells) ws) :
    Line comma (cell :: cell' :: cells) (w ++ comma :: ws)

/-- The ways to write a table. The last line need not have an end. -/
inductive Text (comma : Char) : List (List (List Char)) → List Char → Prop where
  | nil : Text comma [] []
  | last {record : List (List Char)} {line : List Char} (h : Line comma record line) :
    Text comma [record] line
  | cons {record : List (List Char)} {table : List (List (List Char))}
    {line ending text : List Char} (h : Line comma record line)
    (hending : ending = ['\n'] ∨ ending = ['\r', '\n']) (hrest : Text comma table text) :
    Text comma (record :: table) (line ++ ending ++ text)

/-- A table without quotation marks. -/
def plainText (comma : Char) (table : List (List (List Char))) : List Char :=
  table.flatMap fun record => plainLine record ++ ['\n']
where
  /-- A record without quotation marks. -/
  plainLine : List (List Char) → List Char
    | [] => []
    | [cell] => cell
    | cell :: cell' :: cells => cell ++ comma :: plainLine (cell' :: cells)

/-- A cell as it is read: the white space before it may be missing. -/
def Trims (space : Char → Bool) (read cell : List Char) : Prop :=
  read = cell ∨ read = cell.dropWhile space

/-- A table as it is read: records that may be written as an empty line may be missing. -/
inductive Delivers (space : Char → Bool) :
    List (List (List Char)) → List (List (List Char)) → Prop where
  | nil : Delivers space [] []
  | skip {record : List (List Char)} {read table : List (List (List Char))}
    (h : record = [] ∨ record = [[]]) (hrest : Delivers space read table) :
    Delivers space read (record :: table)
  | cons {cells record : List (List Char)} {read table : List (List (List Char))}
    (h : List.Forall₂ (Trims space) cells record) (hrest : Delivers space read table) :
    Delivers space (cells :: read) (record :: table)

/-- No carriage return in the cell is before a newline. -/
def Unbroken (cell : List Char) : Prop := cell.IsChain fun a b => ¬ (a = '\r' ∧ b = '\n')

/-! ## Writing -/

section Writing

variable {comma comma' : Char}

/-- A record without quotation marks is one of the lines of its cells. -/
theorem line_plainLine {record : List (List Char)}
    (h : ∀ cell ∈ record, ∀ c ∈ cell, c ≠ comma ∧ c ≠ '"' ∧ c ≠ '\r' ∧ c ≠ '\n') :
    Line comma record (plainText.plainLine comma record) := by
  induction record with
  | nil => exact .empty
  | cons cell cells ih =>
    have hcell : Field comma cell cell := .plain (h cell List.mem_cons_self)
    cases cells with
    | nil => exact .single hcell
    | cons cell' cells =>
      exact .cons hcell (ih fun cell'' hcell'' => h cell'' (List.mem_cons_of_mem cell hcell''))

/-- A table without quotation marks is one of its texts. -/
theorem text_plainText {table : List (List (List Char))}
    (h : ∀ record ∈ table, ∀ cell ∈ record, ∀ c ∈ cell,
      c ≠ comma ∧ c ≠ '"' ∧ c ≠ '\r' ∧ c ≠ '\n') : Text comma table (plainText comma table) := by
  induction table with
  | nil => exact .nil
  | cons record table ih =>
    rw [plainText, List.flatMap_cons]
    exact .cons (line_plainLine (h record List.mem_cons_self)) (.inl rfl)
      (ih fun record' hrecord' => h record' (List.mem_cons_of_mem record hrecord'))

/-- The pieces between the delimiters of a line, put together again. -/
theorem plainLine_splitOn (comma : Char) (w : List Char) :
    plainText.plainLine comma (w.splitOn comma) = w := by
  induction w with
  | nil => rfl
  | cons c w ih =>
    rw [List.splitOn_cons_eq_if_modifyHead]
    obtain ⟨head, tail, hsplit⟩ := List.exists_cons_of_ne_nil (List.splitOn_ne_nil comma w)
    rw [hsplit] at ih ⊢
    -- a delimiter begins a new cell, and any other character joins the first one
    split
    · next hc => rw [plainText.plainLine, ih, List.nil_append, eq_of_beq hc]
    · rw [List.modifyHead_cons]
      cases tail with
      | nil => rw [plainText.plainLine] at ih ⊢; rw [ih]
      | cons cell cells => rw [plainText.plainLine] at ih ⊢; rw [List.cons_append, ih]

/-- A line without quotation marks is a record of the pieces between the delimiters. -/
theorem line_splitOn {w : List Char} (h : ∀ c ∈ w, c ≠ '"' ∧ c ≠ '\r' ∧ c ≠ '\n') :
    Line comma (w.splitOn comma) w := by
  have hline : Line comma (w.splitOn comma) (plainText.plainLine comma (w.splitOn comma)) := by
    refine line_plainLine fun piece hpiece c hc => ⟨?_, h c (List.mem_of_mem_splitOn hpiece hc)⟩
    rintro rfl
    exact List.notMem_of_mem_splitOn hpiece hc
  rwa [plainLine_splitOn] at hline

/-- A record of at most one cell that is read with another delimiter: it stays as it is if the cell
    is quoted, and falls into pieces if it is not. -/
inductive Respelled (comma comma' : Char) : List (List Char) → List (List Char) → Prop where
  | empty : Respelled comma comma' [] []
  | whole (cell : List Char) : Respelled comma comma' [cell] [cell]
  | pieces {cell : List Char} (h : ∀ c ∈ cell, c ≠ comma ∧ c ≠ '"' ∧ c ≠ '\r' ∧ c ≠ '\n') :
    Respelled comma comma' [cell] (cell.splitOn comma')

/-- A line of a record of at most one cell, with another delimiter. -/
theorem Line.respell {record : List (List Char)} {w : List Char} (h : Line comma record w)
    (hlength : record.length ≤ 1) :
    ∃ record', Respelled comma comma' record record' ∧ Line comma' record' w := by
  cases h with
  | empty => exact ⟨[], .empty, .empty⟩
  | single hfield =>
    cases hfield with
    | plain hplain => exact ⟨_, .pieces hplain, line_splitOn fun c hc => (hplain c hc).2⟩
    | quoted => exact ⟨_, .whole _, .single (.quoted _)⟩
  | cons => simp at hlength

/-- There is a line for each way to read a record of at most one cell with another delimiter. -/
theorem Respelled.exists_line {record record' : List (List Char)}
    (h : Respelled comma comma' record record') :
    ∃ w, Line comma record w ∧ Line comma' record' w := by
  cases h with
  | empty => exact ⟨[], .empty, .empty⟩
  | whole cell => exact ⟨_, .single (.quoted cell), .single (.quoted cell)⟩
  | pieces hplain =>
    exact ⟨_, .single (.plain hplain), line_splitOn fun c hc => (hplain c hc).2⟩

/-- A text of a table with at most one cell in each record, with another delimiter. -/
theorem Text.respell {table : List (List (List Char))} {text : List Char}
    (h : Text comma table text) (htable : ∀ record ∈ table, record.length ≤ 1) :
    ∃ table', List.Forall₂ (Respelled comma comma') table table' ∧ Text comma' table' text := by
  induction h with
  | nil => exact ⟨[], .nil, .nil⟩
  | last hline =>
    obtain ⟨record', hrecord, hline'⟩ := hline.respell (htable _ List.mem_cons_self)
    exact ⟨[record'], .cons hrecord .nil, .last hline'⟩
  | cons hline hending _ ih =>
    obtain ⟨record', hrecord, hline'⟩ := hline.respell (htable _ List.mem_cons_self)
    obtain ⟨table', hrest, htext⟩ := ih fun record h => htable record (List.mem_cons_of_mem _ h)
    exact ⟨record' :: table', .cons hrecord hrest, .cons hline' hending htext⟩

/-- There is a text for each way to read such a table with another delimiter. -/
theorem exists_text_of_respelled {table table' : List (List (List Char))}
    (h : List.Forall₂ (Respelled comma comma') table table') :
    ∃ text, Text comma table text ∧ Text comma' table' text := by
  induction h with
  | nil => exact ⟨[], .nil, .nil⟩
  | cons hrecord _ ih =>
    obtain ⟨w, hline, hline'⟩ := hrecord.exists_line
    obtain ⟨text, htext, htext'⟩ := ih
    exact ⟨_, .cons hline (.inl rfl) htext, .cons hline' (.inl rfl) htext'⟩

/-- Every record has a line. -/
theorem exists_line (comma : Char) (record : List (List Char)) : ∃ w, Line comma record w := by
  induction record with
  | nil => exact ⟨[], .empty⟩
  | cons cell cells ih =>
    obtain ⟨w, hw⟩ := ih
    cases cells with
    | nil => exact ⟨_, .single (.quoted cell)⟩
    | cons cell' cells => exact ⟨_, .cons (.quoted cell) hw⟩

/-- Every table has a text. -/
theorem exists_text (comma : Char) (table : List (List (List Char))) :
    ∃ text, Text comma table text := by
  induction table with
  | nil => exact ⟨[], .nil⟩
  | cons record table ih =>
    obtain ⟨w, hw⟩ := exists_line comma record
    obtain ⟨text, htext⟩ := ih
    exact ⟨_, .cons hw (.inl rfl) htext⟩

end Writing

/-! ## Carriage returns -/

/-- No carriage return in front of a text is dropped, whatever the text is. -/
def Kept (w : List Char) : Prop := ∀ text, dropCR (w ++ text) = w ++ dropCR text

/-- A character stays, unless it is a carriage return before a newline or at the end. -/
theorem dropCR_cons {c : Char} {text : List Char} (h : c = '\r' → text ≠ [])
    (hnewline : c = '\r' → text.head? ≠ some '\n') : dropCR (c :: text) = c :: dropCR text := by
  rw [dropCR.eq_4]
  · rintro rfl rfl
    exact h rfl rfl
  · rintro text' rfl rfl
    exact hnewline rfl rfl

/-- A newline is not dropped. -/
theorem dropCR_newline (text : List Char) : dropCR ('\n' :: text) = '\n' :: dropCR text :=
  dropCR_cons (fun h => absurd h (by decide)) fun h => absurd h (by decide)

theorem Kept.nil : Kept [] := fun _ => rfl

/-- A character in front of text that is kept. -/
theorem Kept.cons {c : Char} {w : List Char} (h : c = '\r' → w ≠ [] ∧ w.head? ≠ some '\n')
    (hw : Kept w) : Kept (c :: w) := by
  intro text
  rw [List.cons_append, dropCR_cons, hw, List.cons_append]
  · exact fun hc => List.append_ne_nil_of_left_ne_nil (h hc).1 text
  · intro hc
    rw [List.head?_append_of_ne_nil _ (h hc).1]
    exact (h hc).2

theorem Kept.append {w w' : List Char} (hw : Kept w) (hw' : Kept w') : Kept (w ++ w') := by
  intro text
  rw [List.append_assoc, hw, hw', List.append_assoc]

/-- Text without carriage returns is kept. -/
theorem Kept.of_forall {w : List Char} (h : ∀ c ∈ w, c ≠ '\r') : Kept w := by
  induction w with
  | nil => exact Kept.nil
  | cons c w ih =>
    refine Kept.cons (fun hc => absurd hc (h c List.mem_cons_self)) (ih fun c' hc' => ?_)
    exact h c' (List.mem_cons_of_mem c hc')

theorem doubled_cons (c : Char) (cell : List Char) :
    doubled (c :: cell) = (if c = '"' then ['"', '"'] else [c]) ++ doubled cell := by
  rw [doubled, List.flatMap_cons, doubled]

/-- The carriage returns in a quoted cell stay. -/
theorem Kept.doubled {cell : List Char} (h : Unbroken cell) : Kept (doubled cell ++ ['"']) := by
  -- by induction on the cell: the closing quotation mark is behind a carriage return at its end
  induction cell with
  | nil => exact Kept.of_forall (by simp [Csv.doubled])
  | cons c cell ih =>
    have htail := ih h.tail
    rw [doubled_cons, List.append_assoc]
    split
    · exact (Kept.of_forall (by simp)).append htail
    · refine Kept.cons (fun hc => ⟨?_, ?_⟩) htail
      · simp
      · cases cell with
        | nil => decide
        | cons c' cell =>
          have hc' : c' ≠ '\n' := fun hc' => (List.isChain_cons_cons.mp h).1 ⟨hc, hc'⟩
          rw [doubled_cons]
          split
          · simp
          · simpa using hc'

/-- A cell without carriage returns is not changed. -/
theorem Unbroken.of_notMem {cell : List Char} (h : '\r' ∉ cell) : Unbroken cell := by
  refine List.Pairwise.isChain (List.pairwise_of_forall_mem_list ?_)
  intro a ha b _ hbreak
  exact h (hbreak.1 ▸ ha)

/-- Reading with another delimiter brings no carriage return before a newline. -/
theorem Respelled.unbroken {comma comma' : Char} {record record' : List (List Char)}
    (h : Respelled comma comma' record record') (hcells : ∀ cell ∈ record, Unbroken cell) :
    ∀ cell ∈ record', Unbroken cell := by
  cases h with
  | empty => exact hcells
  | whole => exact hcells
  | pieces hplain =>
    intro piece hpiece
    exact .of_notMem fun hcr => (hplain _ (List.mem_of_mem_splitOn hpiece hcr)).2.2.1 rfl

/-- Reading a table with another delimiter brings no carriage return before a newline. -/
theorem unbroken_of_respelled {comma comma' : Char} {table table' : List (List (List Char))}
    (h : List.Forall₂ (Respelled comma comma') table table')
    (hcells : ∀ record ∈ table, ∀ cell ∈ record, Unbroken cell) :
    ∀ record ∈ table', ∀ cell ∈ record, Unbroken cell := by
  induction h with
  | nil => exact hcells
  | cons hrecord _ ih =>
    rw [List.forall_mem_cons] at hcells ⊢
    exact ⟨hrecord.unbroken hcells.1, ih hcells.2⟩

theorem Field.kept {comma : Char} {cell w : List Char} (h : Field comma cell w)
    (hcell : Unbroken cell) : Kept w := by
  cases h with
  | plain hplain => exact Kept.of_forall fun c hc => (hplain c hc).2.2.1
  | quoted => exact Kept.cons (fun hc => absurd hc (by decide)) (Kept.doubled hcell)

/-- A line is kept if its cells are not broken. -/
theorem Line.kept {comma : Char} (hcomma : comma ≠ '\r') {record : List (List Char)}
    {w : List Char} (h : Line comma record w) (hcells : ∀ cell ∈ record, Unbroken cell) :
    Kept w := by
  induction h with
  | empty => exact Kept.nil
  | single hfield => exact hfield.kept (hcells _ List.mem_cons_self)
  | cons hfield hrest ih =>
    refine (hfield.kept (hcells _ List.mem_cons_self)).append ?_
    exact Kept.cons (fun hc => absurd hc hcomma)
      (ih fun cell hcell => hcells cell (List.mem_cons_of_mem _ hcell))

/-! ## Cells and lines -/

section Scan

variable {comma : Char} {space : Char → Bool}

theorem scan_cons {s s' : State} {c : Char} (h : s.step comma space c = .ok (s', none))
    (text : List Char) : scan comma space s (c :: text) = scan comma space s' text := by
  rw [scan, h]
  rfl

/-- A character that ends a record. -/
theorem scan_cons_record {s s' : State} {c : Char} {record : List (List Char)}
    (h : s.step comma space c = .ok (s', some record)) (text : List Char) :
    scan comma space s (c :: text) =
      (record :: (scan comma space s' text).1, (scan comma space s' text).2) := by
  rw [scan, h]
  rfl

/-- A plain field collects its characters. -/
theorem scan_plain {cell w : List Char} {cells : List (List Char)} (text : List Char)
    (h : ∀ c ∈ w, c ≠ comma ∧ c ≠ '"' ∧ c ≠ '\n') :
    scan comma space ⟨.plain, cell, cells⟩ (w ++ text) =
      scan comma space ⟨.plain, cell ++ w, cells⟩ text := by
  induction w generalizing cell with
  | nil => rw [List.nil_append, List.append_nil]
  | cons c w ih =>
    obtain ⟨hcomma, hquote, hnewline⟩ := h c List.mem_cons_self
    have hstep : State.step comma space ⟨.plain, cell, cells⟩ c =
        .ok (⟨.plain, cell ++ [c], cells⟩, none) := by
      simp [State.step, hcomma, hquote, hnewline]
    rw [List.cons_append, scan_cons hstep, ih fun c' hc' => h c' (List.mem_cons_of_mem c hc'),
      List.append_assoc, List.singleton_append]

/-- A quoted field collects its characters up to the quotation mark that closes it. -/
theorem scan_doubled (cell w : List Char) (cells : List (List Char)) (text : List Char) :
    scan comma space ⟨.quoted, cell, cells⟩ (doubled w ++ '"' :: text) =
      scan comma space ⟨.closing, cell ++ w, cells⟩ text := by
  induction w generalizing cell with
  | nil =>
    rw [doubled, List.flatMap_nil, List.nil_append, List.append_nil]
    exact scan_cons rfl text
  | cons c w ih =>
    rw [doubled_cons, List.append_assoc, List.append_cons cell]
    -- a doubled quotation mark is read as one, in two steps
    by_cases hc : c = '"'
    · rw [if_pos hc, hc, ← ih]
      exact (scan_cons rfl _).trans (scan_cons rfl _)
    · rw [if_neg hc, ← ih]
      exact scan_cons (by simp [State.step, hc]) _

/-- A quoted cell up to its last quotation mark. -/
theorem scan_quoted (hspace : space '"' = false) (cell : List Char) (cells : List (List Char))
    (text : List Char) :
    scan comma space ⟨.field, [], cells⟩ ('"' :: (doubled cell ++ ['"']) ++ text) =
      scan comma space ⟨.closing, cell, cells⟩ text := by
  have hstep : State.step comma space ⟨.field, [], cells⟩ '"' =
      .ok (⟨.quoted, [], cells⟩, none) := by
    simp [State.step, State.enter, hspace]
  rw [List.cons_append, scan_cons hstep, List.append_assoc, List.singleton_append, scan_doubled]
  rfl

/-- What comes behind a cell: the end of the text or of the line, or a delimiter. -/
def follow (comma : Char) (space : Char → Bool) (cells : List (List Char)) :
    List Char → List (List (List Char)) × Option Error
  | [] => ([cells], none)
  | c :: text =>
    if c = '\n' then
      (cells :: (scan comma space .start text).1, (scan comma space .start text).2)
    else scan comma space ⟨.field, [], cells⟩ text

/-- Nothing that could belong to a cell comes next. -/
def Ends (comma : Char) (text : List Char) : Prop :=
  ∀ c ∈ text.head?, c = '\n' ∨ c = comma

/-- A character that can be told from everything else in a text. -/
structure Delimits (comma : Char) (space : Char → Bool) : Prop where
  quote : comma ≠ '"'
  cr : comma ≠ '\r'
  newline : comma ≠ '\n'
  notSpace : space comma = false
  quoteNotSpace : space '"' = false

/-- A cell ends before a delimiter or the end of the line or of the text. -/
theorem scan_ends (hd : Delimits comma space) {s : State}
    (hs : s.place = .field ∨ s.place = .plain ∨ s.place = .closing) {text : List Char}
    (h : Ends comma text) : scan comma space s text = follow comma space s.record text := by
  cases text with
  | nil => rcases hs with hs | hs | hs <;> simp [scan, State.finish, follow, hs]
  | cons c text =>
    -- the end of the line hands the record over, and a delimiter only ends the cell
    rcases h c rfl with rfl | rfl
    · have hstep : s.step comma space '\n' = .ok (.start, some s.record) := by
        rcases hs with hs | hs | hs <;> simp [State.step, hs, hd.newline.symm]
      rw [scan_cons_record hstep, follow, if_pos rfl]
    · have hstep : s.step c space c = .ok (s.endCell, none) := by
        rcases hs with hs | hs | hs <;>
          simp [State.step, State.enter, hs, hd.newline, hd.quote, hd.notSpace]
      rw [scan_cons hstep, follow, if_neg hd.newline]
      rfl

/-- A plain field is read without the white space in front of it. -/
theorem scan_field_plain (hd : Delimits comma space) {w : List Char}
    (h : ∀ c ∈ w, c ≠ comma ∧ c ≠ '"' ∧ c ≠ '\n') (cells : List (List Char)) {text : List Char}
    (hends : Ends comma text) :
    scan comma space ⟨.field, [], cells⟩ (w ++ text) =
      follow comma space (cells ++ [w.dropWhile space]) text := by
  induction w with
  | nil => exact scan_ends hd (.inl rfl) hends
  | cons c w ih =>
    obtain ⟨hcomma, hquote, hnewline⟩ := h c List.mem_cons_self
    have hrest : ∀ c' ∈ w, c' ≠ comma ∧ c' ≠ '"' ∧ c' ≠ '\n' := fun c' hc' =>
      h c' (List.mem_cons_of_mem c hc')
    rw [List.cons_append]
    -- white space is skipped until the field begins with its first other character
    by_cases hspace : space c = true
    · have hstep : State.step comma space ⟨.field, [], cells⟩ c =
          .ok (⟨.field, [], cells⟩, none) := by
        simp [State.step, State.enter, hnewline, hspace]
      rw [scan_cons hstep, ih hrest, List.dropWhile_cons_of_pos hspace]
    · have hstep : State.step comma space ⟨.field, [], cells⟩ c =
          .ok (⟨.plain, [c], cells⟩, none) := by
        simp [State.step, State.enter, hnewline, hspace, hquote, hcomma]
      rw [scan_cons hstep, scan_plain text hrest, scan_ends hd (.inr (.inl rfl)) hends,
        List.dropWhile_cons_of_neg hspace]
      rfl

/-- A cell is read as it was written, up to the white space before it. -/
theorem scan_field (hd : Delimits comma space) {cell w : List Char} (h : Field comma cell w)
    (cells : List (List Char)) {text : List Char} (hends : Ends comma text) :
    ∃ read, Trims space read cell ∧ scan comma space ⟨.field, [], cells⟩ (w ++ text) =
      follow comma space (cells ++ [read]) text := by
  cases h with
  | plain hplain =>
    refine ⟨_, .inr rfl, scan_field_plain hd (fun c hc => ?_) cells hends⟩
    obtain ⟨hcomma, hquote, -, hnewline⟩ := hplain c hc
    exact ⟨hcomma, hquote, hnewline⟩
  | quoted =>
    refine ⟨cell, .inl rfl, ?_⟩
    rw [scan_quoted hd.quoteNotSpace, scan_ends hd (.inr (.inr rfl)) hends]
    rfl

/-- The line is over. -/
def EndsLine (text : List Char) : Prop := ∀ c ∈ text.head?, c = '\n'

theorem endsLine_nil : EndsLine [] := by
  rintro c ⟨⟩

theorem endsLine_newline (text : List Char) : EndsLine ('\n' :: text) := by
  rintro c ⟨⟩
  rfl

/-- A record is read as it was written, up to the white space before its cells. -/
theorem scan_line (hd : Delimits comma space) {record : List (List Char)} {w : List Char}
    (h : Line comma record w) (hne : record ≠ []) (cells : List (List Char)) {text : List Char}
    (hends : EndsLine text) :
    ∃ read, List.Forall₂ (Trims space) read record ∧
      scan comma space ⟨.field, [], cells⟩ (w ++ text) =
        follow comma space (cells ++ read) text := by
  -- by induction on the line: a delimiter follows each field but the last one
  induction h generalizing cells with
  | empty => exact absurd rfl hne
  | single hfield =>
    obtain ⟨read, htrims, hscan⟩ := scan_field hd hfield cells fun c hc => .inl (hends c hc)
    exact ⟨[read], .cons htrims .nil, hscan⟩
  | @cons cell cell' w ws rest hfield hrest ih =>
    have hdelimiter : Ends comma (comma :: (ws ++ text)) := by
      rintro c ⟨⟩
      exact .inr rfl
    obtain ⟨read, htrims, hscan⟩ := scan_field hd hfield cells hdelimiter
    obtain ⟨reads, htrims', hscan'⟩ := ih (List.cons_ne_nil _ _) (cells ++ [read])
    refine ⟨read :: reads, .cons htrims htrims', ?_⟩
    rw [List.append_assoc, List.cons_append, hscan, follow, if_neg hd.newline, hscan',
      List.append_assoc, List.singleton_append]

theorem Field.head_ne {cell : List Char} {c : Char} {w : List Char}
    (h : Field comma cell (c :: w)) : c ≠ '\n' := by
  cases h with
  | plain hplain => exact (hplain c List.mem_cons_self).2.2.2
  | quoted => decide

/-- The line of a record does not begin with a newline. -/
theorem Line.head_ne (hnewline : comma ≠ '\n') {record : List (List Char)} {c : Char}
    {w : List Char} (h : Line comma record (c :: w)) : c ≠ '\n' := by
  generalize hline : c :: w = line at h
  cases h with
  | empty => cases hline
  | single hfield =>
    subst hline
    exact hfield.head_ne
  | @cons _ _ w' _ _ hfield _ =>
    -- an empty first field leaves the delimiter in front
    cases w' with
    | nil =>
      cases hline
      exact hnewline
    | cons c' w' =>
      cases hline
      exact hfield.head_ne

/-- Only a record without a cell that is not empty is written as an empty line. -/
theorem Line.eq_nil {record : List (List Char)} (h : Line comma record []) :
    record = [] ∨ record = [[]] := by
  generalize hline : [] = line at h
  cases h with
  | empty => exact .inl rfl
  | single hfield =>
    cases hfield with
    | plain => exact .inr (by rw [← hline])
    | quoted => cases hline
  | cons => simp at hline

/-- A line that is not empty begins with a cell. -/
theorem scan_start {c : Char} (hc : c ≠ '\n') (text : List Char) :
    scan comma space .start (c :: text) = scan comma space ⟨.field, [], []⟩ (c :: text) := by
  have hstep : State.step comma space .start c = State.step comma space ⟨.field, [], []⟩ c := by
    simp [State.step, State.start, State.enter, hc, State.endCell, State.record]
  rw [scan, scan, hstep]

/-- A line is read as its record, or skipped if it is empty. -/
theorem scan_record (hd : Delimits comma space) {record : List (List Char)} {w : List Char}
    (h : Line comma record w) {text : List Char} (hends : EndsLine text) :
    (w = [] ∧ (record = [] ∨ record = [[]])) ∨
      ∃ read, List.Forall₂ (Trims space) read record ∧
        scan comma space .start (w ++ text) = follow comma space read text := by
  cases w with
  | nil => exact .inl ⟨rfl, h.eq_nil⟩
  | cons c w =>
    right
    have hne : record ≠ [] := by
      rintro rfl
      cases h
    rw [List.cons_append, scan_start (h.head_ne hd.newline), ← List.cons_append]
    exact scan_line hd h hne [] hends

/-! ## Texts -/

/-- The reader returns a table from every text that it can be written as. -/
theorem read_of_text (hd : Delimits comma space) {table : List (List (List Char))}
    {text : List Char} (h : Text comma table text)
    (hcells : ∀ record ∈ table, ∀ cell ∈ record, Unbroken cell) :
    ∃ records, read comma space text = (records, none) ∧ Delivers space records table := by
  unfold read
  induction h with
  | nil => exact ⟨[], rfl, .nil⟩
  | @last record line hline =>
    rw [← List.append_nil line, hline.kept hd.cr (hcells record List.mem_cons_self), dropCR]
    rcases scan_record hd hline endsLine_nil with ⟨hw, hskip⟩ | ⟨read, htrims, hscan⟩
    · rw [hw]
      exact ⟨[], rfl, .skip hskip .nil⟩
    · rw [hscan]
      exact ⟨[read], rfl, .cons htrims .nil⟩
  | @cons record table line ending text hline hending hrest ih =>
    obtain ⟨records, hread, hdelivers⟩ := ih fun record' hrecord' =>
      hcells record' (List.mem_cons_of_mem record hrecord')
    have hdrop : dropCR (line ++ ending ++ text) = line ++ '\n' :: dropCR text := by
      rw [List.append_assoc, hline.kept hd.cr (hcells record List.mem_cons_self)]
      rcases hending with rfl | rfl
      · rw [List.singleton_append, dropCR_newline]
      · rfl
    rw [hdrop]
    -- an empty line leaves no record, and the rest is read from the start in both cases
    rcases scan_record hd hline (endsLine_newline _) with ⟨hw, hskip⟩ | ⟨read, htrims, hscan⟩
    · rw [hw, List.nil_append, scan_cons rfl, hread]
      exact ⟨records, rfl, .skip hskip hdelivers⟩
    · rw [hscan, follow, if_pos rfl, hread]
      exact ⟨read :: records, rfl, .cons htrims hdelivers⟩

/-- A table with two cells in some record has a text that cannot be read with another delimiter:
    behind a quoted cell comes a delimiter that is none. -/
theorem exists_read_eq_quote (hd : Delimits comma space) {comma' : Char}
    (hother : comma' ≠ comma ∧ comma' ≠ '"' ∧ comma' ≠ '\r' ∧ comma' ≠ '\n')
    {table : List (List (List Char))} (hcells : ∀ record ∈ table, ∀ cell ∈ record, Unbroken cell)
    (htable : ∃ record ∈ table, 1 < record.length) :
    ∃ text records, Text comma' table text ∧ read comma space text = (records, some .quote) ∧
      records.length < table.length := by
  obtain ⟨hcomma, hquote, hcr, hnewline⟩ := hother
  have hquoted : ∀ cell, Unbroken cell → Kept ('"' :: (doubled cell ++ ['"'])) := fun cell hcell =>
    Field.kept (.quoted cell : Field comma cell _) hcell
  unfold read
  induction table with
  | nil => simp at htable
  | cons record table ih =>
    have hrest : ∀ record' ∈ table, ∀ cell ∈ record', Unbroken cell := fun record' hrecord' =>
      hcells record' (List.mem_cons_of_mem record hrecord')
    -- the record is read and the error comes later, or the error comes now
    match record with
    | [] =>
      obtain ⟨text, records, htext, hread, hlength⟩ := ih hrest (by simpa using htable)
      refine ⟨_, records, .cons .empty (.inl rfl) htext, ?_, Nat.lt_succ_of_lt hlength⟩
      rw [List.nil_append, List.singleton_append, dropCR_newline, scan_cons rfl, hread]
    | [cell] =>
      obtain ⟨text, records, htext, hread, hlength⟩ := ih hrest (by simpa using htable)
      have hkept := hquoted cell (hcells _ List.mem_cons_self cell List.mem_cons_self)
      have hends : State.step comma space ⟨.closing, cell, []⟩ '\n' =
          .ok (.start, some [cell]) := by
        simp [State.step, State.record, hd.newline.symm]
      refine ⟨_, [cell] :: records, .cons (.single (.quoted cell)) (.inl rfl) htext, ?_,
        Nat.succ_lt_succ hlength⟩
      rw [List.append_assoc, hkept, List.singleton_append, dropCR_newline, List.cons_append,
        scan_start (by decide), ← List.cons_append, scan_quoted hd.quoteNotSpace,
        scan_cons_record hends, hread]
    | cell :: cell' :: cells =>
      obtain ⟨line, hline⟩ := exists_line comma' (cell' :: cells)
      obtain ⟨text, htext⟩ := exists_text comma' table
      have hkept := hquoted cell (hcells _ List.mem_cons_self cell List.mem_cons_self)
      refine ⟨_, [], .cons (.cons (.quoted cell) hline) (.inl rfl) htext, ?_, Nat.succ_pos _⟩
      have hdrop : ∀ rest, dropCR (comma' :: rest) = comma' :: dropCR rest := fun rest =>
        dropCR_cons (fun h => absurd h hcr) fun h => absurd h hcr
      rw [List.append_assoc, List.append_assoc, hkept]
      simp only [List.cons_append, hdrop]
      rw [scan_start (by decide), ← List.cons_append, scan_quoted hd.quoteNotSpace, scan]
      simp [State.step, hquote, hcomma, hnewline]

end Scan

end Csv
