import Rcptto.Native.Strconv
import Rcptto.Spec.Formats

/-!
# Text with tabs

`Parse` reads text with tabs as if commas were the delimiters. A table with two cells in a record
can then be written so that the reader refuses it, because a tab comes behind a quoted cell. A table
of one column is read as it is, unless a cell with a comma is written without quotation marks: such
a cell falls into pieces.

`Harmless` says when the pieces do no harm, so that `TabSafe` describes the tables whose rows do not
depend on the format, however they are written.

## Key results

- `Ingest.forall_tabs_iff`: what the texts with tabs of a table of one column are read as
- `Ingest.harmless_iff`: when all of these have the rows of the table
- `Ingest.formats_agree`: the rows of a table in the three formats
-/

namespace Rcptto.Native

namespace Ingest

/-! ## Cells with commas -/

/-- The cell can stand between tabs without quotation marks. -/
def bare (cell : String) : Bool :=
  cell.toList.all fun c => c ≠ '\t' && c ≠ '"' && c ≠ '\r' && c ≠ '\n'

/-- The pieces of a cell between its commas, as far as they are in columns that are read. -/
def parts (cell : String) : List String :=
  ((cell.toList.splitOn ',').map String.ofList).take maxColumns

/-- The cell falls into pieces if it is written without quotation marks. -/
def splits (cell : String) : Bool := bare cell && decide (',' ∈ cell.toList)

/-- The cell is not read at all if it is written without quotation marks. -/
def vanishes (cell : String) : Bool := splits cell && isBlank (parts cell)

/-- The values of a table of one column. -/
def columnValues (table : List (List String)) : List String := (nonBlank table).flatten

/-- The values below the header, if there is one. -/
def dataCells : List String → List String
  | [] => []
  | first :: rest => if looksLikeEmail first then first :: rest else rest

/-- The pieces of cells do no harm. If there are addresses, no value is taken apart, and the header
    may be if it is not taken for an address then, or has nothing in the column of the addresses,
    and if it is not missed as the header. Without addresses none may come to light, and the rows
    that stay must still be more than a header. -/
structure Harmless (values : List String) : Prop where
  values_whole : (dataCells values).any looksLikeEmail = true →
    ∀ d ∈ dataCells values, splits d = false
  header_parts : (dataCells values).any looksLikeEmail = true →
    ∀ h ∈ values.head?, looksLikeEmail h = false → splits h = true →
      trimSpace ((parts h).getD 0 "") = "" ∨ rowHasEmail (parts h) = false
  header_vanishes : (dataCells values).any looksLikeEmail = true →
    ∀ h ∈ values.head?, looksLikeEmail h = false → vanishes h = true →
      (dataCells values).head?.any looksLikeEmail = true
  no_address : (dataCells values).any looksLikeEmail = false →
    ∀ c ∈ values, splits c = true → rowHasEmail (parts c) = false
  rows_stay : (dataCells values).any looksLikeEmail = false → dataCells values ≠ [] →
    2 ≤ (values.filter (!vanishes ·)).length

/-- The table has one column, and its commas do no harm. -/
structure TabSafe (table : List (List String)) : Prop where
  single : ∀ record ∈ table, record.length ≤ 1
  harmless : Harmless (columnValues table)

/-- No piece of a cell has a comma. -/
theorem comma_notMem_of_mem_parts {cell piece : String} (h : piece ∈ parts cell) :
    ',' ∉ piece.toList := by
  obtain ⟨chars, hchars, rfl⟩ := List.mem_map.mp (List.mem_of_mem_take h)
  rw [String.toList_ofList]
  exact List.notMem_of_mem_splitOn hchars

/-- A cell without commas is its only piece. -/
theorem parts_eq_self {cell : String} (h : ',' ∉ cell.toList) : parts cell = [cell] := by
  have hsplit : cell.toList.splitOn ',' = [cell.toList] := List.splitOn_eq_singleton h
  rw [parts, hsplit, List.map_singleton, String.ofList_toList]
  rfl

/-- The comma of a cell is still there when the cell is trimmed. -/
theorem comma_mem_trimSpace {cell : String} (h : ',' ∈ cell.toList) :
    ',' ∈ (trimSpace cell).toList := by
  rw [trimSpace, String.toList_ofList]
  exact List.mem_rdropWhile_dropWhile (by decide) h

/-- A blank cell has no comma. -/
theorem comma_notMem_of_blank {cell : String} (h : trimSpace cell = "") : ',' ∉ cell.toList := by
  intro hmem
  have := comma_mem_trimSpace hmem
  simp [h] at this

/-- A record of one cell is blank if the cell is. -/
theorem isBlank_singleton (cell : String) : isBlank [cell] = decide (trimSpace cell = "") := by
  simp [isBlank]

/-- A record of one cell has an address if the cell is one. -/
theorem rowHasEmail_singleton (cell : String) : rowHasEmail [cell] = looksLikeEmail cell := by
  simp [rowHasEmail]

/-- No more cells than the columns that are read. -/
theorem length_parts_le {cell : String} : (parts cell).length ≤ maxColumns :=
  List.length_take_le _ _

/-- What looks like an address is not blank. -/
theorem trimSpace_ne_of_looksLikeEmail {cell : String} (h : looksLikeEmail cell = true) :
    trimSpace cell ≠ "" := by
  intro hblank
  simp [looksLikeEmail, hblank] at h

/-- A record with an address is not blank. -/
theorem isBlank_eq_false_of_rowHasEmail {row : List String} (h : rowHasEmail row = true) :
    isBlank row = false := by
  obtain ⟨cell, hcell, hlooks⟩ := List.any_eq_true.mp h
  rw [isBlank, List.all_eq_false]
  exact ⟨cell, hcell, by simpa using trimSpace_ne_of_looksLikeEmail hlooks⟩

/-! ## Rows that are detected -/

/-- The rows in the columns that are detected. -/
def detected (s : Sheet) : List Row := s.extract s.detectColumns.1 s.detectColumns.2

/-- The rows of a table, or the error that it has none. -/
theorem sheetRows_newSheet (rows : List (List String)) : ∃ header, sheetRows (newSheet rows) =
    if dataRows rows = [] then .error .errNoRows
    else .ok (detected { header := header, rows := dataRows rows }) := by
  obtain ⟨header, hsheet⟩ := newSheet_eq rows
  refine ⟨header, ?_⟩
  rw [hsheet]
  split <;> rfl

/-- The rows that are found are data rows, each with the cells in two columns. -/
theorem exists_filter_of_sheetRows {rows : List (List String)} {found : List Row}
    (h : sheetRows (newSheet rows) = .ok found) :
    ∃ e l, found = ((dataRows rows).map (Sheet.rowIn e l)).filter fun row => row.email ≠ "" := by
  obtain ⟨header, hrows⟩ := sheetRows_newSheet rows
  rw [h] at hrows
  split at hrows
  · cases hrows
  · cases hrows
    exact ⟨_, _, Sheet.extract_eq_filter _ _ _⟩

/-- Without an address there are no rows. -/
theorem detected_eq_nil {s : Sheet} (h : ∀ row ∈ s.rows, rowHasEmail row = false) :
    detected s = [] := by
  have hnothing : s.detectColumns = (-1, -1) := by
    refine Sheet.detectColumns_eq_nothing_iff.mpr fun row hrow c _ cell hcell => ?_
    have hnone := h row hrow
    rw [rowHasEmail, List.any_eq_false] at hnone
    simpa using hnone cell (List.mem_of_getElem? hcell)
  rw [detected, hnothing, Sheet.extract_eq_filter, List.filter_eq_nil_iff]
  intro row hrow
  obtain ⟨record, -, rfl⟩ := List.mem_map.mp hrow
  simp [Sheet.rowIn, Sheet.cell]

/-- With an address in a column that is read there are rows. -/
theorem detected_ne_nil {s : Sheet} {row : List String} (hrow : row ∈ s.rows)
    (hemail : rowHasEmail row = true) (hwidth : row.length ≤ maxColumns) : detected s ≠ [] := by
  obtain ⟨cell, hcell, hlooks⟩ := List.any_eq_true.mp hemail
  obtain ⟨c, hc⟩ := List.mem_iff_getElem?.mp hcell
  have hlt : c < maxColumns := (List.getElem?_eq_some_iff.mp hc).1.trans_le hwidth
  have hhits : s.hits c ≠ 0 := Nat.ne_of_gt (Sheet.hits_pos_iff.mpr ⟨row, hrow, cell, hc, hlooks⟩)
  have hdetects := s.detects_detectColumns
  rw [detected, Sheet.extract_eq_filter]
  generalize s.detectColumns = r at hdetects
  cases hdetects with
  | nothing hnone => exact absurd (hnone c hlt) hhits
  | @columns e l he hl =>
    -- some row has an address in the column that was detected
    obtain ⟨row', hrow', cell', hcell', hlooks'⟩ := Sheet.hits_pos_iff.mp he.1.2.1
    have hfilled : Sheet.cell row' e = some (trimSpace cell') := by
      rw [Sheet.cell, if_neg (by omega), Int.toNat_natCast, hcell']
      rfl
    refine List.ne_nil_of_mem (List.mem_filter.mpr ⟨List.mem_map_of_mem hrow', ?_⟩)
    simpa [Sheet.rowIn, hfilled] using trimSpace_ne_of_looksLikeEmail hlooks'

/-- The row of a value without a label. -/
def bareRow (value : String) : Row := { label := "", email := trimSpace value }

/-- A sheet whose rows have one cell each, but for one at most: its addresses are in the first
    column, and its labels in another one or nowhere. -/
theorem detectColumns_column {s : Sheet} {extra : List (List String)} {values : List String}
    (hrows : s.rows = extra ++ values.map ([·])) (hextra : extra.length ≤ 1)
    (hvalues : values.any looksLikeEmail = true) :
    s.detectColumns.1 = 0 ∧ s.detectColumns.2 ≠ 0 := by
  have hhits : ∀ c, s.hits c = extra.countP (fun row => row[c]?.any looksLikeEmail) +
      if c = 0 then values.countP looksLikeEmail else 0 := by
    intro c
    rw [Sheet.hits, hrows, List.countP_append, List.countP_map]
    cases c <;> simp [Function.comp_def]
  have hpos : 0 < values.countP looksLikeEmail := by
    rw [List.countP_pos_iff]
    simpa using hvalues
  have hleast : IsLeast s.mostHits 0 := by
    refine ⟨⟨by decide, ?_, fun c _ => ?_⟩, fun c _ => Nat.zero_le c⟩
    · rw [hhits, if_pos rfl]
      omega
    -- any other column has at most the one address of the extra row
    · have hle : extra.countP (fun row => row[c]?.any looksLikeEmail) ≤ 1 :=
        List.countP_le_length.trans hextra
      rw [hhits, hhits, if_pos rfl]
      split
      · next hc => rw [hc]
      · omega
  have hdetects := s.detects_detectColumns
  generalize s.detectColumns = r at hdetects
  cases hdetects with
  | nothing hnone => exact absurd (hnone 0 hleast.1.1) (Sheet.hits_ne_zero hleast)
  | columns he hl =>
    cases he.unique hleast
    exact ⟨rfl, hl.ne⟩

/-- The rows of such a sheet. -/
theorem detected_column {s : Sheet} {extra : List (List String)} {values : List String}
    (hrows : s.rows = extra ++ values.map ([·])) (hextra : extra.length ≤ 1)
    (hvalues : values.any looksLikeEmail = true) (hfilled : ∀ c ∈ values, trimSpace c ≠ "") :
    ∃ l, detected s = (extra.map (Sheet.rowIn 0 l)).filter (fun row => row.email ≠ "") ++
      values.map bareRow := by
  obtain ⟨hemail, hlabel⟩ := detectColumns_column hrows hextra hvalues
  refine ⟨s.detectColumns.2, ?_⟩
  -- a record with one cell has no label
  have hrow : ∀ value, Sheet.rowIn 0 s.detectColumns.2 [value] = bareRow value := by
    intro value
    have hnone : Sheet.cell [value] s.detectColumns.2 = none := by
      rw [Sheet.cell]
      split
      · rfl
      · rw [List.getElem?_eq_none (by simp; omega)]
        rfl
    rw [Sheet.rowIn, hnone]
    rfl
  rw [detected, hemail, Sheet.extract_eq_filter, hrows, List.map_append, List.filter_append,
    List.map_map]
  congr 1
  rw [show (Sheet.rowIn 0 s.detectColumns.2 ∘ fun value => [value]) = bareRow from funext hrow,
    List.filter_eq_self]
  intro row hmem
  obtain ⟨value, hvalue, rfl⟩ := List.mem_map.mp hmem
  exact decide_eq_true (hfilled value hvalue)

/-- The data rows of a table of one column. -/
theorem dataRows_map_singleton (values : List String) :
    dataRows (values.map ([·])) = (dataCells values).map ([·]) := by
  cases values with
  | nil => rfl
  | cons first rest =>
    rw [List.map_cons, dataRows, dataCells, rowHasEmail_singleton]
    split <;> rfl

/-- The values below the header are values. -/
theorem mem_of_mem_dataCells {values : List String} {c : String} (h : c ∈ dataCells values) :
    c ∈ values := by
  cases values with
  | nil => exact h
  | cons first rest =>
    rw [dataCells] at h
    split at h
    · exact h
    · exact List.mem_cons_of_mem first h

/-- The value in the first column. -/
theorem cell_zero_getD (row : List String) :
    (Sheet.cell row 0).getD "" = trimSpace (row.getD 0 "") := by
  cases row <;> rfl

/-- The rows of a sheet with these values, and with at most one other row that has nothing in the
    first column. -/
theorem sheetRows_eq_map {rows : List (List String)} (extra : List (List String))
    {values : List String} (hrows : dataRows rows = extra ++ values.map ([·]))
    (hextra : extra.length ≤ 1)
    (hblank : ∀ row ∈ extra, trimSpace (row.getD 0 "") = "")
    (hvalues : values.any looksLikeEmail = true) (hfilled : ∀ c ∈ values, trimSpace c ≠ "") :
    sheetRows (newSheet rows) = .ok (values.map bareRow) := by
  obtain ⟨header, hsheet⟩ := sheetRows_newSheet rows
  -- one of the values looks like an address, so there is a row
  have hne : dataRows rows ≠ [] := by
    rw [hrows]
    refine List.append_ne_nil_of_right_ne_nil _ fun hnil => ?_
    rw [List.map_eq_nil_iff.mp hnil] at hvalues
    cases hvalues
  obtain ⟨l, hdetected⟩ := detected_column (s := ⟨header, dataRows rows⟩) hrows hextra hvalues
    hfilled
  rw [hsheet, if_neg hne, hdetected, List.filter_eq_nil_iff.mpr, List.nil_append]
  intro row hrow
  obtain ⟨record, hrecord, rfl⟩ := List.mem_map.mp hrow
  simp [Sheet.rowIn, cell_zero_getD, hblank record hrecord, -List.getD_eq_getElem?_getD]

/-- The rows of a table without an address. -/
theorem sheetRows_of_no_address {rows : List (List String)}
    (h : ∀ row ∈ rows, rowHasEmail row = false) :
    sheetRows (newSheet rows) = if rows.length ≤ 1 then .error .errNoRows else .ok [] := by
  obtain ⟨header, hsheet⟩ := sheetRows_newSheet rows
  -- the first row is taken for the header
  have htail : dataRows rows = rows.tail := by
    cases rows with
    | nil => rfl
    | cons first rest => rw [dataRows, h first List.mem_cons_self, if_neg (by simp), List.tail_cons]
  rw [hsheet, htail]
  have hnil : rows.tail = [] ↔ rows.length ≤ 1 := by
    rw [← List.length_eq_zero_iff, List.length_tail]
    omega
  simp only [hnil]
  split
  · rfl
  · rw [detected_eq_nil fun row hrow => h row (List.mem_of_mem_tail hrow)]

/-! ## What the values are read as -/

/-- What is read of a cell that is written without quotation marks. -/
def remains (cell : String) : List (List String) :=
  if isBlank (parts cell) then [] else [parts cell]

/-- The rows that values are read as, each of them as it is or in pieces. -/
inductive Reads : List String → List (List String) → Prop where
  | nil : Reads [] []
  | whole {values : List String} {rows : List (List String)} (c : String)
    (h : Reads values rows) : Reads (c :: values) ([c] :: rows)
  | pieces {values : List String} {rows : List (List String)} {c : String}
    (hc : splits c = true) (h : Reads values rows) : Reads (c :: values) (remains c ++ rows)

/-- All values may be read as they are. -/
theorem Reads.all_whole (values : List String) : Reads values (values.map ([·])) := by
  induction values with
  | nil => exact .nil
  | cons c _ ih => exact .whole c ih

/-- One of the values may be read in pieces. -/
theorem Reads.one_pieces (before : List String) {c : String} (hc : splits c = true)
    (after : List String) : Reads (before ++ c :: after)
      (before.map ([·]) ++ (remains c ++ after.map ([·]))) := by
  induction before with
  | nil => exact .pieces hc (.all_whole after)
  | cons b _ ih => exact .whole b ih

/-- The values that vanish may all do so. -/
theorem Reads.all_vanish (values : List String) :
    Reads values ((values.filter (!vanishes ·)).map ([·])) := by
  induction values with
  | nil => exact .nil
  | cons c values ih =>
    rw [List.filter_cons]
    -- a value that cannot vanish is read as a whole
    cases hvanishes : vanishes c with
    | false => exact .whole c ih
    | true =>
      rw [vanishes, Bool.and_eq_true] at hvanishes
      have hnothing : remains c = [] := if_pos hvanishes.2
      have hreads := Reads.pieces hvanishes.1 ih
      rwa [hnothing] at hreads

/-- Values that do not fall into pieces are read as they are. -/
theorem Reads.eq_map {values : List String} {rows : List (List String)} (h : Reads values rows)
    (hwhole : ∀ c ∈ values, splits c = false) : rows = values.map ([·]) := by
  induction h with
  | nil => rfl
  | whole c _ ih => rw [ih fun c' hc' => hwhole c' (List.mem_cons_of_mem c hc'), List.map_cons]
  | pieces hc _ _ =>
    rw [hwhole _ List.mem_cons_self] at hc
    cases hc

/-- There is one row for a value at most, and for one that does not vanish. -/
theorem Reads.length {values : List String} {rows : List (List String)} (h : Reads values rows) :
    (values.filter (!vanishes ·)).length ≤ rows.length ∧ rows.length ≤ values.length := by
  induction h with
  | nil => exact ⟨le_rfl, le_rfl⟩
  | whole c _ ih =>
    rw [List.filter_cons]
    split <;> simp only [List.length_cons] <;> omega
  | @pieces values rows c hc _ ih =>
    rw [List.filter_cons, vanishes, hc, remains]
    cases isBlank (parts c) <;> simp <;> omega

/-- Without an address in the values or in their pieces there is none in the rows. -/
theorem Reads.no_email {values : List String} {rows : List (List String)} (h : Reads values rows)
    (hvalues : ∀ c ∈ values, looksLikeEmail c = false)
    (hparts : ∀ c ∈ values, splits c = true → rowHasEmail (parts c) = false) :
    ∀ row ∈ rows, rowHasEmail row = false := by
  -- a value is read as a whole, or in pieces
  induction h with
  | nil => simp
  | whole c _ ih =>
    rw [List.forall_mem_cons] at hvalues hparts ⊢
    exact ⟨(rowHasEmail_singleton c).trans hvalues.1, ih hvalues.2 hparts.2⟩
  | @pieces values rows c hc _ ih =>
    rw [List.forall_mem_cons] at hvalues hparts
    intro row hrow
    rcases List.mem_append.mp hrow with hrow | hrow
    · rw [remains] at hrow
      split at hrow
      · cases hrow
      · rw [List.mem_singleton.mp hrow]
        exact hparts.1 hc
    · exact ih hvalues.2 hparts.2 row hrow

/-! ## Pieces that do no harm -/

section Harmless

variable {values : List String}

/-- The values are those below the header, with a header that is not an address or without one. -/
theorem dataCells_cases (values : List String) : dataCells values = values ∨
    ∃ h, values = h :: dataCells values ∧ looksLikeEmail h = false := by
  cases values with
  | nil => exact .inl rfl
  | cons first rest =>
    rw [dataCells]
    cases hfirst : looksLikeEmail first with
    | true => exact .inl rfl
    | false => exact .inr ⟨first, rfl, hfirst⟩

/-- The values below a header. -/
theorem dataCells_cons_of_not_email {h : String} (rest : List String)
    (hh : looksLikeEmail h = false) : dataCells (h :: rest) = rest := by
  rw [dataCells, hh]
  rfl

/-- An address is not a header. -/
theorem mem_dataCells_of_looksLikeEmail {c : String} (hc : c ∈ values)
    (hemail : looksLikeEmail c = true) : c ∈ dataCells values := by
  rcases dataCells_cases values with heq | ⟨h, heq, hh⟩
  · rwa [heq]
  · rw [heq] at hc
    refine (List.mem_cons.mp hc).resolve_left fun hch => ?_
    rw [hch, hh] at hemail
    cases hemail

/-- If there is no address below the header, there is none. -/
theorem looksLikeEmail_eq_false (h : (dataCells values).any looksLikeEmail = false) :
    ∀ c ∈ values, looksLikeEmail c = false := by
  intro c hc
  by_contra hemail
  rw [Bool.not_eq_false] at hemail
  rw [List.any_eq_false] at h
  exact h c (mem_dataCells_of_looksLikeEmail hc hemail) hemail

/-- Without an address the first value is the header. -/
theorem dataCells_ne_nil_iff (h : (dataCells values).any looksLikeEmail = false) :
    dataCells values ≠ [] ↔ 2 ≤ values.length := by
  have hno := looksLikeEmail_eq_false h
  cases values with
  | nil => simp [dataCells]
  | cons first rest =>
    rw [dataCells_cons_of_not_email rest (hno first List.mem_cons_self), List.length_cons,
      ← List.length_pos_iff]
    omega

/-- The rows of values with an address among them. -/
theorem sheetRows_values (hfilled : ∀ c ∈ values, trimSpace c ≠ "")
    (h : (dataCells values).any looksLikeEmail = true) :
    sheetRows (newSheet (values.map ([·]))) = .ok ((dataCells values).map bareRow) :=
  sheetRows_eq_map [] (dataRows_map_singleton values) (Nat.zero_le 1) (by simp) h
    fun c hc => hfilled c (mem_of_mem_dataCells hc)

/-- The rows of values without an address. -/
theorem sheetRows_values_of_no_address (h : (dataCells values).any looksLikeEmail = false) :
    sheetRows (newSheet (values.map ([·]))) =
      if values.length ≤ 1 then .error .errNoRows else .ok [] := by
  have hno := looksLikeEmail_eq_false h
  have hrows : ∀ row ∈ values.map ([·]), rowHasEmail row = false := by
    intro row hrow
    obtain ⟨c, hc, rfl⟩ := List.mem_map.mp hrow
    exact (rowHasEmail_singleton c).trans (hno c hc)
  rw [sheetRows_of_no_address hrows, List.length_map]

/-- A row with an address is not taken for the header. -/
theorem mem_dataRows {rows : List (List String)} {row : List String} (hrow : row ∈ rows)
    (hemail : rowHasEmail row = true) : row ∈ dataRows rows := by
  cases rows with
  | nil => exact hrow
  | cons first rest =>
    rw [dataRows]
    -- the first row is data, or it has no address
    split
    · exact hrow
    · next hfirst =>
      refine (List.mem_cons.mp hrow).resolve_left fun h => hfirst ?_
      rw [← h]
      exact hemail

/-- The value of a row has no comma if the cells have none. -/
theorem comma_notMem_rowIn (row : List String) (e l : Int)
    (h : ∀ cell ∈ row, ',' ∉ cell.toList) : ',' ∉ (Sheet.rowIn e l row).email.toList := by
  simp only [Sheet.rowIn, Sheet.cell]
  split
  · decide
  · cases hcell : row[e.toNat]? with
    | none => decide
    | some cell =>
      exact fun hmem => h cell (List.mem_of_getElem? hcell) (mem_toList_of_mem_trimSpace hmem)

/-- If a value is read in pieces, its row is another one or is missing. -/
theorem sheetRows_ne_of_pieces {before after : List String} {d : String} (hd : splits d = true)
    {rows : List (List String)}
    (hrows : (dataRows rows).Sublist (before.map ([·]) ++ (remains d ++ after.map ([·])))) :
    sheetRows (newSheet rows) ≠ .ok ((before ++ d :: after).map bareRow) := by
  intro h
  obtain ⟨e, l, hfound⟩ := exists_filter_of_sheetRows h
  -- as many rows as values are found only if all rows are
  have hsublist : ((before ++ d :: after).map bareRow).Sublist
      ((before.map ([·]) ++ (remains d ++ after.map ([·]))).map (Sheet.rowIn e l)) := by
    rw [hfound]
    exact List.filter_sublist.trans (hrows.map (Sheet.rowIn e l))
  have hlength := hsublist.length_le
  rw [remains] at hsublist hlength
  split at hsublist
  · next hblank => simp [hblank] at hlength
  · next hblank =>
    have heq := hsublist.eq_of_length (by simp)
    rw [List.map_append, List.map_append] at heq
    have hrow := (List.append_inj heq (by simp)).2
    have hemail : (bareRow d).email = (Sheet.rowIn e l (parts d)).email := by
      rw [List.map_cons, List.singleton_append, List.map_cons] at hrow
      rw [(List.cons.inj hrow).1]
    -- the value has a comma and what is read of it has none
    rw [splits, Bool.and_eq_true, decide_eq_true_eq] at hd
    refine comma_notMem_rowIn (parts d) e l (fun _ => comma_notMem_of_mem_parts) ?_
    rw [← hemail]
    exact comma_mem_trimSpace hd.2

/-- A header that is a row with an address is a row too many. -/
theorem sheetRows_ne_of_header {rows : List (List String)} {header : List String}
    (hrows : dataRows rows = [header] ++ values.map ([·]))
    (hheader : trimSpace (header.getD 0 "") ≠ "")
    (hvalues : values.any looksLikeEmail = true) (hfilled : ∀ c ∈ values, trimSpace c ≠ "") :
    sheetRows (newSheet rows) ≠ .ok (values.map bareRow) := by
  obtain ⟨title, hsheet⟩ := sheetRows_newSheet rows
  obtain ⟨l, hdetected⟩ := detected_column (s := ⟨title, dataRows rows⟩) hrows le_rfl hvalues
    hfilled
  rw [hsheet, if_neg (by simp [hrows]), hdetected]
  intro h
  have hlength := congrArg List.length (Except.ok.inj h)
  simp [Sheet.rowIn, cell_zero_getD, hheader, -List.getD_eq_getElem?_getD] at hlength

/-- A row with an address leads to a row. -/
theorem sheetRows_of_address {rows : List (List String)} {row : List String} (hrow : row ∈ rows)
    (hemail : rowHasEmail row = true) (hwidth : row.length ≤ maxColumns) :
    ∃ found, sheetRows (newSheet rows) = .ok found ∧ found ≠ [] := by
  obtain ⟨header, hsheet⟩ := sheetRows_newSheet rows
  have hmem := mem_dataRows hrow hemail
  rw [hsheet, if_neg (List.ne_nil_of_mem hmem)]
  exact ⟨_, rfl, detected_ne_nil hmem hemail hwidth⟩

/-- The pieces of a header that do no harm leave the values below it. -/
theorem sheetRows_of_header_pieces {header : String} (hsplits : splits header = true)
    (hvalues : values.any looksLikeEmail = true) (hfilled : ∀ c ∈ values, trimSpace c ≠ "")
    (hparts : trimSpace ((parts header).getD 0 "") = "" ∨ rowHasEmail (parts header) = false)
    (hvanishes : vanishes header = true → values.head?.any looksLikeEmail = true) :
    sheetRows (newSheet (remains header ++ values.map ([·]))) = .ok (values.map bareRow) := by
  rw [remains]
  split
  · next hblank =>
    -- the header vanishes, and the first value must be an address
    refine sheetRows_eq_map [] ?_ (Nat.zero_le 1) (by simp) hvalues hfilled
    have hfirst := hvanishes (by rw [vanishes, hsplits, hblank]; rfl)
    cases values with
    | nil => cases hvalues
    | cons first rest =>
      rw [List.head?_cons, Option.any_some] at hfirst
      rw [List.nil_append, List.map_cons, dataRows, rowHasEmail_singleton, hfirst]
      rfl
  · rw [List.singleton_append]
    cases hemail : rowHasEmail (parts header) with
    | false =>
      refine sheetRows_eq_map [] ?_ (Nat.zero_le 1) (by simp) hvalues hfilled
      rw [dataRows, hemail]
      rfl
    | true =>
      -- the header is a row without an address
      have hempty := hparts.resolve_right (by simp [hemail])
      refine sheetRows_eq_map [parts header] ?_ le_rfl ?_ hvalues hfilled
      · rw [dataRows, hemail]
        rfl
      · intro row hrow
        rwa [List.mem_singleton.mp hrow]

variable (hfilled : ∀ c ∈ values, trimSpace c ≠ "")
include hfilled

/-- If the pieces do no harm, the rows are the same. -/
theorem Harmless.sheetRows_eq (hharmless : Harmless values) {rows : List (List String)}
    (h : Reads values rows) :
    sheetRows (newSheet rows) = sheetRows (newSheet (values.map ([·]))) := by
  cases hany : (dataCells values).any looksLikeEmail with
  | true =>
    have hdata : ∀ c ∈ dataCells values, trimSpace c ≠ "" := fun c hc =>
      hfilled c (mem_of_mem_dataCells hc)
    have hwhole := hharmless.values_whole hany
    rcases dataCells_cases values with heq | ⟨header, heq, hheader⟩
    · rw [heq] at hwhole
      rw [h.eq_map hwhole]
    · rw [sheetRows_values hfilled hany]
      generalize hdataCells : dataCells values = data at *
      have hparts := hharmless.header_parts (by rwa [hdataCells]) header (by rw [heq]; rfl) hheader
      have hvanishes := hharmless.header_vanishes (by rwa [hdataCells]) header (by rw [heq]; rfl)
        hheader
      rw [heq] at h
      cases h with
      | whole _ hrest =>
        rw [hrest.eq_map hwhole]
        refine sheetRows_eq_map [] ?_ (Nat.zero_le 1) (by simp) hany hdata
        rw [dataRows, rowHasEmail_singleton, hheader]
        rfl
      | pieces hsplits hrest =>
        rw [hrest.eq_map hwhole]
        exact sheetRows_of_header_pieces hsplits hany hdata (hparts hsplits)
          (hdataCells ▸ hvanishes)
  | false =>
    have hno := looksLikeEmail_eq_false hany
    rw [sheetRows_of_no_address (h.no_email hno (hharmless.no_address hany)),
      sheetRows_values_of_no_address hany]
    obtain ⟨hleast, hmost⟩ := h.length
    by_cases htwo : 2 ≤ values.length
    · have hstay := hharmless.rows_stay hany ((dataCells_ne_nil_iff hany).mpr htwo)
      rw [if_neg (by omega), if_neg (by omega)]
    · rw [if_pos (by omega), if_pos (by omega)]

section Same

variable (h : ∀ rows, Reads values rows →
  sheetRows (newSheet rows) = sheetRows (newSheet (values.map ([·]))))
include h

/-- A value that is taken apart would change its row. -/
theorem splits_eq_false_of_same (hany : (dataCells values).any looksLikeEmail = true) {d : String}
    (hd : d ∈ dataCells values) : splits d = false := by
  rw [sheetRows_values hfilled hany] at h
  by_contra hsplits
  rw [Bool.not_eq_false] at hsplits
  obtain ⟨before, after, hdata⟩ := List.append_of_mem hd
  rw [hdata] at h
  rcases dataCells_cases values with heq | ⟨header, heq, hheader⟩
  · have hreads := Reads.one_pieces before hsplits after
    rw [← hdata, heq] at hreads
    exact sheetRows_ne_of_pieces hsplits (dataRows_sublist _) (h _ hreads)
  · have hreads := Reads.whole header (Reads.one_pieces before hsplits after)
    rw [← hdata, ← heq] at hreads
    refine sheetRows_ne_of_pieces hsplits ?_ (h _ hreads)
    rw [dataRows, rowHasEmail_singleton, hheader]
    exact List.Sublist.refl _

/-- A header with pieces that have an address, and text in the first column, would be a row. -/
theorem parts_of_same (hany : (dataCells values).any looksLikeEmail = true) {header : String}
    (hhead : header ∈ values.head?) (hheader : looksLikeEmail header = false)
    (hsplits : splits header = true) :
    trimSpace ((parts header).getD 0 "") = "" ∨ rowHasEmail (parts header) = false := by
  obtain ⟨rest, rfl⟩ := List.head?_eq_some_iff.mp hhead
  rw [sheetRows_values hfilled hany] at h
  rw [dataCells_cons_of_not_email rest hheader] at h hany
  by_contra! hneither
  obtain ⟨hfirst, hemail⟩ := hneither
  rw [ne_eq, Bool.not_eq_false] at hemail
  -- the header is a row with an address too
  have hrows : dataRows (parts header :: rest.map ([·])) =
      [parts header] ++ rest.map ([·]) := by
    rw [dataRows, hemail]
    rfl
  have hreads := Reads.pieces hsplits (Reads.all_whole rest)
  rw [remains, if_neg (by simp [isBlank_eq_false_of_rowHasEmail hemail])] at hreads
  refine sheetRows_ne_of_header hrows hfirst hany (fun c hc => ?_) (h _ hreads)
  exact hfilled c (List.mem_cons_of_mem header hc)

/-- If the header vanishes, the first value would be taken for it unless it is an address. -/
theorem head_of_same (hany : (dataCells values).any looksLikeEmail = true) {header : String}
    (hhead : header ∈ values.head?) (hheader : looksLikeEmail header = false)
    (hvanishes : vanishes header = true) :
    (dataCells values).head?.any looksLikeEmail = true := by
  obtain ⟨rest, rfl⟩ := List.head?_eq_some_iff.mp hhead
  rw [sheetRows_values hfilled hany] at h
  rw [dataCells_cons_of_not_email rest hheader] at h hany ⊢
  rw [vanishes, Bool.and_eq_true] at hvanishes
  have hreads := Reads.pieces hvanishes.1 (Reads.all_whole rest)
  rw [remains, if_pos hvanishes.2, List.nil_append] at hreads
  obtain ⟨e, l, hfound⟩ := exists_filter_of_sheetRows (h _ hreads)
  cases rest with
  | nil => cases hany
  | cons first rest =>
    by_contra hfirst
    have hfirst : looksLikeEmail first = false := by simpa using hfirst
    -- the first value is taken for the header, and there are too few rows
    have hlength := congrArg List.length hfound
    rw [dataRows_map_singleton, dataCells_cons_of_not_email rest hfirst] at hlength
    have hle := List.length_filter_le (fun row : Row => decide (row.email ≠ ""))
      ((rest.map ([·])).map (Sheet.rowIn e l))
    simp only [List.length_map, List.length_cons] at hlength hle
    omega

omit hfilled in
/-- A piece with an address would be found. -/
theorem rowHasEmail_parts_of_same (hany : (dataCells values).any looksLikeEmail = false)
    {c : String} (hc : c ∈ values) (hsplits : splits c = true) :
    rowHasEmail (parts c) = false := by
  rw [sheetRows_values_of_no_address hany] at h
  by_contra hemail
  rw [Bool.not_eq_false] at hemail
  obtain ⟨before, after, hvalues⟩ := List.append_of_mem hc
  have hreads := Reads.one_pieces before hsplits after
  rw [← hvalues, remains, if_neg (by simp [isBlank_eq_false_of_rowHasEmail hemail])] at hreads
  have hmem : parts c ∈ before.map ([·]) ++ ([parts c] ++ after.map ([·])) := by simp
  obtain ⟨found, hfound, hne⟩ := sheetRows_of_address hmem hemail length_parts_le
  have hrows := (h _ hreads).symm.trans hfound
  split at hrows
  · cases hrows
  · cases hrows
    exact hne rfl

omit hfilled in
/-- If all but the header vanishes, there would be no rows. -/
theorem two_le_of_same (hany : (dataCells values).any looksLikeEmail = false)
    (hne : dataCells values ≠ []) : 2 ≤ (values.filter (!vanishes ·)).length := by
  rw [sheetRows_values_of_no_address hany] at h
  have hno := looksLikeEmail_eq_false hany
  have hrows : ∀ row ∈ (values.filter (!vanishes ·)).map ([·]), rowHasEmail row = false := by
    intro row hrow
    obtain ⟨c, hc, rfl⟩ := List.mem_map.mp hrow
    exact (rowHasEmail_singleton c).trans (hno c (List.mem_of_mem_filter hc))
  have hsame := h _ (Reads.all_vanish values)
  rw [sheetRows_of_no_address hrows, List.length_map] at hsame
  have htwo := (dataCells_ne_nil_iff hany).mp hne
  by_contra hfew
  rw [if_pos (by omega), if_neg (by omega)] at hsame
  cases hsame

/-- If the rows are the same however the values are read, the pieces do no harm. -/
theorem harmless_of_sheetRows_eq : Harmless values where
  values_whole hany _ := splits_eq_false_of_same hfilled h hany
  header_parts hany _ := parts_of_same hfilled h hany
  header_vanishes hany _ := head_of_same hfilled h hany
  no_address hany _ := rowHasEmail_parts_of_same h hany
  rows_stay := two_le_of_same h

end Same

/-- The rows are the same however the values are read if and only if the pieces do no harm. -/
theorem harmless_iff : Harmless values ↔ ∀ rows, Reads values rows →
    sheetRows (newSheet rows) = sheetRows (newSheet (values.map ([·]))) :=
  ⟨fun h _ hrows => h.sheetRows_eq hfilled hrows, harmless_of_sheetRows_eq hfilled⟩

end Harmless

/-! ## Texts with tabs -/

/-- A blank record has no values. -/
theorem columnValues_cons (record : List String) (table : List (List String)) :
    columnValues (record :: table) =
      if isBlank record then columnValues table else record ++ columnValues table := by
  rw [columnValues, nonBlank_cons]
  split <;> rfl

/-- A blank cell has no value. -/
theorem columnValues_singleton {c : String} (table : List (List String)) :
    columnValues ([c] :: table) =
      if trimSpace c = "" then columnValues table else c :: columnValues table := by
  rw [columnValues_cons, isBlank_singleton]
  simp

/-- No value is blank. -/
theorem columnValues_filled {table : List (List String)}
    (hsingle : ∀ record ∈ table, record.length ≤ 1) :
    ∀ c ∈ columnValues table, trimSpace c ≠ "" := by
  intro c hc
  obtain ⟨record, hrecord, hmem⟩ := List.mem_flatten.mp hc
  obtain ⟨hrecord, hblank⟩ := List.mem_filter.mp hrecord
  have hlength := hsingle record hrecord
  rcases record with _ | ⟨c', _ | ⟨_, _⟩⟩
  · cases hmem
  · rw [List.mem_singleton.mp hmem]
    simpa [isBlank] using hblank
  · simp at hlength

/-- A record of one cell is kept if the cell is not blank. -/
theorem kept_singleton (c : String) (records : List (List String)) :
    kept ([c] :: records) = if trimSpace c = "" then kept records else [c] :: kept records := by
  rw [kept_cons, show [c].take maxColumns = [c] from rfl, isBlank_singleton]
  simp

/-- The rows of a table of one column. -/
theorem kept_column {table : List (List String)}
    (hsingle : ∀ record ∈ table, record.length ≤ 1) :
    kept table = (columnValues table).map ([·]) := by
  induction table with
  | nil => rfl
  | cons record table ih =>
    rw [List.forall_mem_cons] at hsingle
    obtain ⟨hrecord, hsingle⟩ := hsingle
    -- a blank line, or the one cell, which may be blank
    match record with
    | [] => exact ih hsingle
    | [c] =>
      rw [kept_singleton, columnValues_singleton, ih hsingle]
      split <;> rfl
    | _ :: _ :: _ => simp at hrecord

/-- A cell can stand without quotation marks. -/
theorem bare_iff {c : String} : bare c = true ↔
    ∀ x ∈ c.toList, x ≠ '\t' ∧ x ≠ '"' ∧ x ≠ '\r' ∧ x ≠ '\n' := by
  simp [bare, and_assoc]

/-- The pieces of a cell are kept if they are not all blank. -/
theorem kept_parts (c : String) (records : List (List String)) :
    kept ((c.toList.splitOn ',').map String.ofList :: records) = remains c ++ kept records := by
  rw [kept_cons, remains, parts]
  split <;> rfl

/-- What a cell without quotation marks is read as. -/
theorem reads_bare {c : String} (hc : bare c = true) {table : List (List String)}
    {rows : List (List String)} (h : Reads (columnValues table) rows) :
    Reads (columnValues ([c] :: table)) (remains c ++ rows) := by
  rw [columnValues_singleton]
  by_cases hcomma : ',' ∈ c.toList
  · rw [if_neg fun hblank => comma_notMem_of_blank hblank hcomma]
    exact .pieces (by simp [splits, hc, hcomma]) h
  · -- it has one piece, itself
    rw [remains, parts_eq_self hcomma, isBlank_singleton]
    split
    · next hblank => simpa [hblank] using h
    · next hblank =>
      simp only [hblank, decide_false, Bool.false_eq_true, if_false]
      exact .whole c h

/-- The records of a table of one column, as they are read from a text with tabs. -/
theorem reads_of_respelled {table : List (List String)} {table' : List (List (List Char))}
    (h : List.Forall₂ (Csv.Respelled '\t' ',')
      (table.map fun record => record.map String.toList) table') :
    Reads (columnValues table) (kept (table'.map fun record => record.map String.ofList)) := by
  induction table generalizing table' with
  | nil =>
    cases h
    exact .nil
  | cons record table ih =>
    obtain ⟨record', rest, hrecord, hrest, rfl⟩ := List.forall₂_cons_left_iff.mp h
    have hreads := ih hrest
    dsimp only at hrecord
    generalize hchars : record.map String.toList = chars at hrecord
    rw [List.map_cons]
    -- a record is read as it was written, or its one cell is taken apart
    cases hrecord with
    | empty =>
      rw [List.map_eq_nil_iff.mp hchars]
      exact hreads
    | whole cell =>
      obtain ⟨c, rfl, rfl⟩ := List.map_eq_singleton_iff.mp hchars
      rw [List.map_singleton, String.ofList_toList, kept_singleton, columnValues_singleton]
      split
      · exact hreads
      · exact .whole c hreads
    | pieces hplain =>
      obtain ⟨c, rfl, rfl⟩ := List.map_eq_singleton_iff.mp hchars
      rw [kept_parts]
      exact reads_bare (bare_iff.mpr hplain) hreads

/-- Each way to read the values comes from a text. -/
theorem exists_respelled {table : List (List String)}
    (hsingle : ∀ record ∈ table, record.length ≤ 1) {rows : List (List String)}
    (h : Reads (columnValues table) rows) :
    ∃ table', List.Forall₂ (Csv.Respelled '\t' ',')
        (table.map fun record => record.map String.toList) table' ∧
      kept (table'.map fun record => record.map String.ofList) = rows := by
  induction table generalizing rows with
  | nil =>
    cases h
    exact ⟨[], .nil, rfl⟩
  | cons record table ih =>
    rw [List.forall_mem_cons] at hsingle
    obtain ⟨hrecord, hsingle⟩ := hsingle
    rcases record with _ | ⟨c, _ | ⟨_, _⟩⟩
    · obtain ⟨table', hrest, hkept⟩ := ih hsingle h
      exact ⟨[] :: table', .cons .empty hrest, hkept⟩
    · -- a cell that is quoted is read as it is
      have hquoted : ∀ {rest}, Reads (columnValues table) rest → ∃ table',
          List.Forall₂ (Csv.Respelled '\t' ',')
            (([c] :: table).map fun record => record.map String.toList) table' ∧
          kept (table'.map fun record => record.map String.ofList) =
            if trimSpace c = "" then rest else [c] :: rest := by
        intro rest hreads
        obtain ⟨table', hrest, hkept⟩ := ih hsingle hreads
        refine ⟨[c.toList] :: table', .cons (.whole c.toList) hrest, ?_⟩
        rw [List.map_cons, List.map_singleton, String.ofList_toList, kept_singleton, hkept]
      rw [columnValues_singleton] at h
      by_cases hblank : trimSpace c = ""
      · rw [if_pos hblank] at h
        simpa only [hblank, if_true] using hquoted h
      · rw [if_neg hblank] at h
        cases h with
        | whole _ hreads => simpa only [hblank, if_false] using hquoted hreads
        | pieces hsplits hreads =>
          obtain ⟨table', hrest, hkept⟩ := ih hsingle hreads
          rw [splits, Bool.and_eq_true] at hsplits
          refine ⟨c.toList.splitOn ',' :: table', .cons (.pieces (bare_iff.mp hsplits.1)) hrest, ?_⟩
          rw [List.map_cons, kept_parts, hkept]
    · simp at hrecord

/-- The texts with tabs of a table of one column lead to the rows of its values, in all ways to
    read them. -/
theorem forall_tabs_iff {table : List (List String)} (hcells : Unbroken table)
    (hsize : table.length ≤ maxRows + 1) (hsingle : ∀ record ∈ table, record.length ≤ 1)
    (target : Except ParseError (List Row)) :
    (∀ text, Written '\t' table text → sheetRows (parseCSV (readCSV text)) = target) ↔
      ∀ rows, Reads (columnValues table) rows → sheetRows (newSheet rows) = target := by
  -- the text is text with commas of the records that it is read as
  have hwritten : ∀ {table' : List (List (List Char))} {text : String},
      List.Forall₂ (Csv.Respelled '\t' ',') (table.map fun record => record.map String.toList)
        table' → Csv.Text ',' table' text.toList →
      sheetRows (parseCSV (readCSV text)) =
        sheetRows (newSheet (kept (table'.map fun record => record.map String.ofList))) := by
    intro table' text hrespelled htext
    have hchars : ((table'.map fun record => record.map String.ofList).map
        fun record => record.map String.toList) = table' := by
      simp [Function.comp_def]
    refine sheetRows_written ?_ ?_ ?_
    · rw [Written, hchars]
      exact htext
    · have hunbroken := Csv.unbroken_of_respelled hrespelled (by simpa [Unbroken] using hcells)
      simpa [Unbroken] using hunbroken
    · rw [List.length_map, ← hrespelled.length_eq, List.length_map]
      exact hsize
  constructor
  · intro h rows hrows
    obtain ⟨table', hrespelled, rfl⟩ := exists_respelled hsingle hrows
    obtain ⟨text, htext, htext'⟩ := Csv.exists_text_of_respelled hrespelled
    rw [← String.toList_ofList (l := text)] at htext htext'
    rw [← hwritten hrespelled htext']
    exact h _ htext
  · intro h text htext
    obtain ⟨table', hrespelled, htext'⟩ :
        ∃ table', List.Forall₂ (Csv.Respelled '\t' ',') _ table' ∧
          Csv.Text ',' table' text.toList :=
      htext.respell (by simpa using hsingle)
    rw [hwritten hrespelled htext']
    exact h _ (reads_of_respelled hrespelled)

/-- The reader stops at an error, if there is still room. -/
theorem csvLoop_error (err : Csv.Error) {rows : List (List String)} (records : List (List String))
    (h : rows.length + records.length ≤ maxRows) :
    csvLoop (some err) rows records = .error (.readingCSV err) := by
  induction records generalizing rows with
  | nil => rw [csvLoop, if_pos (by simpa using h)]
  | cons record records ih =>
    rw [List.length_cons] at h
    rw [csvLoop, if_pos (by omega)]
    dsimp only
    split
    · exact ih (by omega)
    · exact ih (by rw [List.length_append, List.length_singleton]; omega)

/-- A table with two cells in some record has a text with tabs that is refused. -/
theorem exists_tabs_error {table : List (List String)} (hcells : Unbroken table)
    (hsize : table.length ≤ maxRows) (hwide : ∃ record ∈ table, 1 < record.length) :
    ∃ text, Written '\t' table text ∧
      sheetRows (parseCSV (readCSV text)) = .error (.readingCSV .quote) := by
  have hunbroken : ∀ record ∈ table.map fun record => record.map String.toList,
      ∀ cell ∈ record, Csv.Unbroken cell := by
    simpa [Unbroken] using hcells
  -- behind a quoted cell comes a tab, which is no delimiter for the reader
  obtain ⟨text, records, htext, hread, hlength⟩ :=
    Csv.exists_read_eq_quote delimits_comma (by decide : '\t' ≠ ',' ∧ _) hunbroken
      (by simpa using hwide)
  rw [List.length_map] at hlength
  refine ⟨.ofList text, by rwa [Written, String.toList_ofList], ?_⟩
  rw [readCSV, String.toList_ofList, hread, parseCSV,
    csvLoop_error _ _ (by simp; omega)]
  rfl

/-- The rows of a table are never that error. -/
theorem sheetRows_newSheet_ne (rows : List (List String)) (err : Csv.Error) :
    sheetRows (newSheet rows) ≠ .error (.readingCSV err) := by
  obtain ⟨header, hsheet⟩ := sheetRows_newSheet rows
  rw [hsheet]
  split <;> simp

/-- The rows of a table are the same however it is written with tabs if and only if it has one
    column and its commas do no harm. -/
theorem tabSafe_iff {table : List (List String)} (hcells : Unbroken table)
    (hsize : table.length ≤ maxRows) :
    (∀ text, Written '\t' table text →
      sheetRows (parseCSV (readCSV text)) = sheetRows (newSheet (kept table))) ↔
        TabSafe table := by
  have hiff : (∀ record ∈ table, record.length ≤ 1) → ((∀ text, Written '\t' table text →
      sheetRows (parseCSV (readCSV text)) = sheetRows (newSheet (kept table))) ↔
        Harmless (columnValues table)) := by
    intro hsingle
    rw [forall_tabs_iff hcells (by omega) hsingle, kept_column hsingle,
      harmless_iff (columnValues_filled hsingle)]
  constructor
  · intro h
    have hsingle : ∀ record ∈ table, record.length ≤ 1 := by
      -- a record with two cells has a text that is refused
      by_contra! hwide
      obtain ⟨text, htext, herr⟩ := exists_tabs_error hcells hsize hwide
      exact sheetRows_newSheet_ne _ _ ((h text htext).symm.trans herr)
    exact ⟨hsingle, (hiff hsingle).mp h⟩
  · intro h
    exact (hiff h.single).mpr h.harmless

/-- A text, as the contents of a file. -/
def textContents (text : String) : Contents := ⟨text, .error ""⟩

/-- The rows of a table are the same whether it is uploaded as text with commas or as a workbook.
    They are the same for every text with tabs if and only if the table is `TabSafe`. -/
theorem formats_agree {table : List (List String)} (hsize : table.length < maxRows)
    (hcells : Unbroken table) {csv tsv xlsx : String} (hcsv : toLower (ext csv) = ".csv")
    (htsv : toLower (ext tsv) = ".tsv") (hxlsx : toLower (ext xlsx) = ".xlsx")
    {commas workbook : Contents} (hcommas : Written ',' table commas.text) {name : String}
    {more : List (String × Except String (List (List String)))}
    (hworkbook : workbook.workbook = .ok ((name, .ok (getRows table)) :: more)) :
    sheetRows (parse csv commas) = sheetRows (parse xlsx workbook) ∧
    ((∀ tabs : Contents, Written '\t' table tabs.text →
      sheetRows (parse tsv tabs) = sheetRows (parse csv commas)) ↔ TabSafe table) := by
  have hcsv' : sheetRows (parse csv commas) = sheetRows (newSheet (kept table)) := by
    rw [parse, hcsv, if_pos (by decide)]
    exact sheetRows_written hcommas hcells (by omega)
  have hxlsx' : sheetRows (parse xlsx workbook) = sheetRows (newSheet (kept table)) := by
    rw [parse, hxlsx, if_neg (by decide), if_pos (by decide), hworkbook]
    exact sheetRows_workbook name table more hsize.le
  have htsv' : ∀ tabs : Contents, parse tsv tabs = parseCSV (readCSV tabs.text) := by
    intro tabs
    rw [parse, htsv, if_pos (by decide)]
  -- both are compared with the rows as they are kept
  refine ⟨hcsv'.trans hxlsx'.symm, ?_⟩
  simp only [htsv', hcsv', ← tabSafe_iff hcells hsize.le]
  exact ⟨fun h text => h (textContents text), fun h tabs => h tabs.text⟩

/-- A table of names and addresses. -/
def contacts : List (List String) := [["Ann", "a@x.io"], ["Bob", "b@x.io"]]

/-- Text without quotation marks is one of the texts of its table. -/
theorem written_of_eq {comma : Char} {table : List (List String)} {text : String}
    (hplain : (table.all fun record => record.all fun cell => cell.toList.all fun c =>
      c ≠ comma && c ≠ '"' && c ≠ '\r' && c ≠ '\n') = true)
    (h : text.toList = Csv.plainText comma (table.map fun record => record.map String.toList)) :
    Written comma table text := by
  unfold Written
  rw [h]
  exact Csv.text_plainText (by simpa [and_assoc] using hplain)

/-- A list of addresses whose header has a comma. In pieces, the header is still one. -/
def mailing : List (List String) := [["email, work"], ["a@x.io"]]

theorem tabSafe_mailing : TabSafe mailing := by
  refine ⟨by decide, ?_⟩
  constructor <;> decide +kernel

/-- A list of addresses in three formats. -/
theorem formats_agree_addresses :
    let text := textContents "\"email, work\"\n\"a@x.io\"\n"
    sheetRows (parse "list.csv" text) =
        sheetRows (parse "list.xlsx" ⟨"", .ok [("Sheet1", .ok mailing)]⟩) ∧
      ∀ tabs : Contents, Written '\t' mailing tabs.text →
        sheetRows (parse "list.tsv" tabs) = sheetRows (parse "list.csv" text) := by
  intro text
  have hsize : mailing.length < maxRows := by decide
  have hunbroken : Unbroken mailing := by
    unfold Unbroken Csv.Unbroken
    decide
  have hcommas : Written ',' mailing text.text := by
    have hlines : text.text.toList =
        ('"' :: (Csv.doubled "email, work".toList ++ ['"'])) ++ ['\n'] ++
          (('"' :: (Csv.doubled "a@x.io".toList ++ ['"'])) ++ ['\n'] ++ []) := by decide
    rw [Written, hlines]
    exact .cons (.single (.quoted _)) (.inl rfl) (.cons (.single (.quoted _)) (.inl rfl) .nil)
  have hcsv : toLower (ext "list.csv") = ".csv" := by decide
  have htsv : toLower (ext "list.tsv") = ".tsv" := by decide
  have hxlsx : toLower (ext "list.xlsx") = ".xlsx" := by decide
  have hworkbook : (⟨"", .ok [("Sheet1", .ok mailing)]⟩ : Contents).workbook =
      .ok [("Sheet1", .ok (getRows mailing))] := rfl
  have hagree := formats_agree hsize hunbroken hcsv htsv hxlsx hcommas hworkbook
  exact ⟨hagree.1, hagree.2.mpr tabSafe_mailing⟩

/-- With tabs between the cells, no column looks like addresses, and there are no rows. -/
theorem tabs_not_delimiters :
    (Written ',' contacts "Ann,a@x.io\nBob,b@x.io\n" ∧
      Written '\t' contacts "Ann\ta@x.io\nBob\tb@x.io\n") ∧
    sheetRows (parse "list.csv" (textContents "Ann,a@x.io\nBob,b@x.io\n")) =
      .ok [⟨"Ann", "a@x.io"⟩, ⟨"Bob", "b@x.io"⟩] ∧
    sheetRows (parse "list.tsv" (textContents "Ann\ta@x.io\nBob\tb@x.io\n")) = .ok [] := by
  refine ⟨⟨written_of_eq (by decide) (by decide), written_of_eq (by decide) (by decide)⟩, ?_, ?_⟩
  · decide +kernel
  · decide +kernel

end Ingest

end Rcptto.Native
