import Rcptto.Spec.Columns
import Rcptto.Spec.RowCap

/-!
# Formats of uploads

A table can be uploaded as text or as a workbook. The readers deliver different records: that for
text skips empty lines and the white space before a cell, and that for workbooks leaves out the
empty cells at the end of a row. Everything after them depends on the values of the cells without
the white space around them, where a missing cell is an empty one, so that the rows that are
verified are the same.

## Key results

- `Sheet.detectColumns_congr`: sheets with the same values have the same columns
- `Ingest.sheetRows_congr`: and the same rows
- `Ingest.sameTable_of_delivers`, `Ingest.sameTable_getRows`: what the readers deliver
- `Ingest.sheetRows_written`, `Ingest.sheetRows_workbook`: the rows of a table in both formats
-/

namespace Rcptto.Native

open Ingest

/-! ## Values -/

/-- The records have the same values. -/
def Alike (r r' : List String) : Prop :=
  ∀ c, trimSpace (r.getD c "") = trimSpace (r'.getD c "")

theorem Alike.refl (r : List String) : Alike r r := fun _ => rfl

/-- White space around a cell does not matter for an address. -/
theorem looksLikeEmail_congr {a b : String} (h : trimSpace a = trimSpace b) :
    looksLikeEmail a = looksLikeEmail b := by
  unfold looksLikeEmail
  rw [h]

theorem headerLooksLikeName_congr {a b : String} (h : trimSpace a = trimSpace b) :
    headerLooksLikeName a = headerLooksLikeName b := by
  unfold headerLooksLikeName
  rw [h]

/-- A test that an empty cell fails does not tell it from a missing one. -/
theorem exists_cell_iff {test : String → Bool} (h : test "" = false) (r : List String) (c : Nat) :
    (∃ cell, r[c]? = some cell ∧ test cell = true) ↔ test (r.getD c "") = true := by
  rw [List.getD_eq_getElem?_getD]
  cases r[c]? with
  | none => simp [h]
  | some cell => simp

/-- A test that fails for empty cells can be made of the values of all columns. -/
theorem any_iff {test : String → Bool} (h : test "" = false) (r : List String) :
    r.any test = true ↔ ∃ c, test (r.getD c "") = true := by
  rw [List.any_eq_true]
  constructor
  · rintro ⟨cell, hcell, htest⟩
    obtain ⟨c, hc⟩ := List.mem_iff_getElem?.mp hcell
    exact ⟨c, (exists_cell_iff h r c).mp ⟨cell, hc, htest⟩⟩
  · rintro ⟨c, hc⟩
    obtain ⟨cell, hcell, htest⟩ := (exists_cell_iff h r c).mpr hc
    exact ⟨cell, List.mem_of_getElem? hcell, htest⟩

/-- A test of values has the same result for records that are alike. -/
theorem Alike.any_eq {test : String → Bool} (h : test "" = false)
    (hcongr : ∀ a b, trimSpace a = trimSpace b → test a = test b) {r r' : List String}
    (halike : Alike r r') : r.any test = r'.any test := by
  rw [Bool.eq_iff_iff, any_iff h, any_iff h]
  exact exists_congr fun c => by rw [hcongr _ _ (halike c)]

/-- Records that are alike are blank together. -/
theorem Alike.isBlank_eq {r r' : List String} (h : Alike r r') : isBlank r = isBlank r' := by
  have hany : ∀ r, isBlank r = !r.any fun c => !decide (trimSpace c = "") := by
    intro r
    rw [isBlank, List.not_any_eq_all_not]
    simp
  rw [hany, hany, h.any_eq (by decide) fun a b hab => by rw [hab]]

theorem Alike.rowHasEmail_eq {r r' : List String} (h : Alike r r') :
    rowHasEmail r = rowHasEmail r' :=
  h.any_eq (by decide) fun _ _ => looksLikeEmail_congr

/-- Records that are alike are so after a cut. -/
theorem Alike.take {r r' : List String} (h : Alike r r') (n : Nat) :
    Alike (r.take n) (r'.take n) := by
  intro c
  rw [List.getD_eq_getElem?_getD, List.getD_eq_getElem?_getD, List.getElem?_take,
    List.getElem?_take]
  split
  · simpa [List.getD_eq_getElem?_getD] using h c
  · rfl

/-- What depends on the values only is the same for rows that are alike. -/
theorem map_eq_of_alike {β : Type} {f : List String → β} (hf : ∀ r r', Alike r r' → f r = f r')
    {rows rows' : List (List String)} (h : List.Forall₂ Alike rows rows') :
    rows.map f = rows'.map f := by
  induction h with
  | nil => rfl
  | cons hr _ ih => rw [List.map_cons, List.map_cons, hf _ _ hr, ih]

/-! ## Sheets -/

namespace Sheet

/-- The sheets have the same values. -/
structure SameValues (s t : Sheet) : Prop where
  header : Alike s.header t.header
  rows : List.Forall₂ Alike s.rows t.rows

variable {s t : Sheet}

/-- A test of the values in a column has the same results. -/
theorem SameValues.map_cell (h : s.SameValues t) {test : String → Bool} (htest : test "" = false)
    (hcongr : ∀ a b, trimSpace a = trimSpace b → test a = test b) (c : Nat) :
    (s.rows.map fun row => row[c]?.any test) = t.rows.map fun row => row[c]?.any test := by
  refine map_eq_of_alike (fun r r' halike => ?_) h.rows
  rw [Bool.eq_iff_iff, Option.any_eq_true, Option.any_eq_true, exists_cell_iff htest,
    exists_cell_iff htest, hcongr _ _ (halike c)]

/-- Sheets with the same values have the same number of addresses in each column. -/
theorem SameValues.hits_eq (h : s.SameValues t) (c : Nat) : s.hits c = t.hits c := by
  have hmap := h.map_cell (by decide) (fun _ _ => looksLikeEmail_congr) c
  have hcount : ∀ u : Sheet,
      u.hits c = (u.rows.map fun row => row[c]?.any looksLikeEmail).countP id := by
    intro u
    rw [List.countP_map]
    rfl
  rw [hcount, hcount, hmap]

theorem SameValues.mostHits_eq (h : s.SameValues t) : s.mostHits = t.mostHits := by
  ext c
  simp only [mostHits, h.hits_eq]

/-- In such sheets the same columns have the title of a label. -/
theorem SameValues.titled_eq (h : s.SameValues t) (e : Nat) : s.titled e = t.titled e := by
  ext c
  have hempty : headerLooksLikeName "" = false := by decide
  simp only [titled, Set.mem_ofPred_eq, exists_cell_iff hempty,
    headerLooksLikeName_congr (h.header c)]

/-- In such sheets the same columns have text. -/
theorem SameValues.filled_eq (h : s.SameValues t) (e : Nat) : s.filled e = t.filled e := by
  have hmem : ∀ (u : Sheet) (c : Nat), c ∈ u.filled e ↔ c < maxColumns ∧ c ≠ e ∧
      true ∈ u.rows.map fun row => row[c]?.any fun cell => !decide (trimSpace cell = "") := by
    intro u c
    simp [filled, Option.any_eq_true]
  ext c
  rw [hmem, hmem, h.map_cell (by decide) fun a b hab => by rw [hab]]

/-- So the same columns can be the labels. -/
theorem SameValues.labels {e : Nat} {l : Int} (h : s.SameValues t) (hl : s.Labels e l) :
    t.Labels e l := by
  cases hl with
  | title hl => exact .title (h.titled_eq e ▸ hl)
  | text htitled hl => exact .text (h.titled_eq e ▸ htitled) (h.filled_eq e ▸ hl)
  | none htitled hfilled => exact .none (h.titled_eq e ▸ htitled) (h.filled_eq e ▸ hfilled)

/-- Sheets with the same values have the same columns. -/
theorem detectColumns_congr (h : s.SameValues t) : s.detectColumns = t.detectColumns := by
  refine (detects_iff.mp ?_).symm
  have hdetects := s.detects_detectColumns
  generalize s.detectColumns = r at hdetects
  cases hdetects with
  | nothing hnone => exact .nothing fun c hc => h.hits_eq c ▸ hnone c hc
  | columns he hl => exact .columns (h.mostHits_eq ▸ he) (h.labels hl)

/-- `cell` gives the same text for records that are alike. -/
theorem cell_getD_eq {r r' : List String} (h : Alike r r') (col : Int) :
    (cell r col).getD "" = (cell r' col).getD "" := by
  have hcell : ∀ r, (cell r col).getD "" =
      if col < 0 then "" else trimSpace (r.getD col.toNat "") := by
    intro r
    rw [cell, List.getD_eq_getElem?_getD]
    split
    · rfl
    · cases r[col.toNat]? <;> rfl
  rw [hcell, hcell, h]

/-- The row of a record in these columns, where a missing cell is an empty one. -/
def rowIn (emailCol labelCol : Int) (row : List String) : Row :=
  { label := (cell row labelCol).getD "", email := (cell row emailCol).getD "" }

/-- `Extract` returns the rows with an address. -/
theorem extract_eq_filter (s : Sheet) (emailCol labelCol : Int) : s.extract emailCol labelCol =
    (s.rows.map (rowIn emailCol labelCol)).filter fun row => row.email ≠ "" := by
  rw [extract_eq, List.filter_map]
  congr 2
  funext row
  cases hcell : cell row emailCol <;> simp [rowIn, hcell]

/-- Sheets with the same values have the same rows in these columns. -/
theorem extract_congr (h : s.SameValues t) (emailCol labelCol : Int) :
    s.extract emailCol labelCol = t.extract emailCol labelCol := by
  have hrow : ∀ r r', Alike r r' → rowIn emailCol labelCol r = rowIn emailCol labelCol r' :=
    fun r r' halike => by simp only [rowIn, cell_getD_eq halike]
  rw [extract_eq_filter, extract_eq_filter, map_eq_of_alike hrow h.rows]

end Sheet

/-! ## Tables -/

namespace Ingest

/-- The rows that are verified if the operator confirms the columns that were detected. -/
def sheetRows (parsed : Except ParseError Sheet) : Except ParseError (List Row) :=
  parsed.map fun s => s.extract s.detectColumns.1 s.detectColumns.2

/-- Records with the same values lead to the same rows. -/
theorem sheetRows_congr {rows rows' : List (List String)} (h : List.Forall₂ Alike rows rows') :
    sheetRows (newSheet rows) = sheetRows (newSheet rows') := by
  cases h with
  | nil => rfl
  | @cons first first' rest rest' hfirst hrest =>
    -- two sheets with the same values have the same columns detected and the same rows extracted
    have hsame : ∀ s t : Sheet, s.SameValues t →
        sheetRows (if s.rows.length = 0 then .error .errNoRows else .ok s) =
          sheetRows (if t.rows.length = 0 then .error .errNoRows else .ok t) := by
      intro s t hst
      rw [hst.rows.length_eq]
      split
      · rfl
      · simp only [sheetRows, Except.map, Sheet.detectColumns_congr hst, Sheet.extract_congr hst]
    simp only [newSheet, hfirst.rowHasEmail_eq]
    refine hsame _ _ ?_
    -- the first records have an address or not together, so both sheets have a header or neither
    split
    · exact ⟨hfirst, hrest⟩
    · exact ⟨Alike.refl _, .cons hfirst hrest⟩

/-- The tables have the same values, up to blank records. -/
def SameTable (table table' : List (List String)) : Prop :=
  List.Forall₂ Alike (nonBlank table) (nonBlank table')

/-- The records that are kept are alike one by one. -/
theorem kept_congr {rows rows' : List (List String)} (h : List.Forall₂ Alike rows rows') :
    List.Forall₂ Alike (kept rows) (kept rows') := by
  induction h with
  | nil => exact .nil
  | cons hr _ ih =>
    rw [kept_cons, kept_cons, (hr.take maxColumns).isBlank_eq]
    split
    · exact ih
    · exact .cons (hr.take maxColumns) ih

theorem SameTable.kept {table table' : List (List String)} (h : SameTable table table') :
    List.Forall₂ Alike (kept table) (kept table') := by
  rw [← kept_nonBlank table, ← kept_nonBlank table']
  exact kept_congr h

theorem length_kept_le (table : List (List String)) : (kept table).length ≤ table.length := by
  rw [Ingest.kept]
  exact (List.length_filter_le _ _).trans (List.length_map _).le

/-- The rows of a small table do not depend on the reader. -/
theorem sheetRows_take {records table : List (List String)} (h : SameTable records table)
    {n : Nat} (hn : table.length ≤ n) :
    sheetRows (newSheet ((kept records).take n)) = sheetRows (newSheet (kept table)) := by
  have hlength : (kept records).length ≤ n :=
    h.kept.length_eq.trans_le ((length_kept_le table).trans hn)
  rw [List.take_of_length_le hlength]
  exact sheetRows_congr h.kept

/-! ## Readers -/

/-- A blank record on the other side is passed over. -/
theorem SameTable.skip {record : List String} {table table' : List (List String)}
    (hrecord : isBlank record = true) (h : SameTable table table') :
    SameTable table (record :: table') := by
  unfold SameTable
  rw [nonBlank_cons, if_pos hrecord]
  exact h

/-- Records that are alike are put in front of both tables. -/
theorem SameTable.cons {record record' : List String} {table table' : List (List String)}
    (hrecord : Alike record record') (h : SameTable table table') :
    SameTable (record :: table) (record' :: table') := by
  unfold SameTable
  rw [nonBlank_cons, nonBlank_cons, hrecord.isBlank_eq]
  split
  · exact h
  · exact .cons hrecord h

/-- The reader drops white space in front of a cell at most, which is trimmed anyway. -/
theorem trimSpace_of_trims {read : List Char} {cell : String}
    (h : Csv.Trims isSpace read cell.toList) : trimSpace (.ofList read) = trimSpace cell := by
  rcases h with rfl | rfl
  · rw [String.ofList_toList]
  · rw [trimSpace, trimSpace, String.toList_ofList, List.dropWhile_idempotent]

/-- So a record that is read is like the one that was written. -/
theorem alike_of_trims {read : List (List Char)} {record : List String}
    (h : List.Forall₂ (Csv.Trims isSpace) read (record.map String.toList)) :
    Alike (read.map String.ofList) record := by
  rw [List.forall₂_map_right_iff] at h
  induction h with
  | nil => exact Alike.refl _
  | cons hcell _ ih =>
    intro c
    cases c with
    | zero => exact trimSpace_of_trims hcell
    | succ c => exact ih c

/-- What the reader for text delivers. -/
theorem sameTable_of_delivers {read : List (List (List Char))} {table : List (List String)}
    (h : Csv.Delivers isSpace read (table.map fun record => record.map String.toList)) :
    SameTable (read.map fun record => record.map String.ofList) table := by
  induction table generalizing read with
  | nil =>
    cases h
    exact .nil
  | cons record table ih =>
    cases h with
    -- an empty record, or one with an empty cell only, is an empty line, which the reader passes
    -- over
    | skip hempty hrest =>
      refine SameTable.skip ?_ (ih hrest)
      rcases hempty with hempty | hempty
      · rw [List.map_eq_nil_iff.mp hempty]
        rfl
      · obtain ⟨cell, rfl, hcell⟩ := List.map_eq_singleton_iff.mp hempty
        rw [String.toList_eq_nil_iff.mp hcell]
        decide
    | cons hcells hrest => exact SameTable.cons (alike_of_trims hcells) (ih hrest)

/-- What `GetRows` returns for a worksheet with these cells: the empty ones at the end of a row are
    left out, and so are the empty rows at the end. -/
def getRows (table : List (List String)) : List (List String) :=
  (table.map (·.rdropWhile (· = ""))).rdropWhile (· = [])

/-- An empty cell at the end does not matter. -/
theorem alike_append_empty (record : List String) : Alike record (record ++ [""]) := by
  intro c
  rw [List.getD_eq_getElem?_getD, List.getD_eq_getElem?_getD, List.getElem?_append]
  split
  · rfl
  · next hc =>
    rw [List.getElem?_eq_none (Nat.le_of_not_lt hc)]
    cases c - record.length <;> rfl

/-- Nor do any number of them, which is what excelize drops. -/
theorem alike_rdropWhile (record : List String) : Alike (record.rdropWhile (· = "")) record := by
  -- by induction from the end, where the cells are dropped
  induction record using List.reverseRecOn with
  | nil => exact Alike.refl _
  | append_singleton record cell ih =>
    rw [List.rdropWhile_concat]
    split
    · next hcell =>
      rw [of_decide_eq_true hcell]
      exact fun c => (ih c).trans (alike_append_empty record c)
    · exact Alike.refl _

/-- Empty records at the end, which excelize drops too, are blank anyway. -/
theorem nonBlank_rdropWhile (table : List (List String)) :
    nonBlank (table.rdropWhile (· = [])) = nonBlank table := by
  induction table using List.reverseRecOn with
  | nil => rfl
  | append_singleton table record ih =>
    rw [List.rdropWhile_concat]
    split
    · next hrecord =>
      rw [ih, of_decide_eq_true hrecord, nonBlank, nonBlank, List.filter_append]
      exact (List.append_nil _).symm
    · rfl

/-- What the reader for workbooks delivers. -/
theorem sameTable_getRows (table : List (List String)) : SameTable (getRows table) table := by
  unfold SameTable getRows
  rw [nonBlank_rdropWhile]
  induction table with
  | nil => exact .nil
  | cons record table ih => exact SameTable.cons (alike_rdropWhile record) ih

/-! ## Formats -/

/-- The text is the table, written with this delimiter. -/
def Written (comma : Char) (table : List (List String)) (text : String) : Prop :=
  Csv.Text comma (table.map fun record => record.map String.toList) text.toList

/-- No cell has a carriage return before a newline, which the reader for text does not keep. -/
def Unbroken (table : List (List String)) : Prop :=
  ∀ record ∈ table, ∀ cell ∈ record, Csv.Unbroken cell.toList

theorem delimits_comma : Csv.Delimits ',' isSpace := by
  constructor <;> decide

/-- The rows of a table that is written with commas. -/
theorem sheetRows_written {table : List (List String)} {text : String}
    (h : Written ',' table text) (hcells : Unbroken table) (hsize : table.length ≤ maxRows + 1) :
    sheetRows (parseCSV (readCSV text)) = sheetRows (newSheet (kept table)) := by
  have hunbroken : ∀ record ∈ table.map fun record => record.map String.toList,
      ∀ cell ∈ record, Csv.Unbroken cell := by
    simpa [Unbroken] using hcells
  obtain ⟨records, hread, hdelivers⟩ := Csv.read_of_text delimits_comma h hunbroken
  rw [readCSV, hread, parseCSV_eq]
  exact sheetRows_take (sameTable_of_delivers hdelivers) hsize

/-- The rows of a table in a workbook. -/
theorem sheetRows_workbook (name : String) (table : List (List String))
    (more : List (String × Except String (List (List String)))) (hsize : table.length ≤ maxRows) :
    sheetRows (parseXLSX (.ok ((name, .ok (getRows table)) :: more))) =
      sheetRows (newSheet (kept table)) := by
  rw [parseXLSX_eq]
  exact sheetRows_take (sameTable_getRows table) hsize

end Ingest

end Rcptto.Native
