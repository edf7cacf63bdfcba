import Rcptto.Native.Ingest

/-!
# The cap on rows

Both readers stop when they have enough rows, and both count before the header is split off. The one
for text stops after one row more than `MaxRows`, as if there were always a header, and the one for
workbooks after `MaxRows` rows, as if there were none. So one row too many is kept or one row is
lost, depending on the format.

## Key results

- `Ingest.csvLoop_eq`, `Ingest.xlsxLoop_eq`: the rows that the loops keep
- `Ingest.dataRows_take_kept_iff`: when the first rows that are kept are all data records
- `Ingest.row_cap_iff`: when the readers respect the cap
-/

namespace Rcptto.Native

namespace Ingest

/-! ## Loops -/

/-- The records as the loops keep them: cut, and without the blank ones. -/
def kept (records : List (List String)) : List (List String) :=
  (records.map (·.take maxColumns)).filter (!isBlank ·)

/-- The first record is cut, and dropped if it is blank. -/
theorem kept_cons (record : List String) (records : List (List String)) :
    kept (record :: records) =
      if isBlank (record.take maxColumns) then kept records
      else record.take maxColumns :: kept records := by
  unfold kept
  rw [List.map_cons, List.filter_cons]
  cases isBlank (record.take maxColumns) <;> rfl

/-- The loop over a CSV file keeps the first `maxRows + 1` records. -/
theorem csvLoop_eq {rows : List (List String)} (records : List (List String))
    (h : rows.length ≤ maxRows + 1) :
    csvLoop none rows records = .ok ((rows ++ kept records).take (maxRows + 1)) := by
  -- by induction on the records, with the rows that the loop has so far
  induction records generalizing rows with
  | nil =>
    rw [csvLoop, show kept [] = [] from rfl, List.append_nil, List.take_of_length_le h, ite_self]
  | cons record records ih =>
    rw [csvLoop, kept_cons]
    dsimp only
    split
    · next hmore =>
      split
      · exact ih h
      · rw [ih (by rw [List.length_append, List.length_singleton]; omega), List.append_assoc,
          List.singleton_append]
    · -- the loop has ended
      rw [List.take_left' (by omega)]

/-- The loop over a worksheet keeps the first `maxRows` records. -/
theorem xlsxLoop_eq {rows : List (List String)} (records : List (List String))
    (h : rows.length ≤ maxRows) :
    xlsxLoop rows records = (rows ++ kept records).take maxRows := by
  -- by induction on the records, with the rows that the loop has so far
  induction records generalizing rows with
  | nil => rw [xlsxLoop, show kept [] = [] from rfl, List.append_nil, List.take_of_length_le h]
  | cons record records ih =>
    rw [xlsxLoop, kept_cons]
    dsimp only
    split
    · rw [List.take_left' (by omega)]
    · split
      · exact ih h
      · rw [ih (by rw [List.length_append, List.length_singleton]; omega), List.append_assoc,
          List.singleton_append]

theorem parseCSV_eq (records : List (List String)) :
    parseCSV (records, none) = newSheet ((kept records).take (maxRows + 1)) := by
  rw [parseCSV, csvLoop_eq records (Nat.zero_le _), List.nil_append]

theorem parseXLSX_eq (name : String) (records : List (List String))
    (more : List (String × Except String (List (List String)))) :
    parseXLSX (.ok ((name, .ok records) :: more)) = newSheet ((kept records).take maxRows) := by
  rw [parseXLSX, xlsxLoop_eq records (Nat.zero_le _), List.nil_append]

/-! ## Data records -/

/-- The records that are not blank. -/
def nonBlank (records : List (List String)) : List (List String) := records.filter (!isBlank ·)

/-- A blank record is not among those that are not. -/
theorem nonBlank_cons (record : List String) (records : List (List String)) :
    nonBlank (record :: records) =
      if isBlank record then nonBlank records else record :: nonBlank records := by
  unfold nonBlank
  rw [List.filter_cons]
  cases isBlank record <;> rfl

/-- Cutting a blank record leaves a blank one. -/
theorem isBlank_take {r : List String} (h : isBlank r = true) (n : Nat) :
    isBlank (r.take n) = true := by
  rw [isBlank, List.all_eq_true] at h ⊢
  exact fun cell hcell => h cell (List.mem_of_mem_take hcell)

/-- Cutting a record does not bring an address into it. -/
theorem rowHasEmail_take {r : List String} (h : rowHasEmail r = false) (n : Nat) :
    rowHasEmail (r.take n) = false := by
  rw [rowHasEmail, List.any_eq_false] at h ⊢
  exact fun cell hcell => h cell (List.mem_of_mem_take hcell)

/-- Cutting the records does not bring a blank one back. -/
theorem kept_nonBlank (table : List (List String)) : kept (nonBlank table) = kept table := by
  induction table with
  | nil => rfl
  | cons record table ih =>
    rw [nonBlank_cons]
    split
    · next hblank => rw [ih, kept_cons, if_pos (isBlank_take hblank _)]
    · rw [kept_cons, kept_cons, ih]

/-- The first record that is not blank has no cell that looks like an address. -/
def headed (records : List (List String)) : Bool :=
  (nonBlank records).head?.any (!rowHasEmail ·)

/-- The records that are not blank without the header. -/
def dataRecords (records : List (List String)) : List (List String) :=
  if headed records then (nonBlank records).tail else nonBlank records

/-- Up to `MaxRows` data records are all in the sheet, and there are never more. Without any there
    is no sheet. -/
structure Lossless (records : List (List String)) (parsed : Except ParseError Sheet) : Prop where
  complete : (dataRecords records).length ≤ maxRows →
    (dataRecords records = [] ∧ parsed = .error .errNoRows) ∨
      ∃ s, parsed = .ok s ∧ s.rows = (dataRecords records).map (·.take maxColumns)
  capped : ∀ s, parsed = .ok s → s.rows.length ≤ maxRows

/-! ## Sheets -/

/-- The rows that `newSheet` takes for data. -/
def dataRows : List (List String) → List (List String)
  | [] => []
  | first :: rest => if rowHasEmail first then first :: rest else rest

/-- `newSheet` fails only if there is no row of data. -/
theorem newSheet_eq (rows : List (List String)) : ∃ header, newSheet rows =
    if dataRows rows = [] then .error .errNoRows
    else .ok { header := header, rows := dataRows rows } := by
  cases rows with
  | nil => exact ⟨[], rfl⟩
  | cons first rest =>
    refine ⟨if rowHasEmail first then [] else first, ?_⟩
    cases hemail : rowHasEmail first <;> simp [newSheet, dataRows, hemail]

/-- The sheet of some rows is right if its data rows are the data records, unless there are too
    many of these, and if it has no more than `MaxRows` in any case. -/
theorem lossless_newSheet_iff {records rows : List (List String)} :
    Lossless records (newSheet rows) ↔
      ((dataRecords records).length ≤ maxRows →
        dataRows rows = (dataRecords records).map (·.take maxColumns)) ∧
      (dataRows rows).length ≤ maxRows := by
  obtain ⟨header, hsheet⟩ := newSheet_eq rows
  rw [hsheet]
  by_cases hnil : dataRows rows = []
  · -- there is no sheet, so there must not be a data record either
    rw [if_pos hnil, hnil]
    constructor
    · intro h
      refine ⟨fun hle => ?_, Nat.zero_le _⟩
      rcases h.complete hle with ⟨hempty, -⟩ | ⟨s, hs, -⟩
      · rw [hempty, List.map_nil]
      · cases hs
    · rintro ⟨hdata, -⟩
      refine ⟨fun hle => .inl ⟨?_, rfl⟩, fun s hs => by cases hs⟩
      exact List.map_eq_nil_iff.mp (hdata hle).symm
  · rw [if_neg hnil]
    constructor
    · intro h
      refine ⟨fun hle => ?_, h.capped _ rfl⟩
      rcases h.complete hle with ⟨-, herror⟩ | ⟨s, hs, hrows⟩
      · cases herror
      · cases hs
        exact hrows
    · rintro ⟨hdata, hcap⟩
      refine ⟨fun hle => .inr ⟨_, rfl, hdata hle⟩, fun s hs => ?_⟩
      cases hs
      exact hcap

/-- The data rows are some of the rows. -/
theorem dataRows_sublist (rows : List (List String)) : (dataRows rows).Sublist rows := by
  cases rows with
  | nil => exact .slnil
  | cons first rest =>
    rw [dataRows]
    split
    · exact List.Sublist.refl _
    · exact List.sublist_cons_self first rest

/-- No row is taken for a header if and only if the first one has an address. -/
theorem dataRows_eq_self_iff {rows : List (List String)} :
    dataRows rows = rows ↔ ∀ first ∈ rows.head?, rowHasEmail first = true := by
  cases rows with
  | nil => simp [dataRows]
  | cons first rest =>
    rw [dataRows]
    cases hemail : rowHasEmail first <;> simp [hemail]

/-! ## Cutting -/

/-- The header has a value in the columns that are read. -/
def keepsHeader (records : List (List String)) : Bool :=
  headed records && (nonBlank records).head?.any fun first => !isBlank (first.take maxColumns)

/-- What the columns that are read have of the data records: a value of each of them, and an address
    of the first one, unless a header that stays is before it. -/
structure Readable (records : List (List String)) : Prop where
  filled : ∀ d ∈ dataRecords records, isBlank (d.take maxColumns) = false
  first : keepsHeader records = false →
    ∀ d ∈ (dataRecords records).head?, rowHasEmail (d.take maxColumns) = true

/-- The rows that are kept are the header, if it stays, and the data records of which something
    stays. -/
theorem exists_kept_eq (records : List (List String)) : ∃ header, rowHasEmail header = false ∧
    kept records = (if keepsHeader records then [header] else []) ++
      ((dataRecords records).map (·.take maxColumns)).filter (!isBlank ·) := by
  rw [← kept_nonBlank]
  have hkept : ∀ rows, kept rows = (rows.map (·.take maxColumns)).filter (!isBlank ·) :=
    fun _ => rfl
  unfold keepsHeader dataRecords headed
  cases nonBlank records with
  | nil => exact ⟨[], rfl, rfl⟩
  | cons first rest =>
    -- a first record with an address is data
    cases hemail : rowHasEmail first with
    | true => exact ⟨[], rfl, by simp [hemail, hkept]⟩
    | false =>
      refine ⟨first.take maxColumns, rowHasEmail_take hemail _, ?_⟩
      rw [kept_cons]
      cases hblank : isBlank (first.take maxColumns) <;> simp [hemail, hblank, hkept]

/-- The data rows among the first `n` rows that are kept are the data records if these can be read,
    and if there is room for all of them beside the header. -/
theorem dataRows_take_kept_iff {records : List (List String)} {n : Nat} (hn : 0 < n) :
    dataRows ((kept records).take n) = (dataRecords records).map (·.take maxColumns) ↔
      Readable records ∧
        (dataRecords records).length ≤ if keepsHeader records then n - 1 else n := by
  obtain ⟨header, hheader, hkept⟩ := exists_kept_eq records
  have hfilled : (∀ row ∈ (dataRecords records).map (·.take maxColumns), (!isBlank row) = true) ↔
      ∀ d ∈ dataRecords records, isBlank (d.take maxColumns) = false := by simp
  rw [hkept]
  cases hkeeps : keepsHeader records with
  | true =>
    -- the header is split off again, and is one of the `n` rows
    obtain ⟨m, rfl⟩ : ∃ m, n = m + 1 := ⟨n - 1, by omega⟩
    rw [if_pos rfl, if_pos rfl, List.singleton_append, List.take_succ_cons, dataRows, hheader,
      if_neg (by simp), List.take_filter_eq_self_iff, hfilled, List.length_map,
      Nat.add_sub_cancel]
    refine and_congr_left' ⟨fun h => ⟨h, fun hfalse => ?_⟩, Readable.filled⟩
    rw [hkeeps] at hfalse
    cases hfalse
  | false =>
    rw [if_neg (by simp), if_neg (by simp), List.nil_append]
    have hfirst : (∀ first ∈ ((dataRecords records).map (·.take maxColumns)).head?,
        rowHasEmail first = true) ↔ ∀ d ∈ (dataRecords records).head?,
          rowHasEmail (d.take maxColumns) = true := by simp
    rw [← List.length_map (·.take maxColumns)]
    constructor
    · intro h
      -- the first row that is kept is not taken for a header, or there would be one row less
      have hself : dataRows ((((dataRecords records).map (·.take maxColumns)).filter
          (!isBlank ·)).take n) = (((dataRecords records).map (·.take maxColumns)).filter
          (!isBlank ·)).take n := by
        refine (dataRows_sublist _).eq_of_length_le ?_
        rw [h]
        exact ((List.take_sublist _ _).trans List.filter_sublist).length_le
      have htake := hself.symm.trans h
      obtain ⟨hall, hlength⟩ := List.take_filter_eq_self_iff.mp htake
      rw [htake] at hself
      exact ⟨⟨hfilled.mp hall, fun _ => hfirst.mp (dataRows_eq_self_iff.mp hself)⟩, hlength⟩
    · rintro ⟨hread, hlength⟩
      rw [List.take_filter_eq_self_iff.mpr ⟨hfilled.mpr hread.filled, hlength⟩]
      exact dataRows_eq_self_iff.mpr (hfirst.mpr (hread.first hkeeps))

/-! ## The cap -/

/-- `MaxRows` is not zero. -/
theorem maxRows_pos : 0 < maxRows := by decide

/-- There is one row too many among the first rows that are kept, with one more than the cap, if
    none of them is taken for a header. -/
theorem length_dataRows_take_le_iff {rows : List (List String)} {cap : Nat} :
    (dataRows (rows.take (cap + 1))).length ≤ cap ↔
      (rows.head?.any rowHasEmail = true → rows.length ≤ cap) := by
  cases rows with
  | nil => simp [dataRows]
  | cons first rest =>
    rw [List.take_succ_cons, dataRows]
    -- a header takes the place of the row that is too many
    cases hemail : rowHasEmail first with
    | false => simp [hemail]
    | true =>
      simp only [if_true, List.length_cons, List.length_take, List.head?_cons, Option.any_some,
        hemail, forall_const]
      omega

/-- The reader for text respects the cap if and only if the data records can be read, unless they
    are too many, and no more than `MaxRows` rows are kept if none of them is taken for a header.
    The reader for workbooks does if and only if the data records can be read, unless they are too
    many, and there are not exactly `MaxRows` of them below a header. -/
theorem row_cap_iff (records : List (List String)) (name : String)
    (more : List (String × Except String (List (List String)))) :
    (Lossless records (parseCSV (records, none)) ↔
      ((dataRecords records).length ≤ maxRows → Readable records) ∧
        ((kept records).head?.any rowHasEmail = true → (kept records).length ≤ maxRows)) ∧
    (Lossless records (parseXLSX (.ok ((name, .ok records) :: more))) ↔
      ((dataRecords records).length ≤ maxRows → Readable records ∧
        ¬ (keepsHeader records = true ∧ (dataRecords records).length = maxRows))) := by
  have hpos := maxRows_pos
  rw [parseCSV_eq, parseXLSX_eq, lossless_newSheet_iff, lossless_newSheet_iff,
    length_dataRows_take_le_iff, dataRows_take_kept_iff (Nat.succ_pos _),
    dataRows_take_kept_iff hpos]
  constructor
  · -- with one row more than the cap there is room for a header
    refine and_congr_left' (imp_congr_right fun hle => and_iff_left ?_)
    split <;> omega
  · have hcap : (dataRows ((kept records).take maxRows)).length ≤ maxRows :=
      (dataRows_sublist _).length_le.trans (List.length_take_le _ _)
    rw [and_iff_left hcap]
    refine imp_congr_right fun hle => and_congr_right' ?_
    cases keepsHeader records <;> simp <;> omega

/-- A small list with a header, in both formats. -/
theorem row_cap_small :
    let records := [["name", "email"], ["Ann", "a@x.io"]]
    Lossless records (parseCSV (records, none)) ∧
      Lossless records (parseXLSX (.ok [("Sheet1", .ok records)])) := by
  have hread : Readable [["name", "email"], ["Ann", "a@x.io"]] := ⟨by decide, by decide⟩
  obtain ⟨hcsv, hxlsx⟩ := row_cap_iff [["name", "email"], ["Ann", "a@x.io"]] "Sheet1" []
  have hdata : (dataRecords [["name", "email"], ["Ann", "a@x.io"]]).length = 1 := by decide
  refine ⟨hcsv.mpr ⟨fun _ => hread, by decide⟩, hxlsx.mpr fun _ => ⟨hread, fun h => ?_⟩⟩
  exact absurd (hdata.symm.trans h.2) (by decide)

theorem kept_replicate (n : Nat) :
    kept (List.replicate n ["a@x.io"]) = List.replicate n ["a@x.io"] := by
  rw [kept, List.map_replicate, List.filter_replicate]
  exact if_pos (by decide)

/-- A sheet of rows with one address each. -/
theorem newSheet_replicate (n : Nat) :
    newSheet (List.replicate (n + 1) ["a@x.io"]) =
        .ok { header := [], rows := List.replicate (n + 1) ["a@x.io"] } ∧
      newSheet (["email"] :: List.replicate (n + 1) ["a@x.io"]) =
        .ok { header := ["email"], rows := List.replicate (n + 1) ["a@x.io"] } := by
  have hemail : rowHasEmail ["a@x.io"] = true := by decide
  have htitle : rowHasEmail ["email"] = false := by decide
  constructor
  · simp [List.replicate_succ, newSheet, hemail]
  · simp [List.replicate_succ, newSheet, htitle]

/-- One address more than `MaxRows`, as text without a header: all are kept. `MaxRows` addresses in
    a workbook with a header: one is lost. A record with its only value behind the last column that
    is read is lost, too. -/
theorem row_cap_missed :
    (parseCSV (List.replicate (maxRows + 1) ["a@x.io"], none)).toOption.map (·.rows.length) =
      some (maxRows + 1) ∧
    (parseXLSX (.ok [("Sheet1",
      .ok (["email"] :: List.replicate maxRows ["a@x.io"]))])).toOption.map (·.rows.length) =
      some (maxRows - 1) ∧
    parseCSV ([List.replicate 64 "" ++ ["a@x.io"]], none) = .error .errNoRows := by
  obtain ⟨n, hn⟩ : ∃ n, maxRows = n + 2 := ⟨199998, rfl⟩
  refine ⟨?_, ?_, by decide⟩
  · rw [parseCSV_eq, kept_replicate, List.take_replicate, Nat.min_self, (newSheet_replicate _).1]
    simp [Except.toOption]
  · rw [parseXLSX_eq, kept_cons, if_neg (by decide), kept_replicate, hn, List.take_succ_cons,
      List.take_replicate, Nat.min_eq_left (Nat.le_succ _)]
    rw [show List.take maxColumns ["email"] = ["email"] by decide, (newSheet_replicate _).2]
    simp [Except.toOption]

end Ingest

end Rcptto.Native
