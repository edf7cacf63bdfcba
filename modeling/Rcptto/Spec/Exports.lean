import Rcptto.Native.Export
import Rcptto.Native.Strconv
import Rcptto.Spec.Formats
import Rcptto.Spec.Jobs

/-!
# Uploading an export

The file with the results of a job can be uploaded again. The readers make the rows of the export of
it, the columns are detected as they were written, and so the list that is submitted is the one of
the job.

## Key results

- `sheetRows_export`: the rows that are made of an export
- `dedup_eq_self`: a list that was deduplicated stays as it is
- `reupload`: the job that an export starts has the rows of the job it is of
-/

namespace Rcptto.Native

open Ingest

/-! ## Cells -/

/-- Only a text with an at sign looks like an address. -/
theorem looksLikeEmail_eq_false {s : String} (h : '@' ∉ s.toList) : looksLikeEmail s = false := by
  have hnone : (trimSpace s).toList.dropWhile (· ≠ '@') = [] := by
    rw [List.dropWhile_eq_nil_iff]
    intro c hc
    have hne : c ≠ '@' := by
      rintro rfl
      exact h (mem_toList_of_mem_trimSpace hc)
    simpa using hne
  simp only [looksLikeEmail, hnone]
  simp

namespace Web

/-- A character of a time. -/
def IsTimeChar (c : Char) : Prop := c.isDigit = true ∨ c ∈ ['-', 'T', ':', 'Z']

instance (c : Char) : Decidable (IsTimeChar c) := inferInstanceAs (Decidable (_ ∨ _))

/-- A padded number has digits and a sign. -/
theorem isTimeChar_padded (width : Nat) (n : Int) :
    ∀ c ∈ (padded width n).toList, IsTimeChar c := by
  intro c hc
  rw [padded, String.toList_append, List.mem_append, String.toList_ofList, List.leftpad,
    List.mem_append] at hc
  -- the sign, the padding and the digits
  rcases hc with hc | hc | hc
  · split at hc
    · rw [List.mem_singleton.mp hc]
      decide
    · simp at hc
  · rw [List.eq_of_mem_replicate hc]
    decide
  · exact .inl (Nat.isDigit_of_mem_toDigits (by decide) (by decide) hc)

/-- A time has digits and separators only. -/
theorem isTimeChar_rfc3339 (t : Int) : ∀ c ∈ (rfc3339 t).toList, IsTimeChar c := by
  have hseparators : ∀ sep ∈ ["-", "T", ":", "Z"], sep.toList.all (IsTimeChar ·) = true := by
    decide
  simp only [List.forall_mem_cons, List.all_eq_true, decide_eq_true_eq] at hseparators
  obtain ⟨hdash, hT, hcolon, hZ, -⟩ := hseparators
  simp only [rfc3339, String.toList_append, List.forall_mem_append]
  refine ⟨⟨⟨⟨⟨⟨⟨⟨⟨⟨⟨?_, hdash⟩, ?_⟩, hdash⟩, ?_⟩, hT⟩, ?_⟩, hcolon⟩, ?_⟩, hcolon⟩, ?_⟩, hZ⟩ <;>
    exact isTimeChar_padded _ _

-- the zero time, and the end of a February
example : rfc3339 0 = "0001-01-01T00:00:00Z" ∧
    rfc3339 (63087379199 * 10 ^ 9) = "2000-02-28T23:59:59Z" := by
  decide +kernel

/-! ## The table -/

variable {F : Type}

/-- The text is no address, and has no carriage return before a newline. -/
structure Inert (text : String) : Prop where
  noAt : '@' ∉ text.toList
  unbroken : Csv.Unbroken text.toList

theorem Inert.of_notMem {text : String} (hat : '@' ∉ text.toList) (hcr : '\r' ∉ text.toList) :
    Inert text where
  noAt := hat
  unbroken := .of_notMem hcr

/-- A result whose cells the readers keep, and of which only the label and the address can look like
    an address. -/
structure Writable (r : JobResult F) : Prop where
  unbroken : Csv.Unbroken r.label.toList ∧ Csv.Unbroken r.verdict.email.toList
  inert : ∀ text ∈ [r.verdict.status.toString, r.verdict.subStatus.toString, r.verdict.provider],
    Inert text

/-- A row as `dedup` leaves it. -/
structure Tidy (row : Row) : Prop where
  label : trimSpace row.label = row.label
  email : trimSpace row.email = row.email
  email_ne : row.email ≠ ""

/-- The row that a result is of. -/
def rowOf (r : JobResult F) : Row where
  label := r.label
  email := r.verdict.email

theorem inert_rfc3339 (t : Int) : Inert (rfc3339 t) := by
  have hat : ¬ IsTimeChar '@' := by decide
  have hcr : ¬ IsTimeChar '\r' := by decide
  exact .of_notMem (fun h => hat (isTimeChar_rfc3339 t _ h)) fun h => hcr (isTimeChar_rfc3339 t _ h)

theorem inert_formatBool (b : Bool) : Inert (formatBool b) := by
  cases b <;> exact .of_notMem (by decide) (by decide)

/-- All cells of a row but the label and the address are inert. -/
theorem Writable.inert_drop {r : JobResult F} (h : Writable r) :
    ∀ cell ∈ (exportRow r).drop 2, Inert cell := by
  have hrow : (exportRow r).drop 2 =
      [r.verdict.status.toString, r.verdict.subStatus.toString, r.verdict.provider] ++
      [formatBool r.verdict.checks.catchAll, formatBool r.verdict.checks.role,
        formatBool r.verdict.checks.disposable, rfc3339 r.verdict.checkedAt] := rfl
  rw [hrow, List.forall_mem_append]
  refine ⟨h.inert, ?_⟩
  simp [inert_formatBool, inert_rfc3339]

variable {results : List (JobResult F)}

/-- No cell of an export is broken by the reader, if label and address are not. -/
theorem unbroken_exportTable (h : ∀ r ∈ results, Writable r) : Unbroken (exportTable results) := by
  intro record hrecord
  rcases List.mem_cons.mp hrecord with rfl | hrecord
  · intro cell hcell
    have htitles : ∀ title ∈ exportHeader, '@' ∉ title.toList ∧ '\r' ∉ title.toList := by decide
    obtain ⟨hat, hcr⟩ := htitles cell hcell
    exact (Inert.of_notMem hat hcr).unbroken
  · obtain ⟨r, hr, rfl⟩ := List.mem_map.mp hrecord
    intro cell hcell
    -- label and address come first, and the rest is inert
    rw [← List.take_append_drop 2 (exportRow r), List.mem_append] at hcell
    rcases hcell with hcell | hcell
    · have hcells : cell = r.label ∨ cell = r.verdict.email := by simpa [exportRow] using hcell
      rcases hcells with rfl | rfl
      · exact (h r hr).unbroken.1
      · exact (h r hr).unbroken.2
    · exact ((h r hr).inert_drop cell hcell).unbroken

/-- The readers keep all rows of the table: none is too long or blank. -/
theorem kept_exportTable (results : List (JobResult F)) :
    kept (exportTable results) = exportTable results := by
  -- a flag is never blank, and there are nine columns
  have hrecord : ∀ record ∈ exportTable results,
      record.length ≤ maxColumns ∧ isBlank record = false := by
    intro record hmem
    rcases List.mem_cons.mp hmem with rfl | hmem
    · decide
    · obtain ⟨r, -, rfl⟩ := List.mem_map.mp hmem
      have hbool : trimSpace (formatBool r.verdict.checks.role) ≠ "" := by
        cases r.verdict.checks.role <;> decide
      exact ⟨show 9 ≤ maxColumns by decide, by simp [isBlank, exportRow, hbool]⟩
  have htake : (exportTable results).map (·.take maxColumns) = exportTable results := by
    conv_rhs => rw [← List.map_id (exportTable results)]
    exact List.map_congr_left fun record hmem => List.take_of_length_le (hrecord record hmem).1
  rw [kept, htake, List.filter_eq_self]
  intro record hmem
  rw [(hrecord record hmem).2, Bool.not_false]

/-- The sheet that is made of the table. -/
def exportSheet (results : List (JobResult F)) : Sheet where
  header := exportHeader
  rows := results.map exportRow

theorem newSheet_exportTable (hne : results ≠ []) :
    newSheet (exportTable results) = .ok (exportSheet results) := by
  have hheader : rowHasEmail exportHeader = false := by decide
  simp [newSheet, exportTable, exportSheet, hheader, hne]

/-! ## The columns -/

theorem hits_exportSheet_zero (results : List (JobResult F)) :
    (exportSheet results).hits 0 = results.countP fun r => looksLikeEmail r.label := by
  simp [Sheet.hits, exportSheet, List.countP_map, exportRow, Function.comp_def]

theorem hits_exportSheet_one (results : List (JobResult F)) :
    (exportSheet results).hits 1 = results.countP fun r => looksLikeEmail r.verdict.email := by
  simp [Sheet.hits, exportSheet, List.countP_map, exportRow, Function.comp_def]

/-- No column behind the first two has anything like an address. -/
theorem hits_exportSheet_add_two (h : ∀ r ∈ results, Writable r) (c : Nat) :
    (exportSheet results).hits (c + 2) = 0 := by
  rw [← Nat.le_zero, ← Nat.not_lt, Sheet.hits_pos_iff]
  rintro ⟨row, hrow, cell, hcell, hemail⟩
  obtain ⟨r, hr, rfl⟩ := List.mem_map.mp hrow
  have hmem : cell ∈ (exportRow r).drop 2 := by
    rw [Nat.add_comm, ← List.getElem?_drop] at hcell
    exact List.mem_of_getElem? hcell
  rw [looksLikeEmail_eq_false ((h r hr).inert_drop cell hmem).noAt] at hemail
  cases hemail

/-- The columns are detected as they were written. -/
theorem detectColumns_exportSheet (h : ∀ r ∈ results, Writable r)
    (hmore : results.countP (fun r => looksLikeEmail r.label) <
      results.countP fun r => looksLikeEmail r.verdict.email) :
    (exportSheet results).detectColumns = (1, 0) := by
  rw [← hits_exportSheet_zero, ← hits_exportSheet_one] at hmore
  refine Sheet.detects_iff.mp (.columns (e := 1) (l := (0 : Nat)) ⟨⟨by decide, by omega, ?_⟩, ?_⟩
    (.title ⟨⟨by decide, by decide, "client", rfl, by decide⟩, fun c _ => Nat.zero_le c⟩))
  · -- the addresses are the most, and the labels are the first column with a title
    intro c _
    match c with
    | 0 => exact hmore.le
    | 1 => exact Nat.le_refl _
    | c + 2 =>
      rw [hits_exportSheet_add_two h]
      exact Nat.zero_le _
  · rintro (_ | c) ⟨-, -, hmost⟩
    · exact absurd (hmost 1 (by decide)) (Nat.not_le.mpr hmore)
    · omega

/-- The rows are read back, if there is no white space around them. -/
theorem extract_exportSheet (h : ∀ r ∈ results, Tidy (rowOf r)) :
    (exportSheet results).extract 1 0 = results.map rowOf := by
  rw [exportSheet, Sheet.extract, List.filterMap_map, ← List.filterMap_eq_map]
  refine List.filterMap_congr fun r hr => ?_
  have hcells : Sheet.cell (exportRow r) 1 = some r.verdict.email ∧
      Sheet.cell (exportRow r) 0 = some r.label := by
    exact ⟨congrArg some (h r hr).email, congrArg some (h r hr).label⟩
  have hne : r.verdict.email ≠ "" := (h r hr).email_ne
  simp [hcells, hne, rowOf]

/-! ## Files -/

/-- The extension of a file. -/
theorem ext_append (name : String) {e : String} (hslash : '/' ∉ e.toList)
    (hdot : '.' ∉ e.toList) :
    ext (name ++ "." ++ e) = "." ++ e := by
  -- the extension has neither a slash nor a dot, so looking for one from the end leads in front of
  -- it
  have hrtake : ∀ (l : List Char) (p : Char → Bool), (∀ c ∈ e.toList, p c = true) →
      (l ++ ['.'] ++ e.toList).rtakeWhile p = (l ++ ['.']).rtakeWhile p ++ e.toList := by
    intro l p hp
    rw [List.rtakeWhile, List.reverse_append, List.takeWhile_append_of_pos (by simpa using hp),
      List.reverse_append, List.reverse_reverse, List.rtakeWhile]
  have hother : ∀ {d : Char}, d ∉ e.toList → ∀ c ∈ e.toList, decide (c ≠ d) = true :=
    fun hd c hc => decide_eq_true fun heq => hd (heq ▸ hc)
  have hbase : (name ++ "." ++ e).toList.rtakeWhile (· ≠ '/') =
      name.toList.rtakeWhile (· ≠ '/') ++ ['.'] ++ e.toList := by
    rw [String.toList_append, String.toList_append, show ".".toList = ['.'] from rfl,
      hrtake _ _ (hother hslash), List.rtakeWhile_concat_pos _ _ _ rfl]
  have hext := hrtake (name.toList.rtakeWhile (· ≠ '/')) (· ≠ '.')
    (hother hdot)
  rw [List.rtakeWhile_concat_neg _ _ _ (by decide), List.nil_append] at hext
  rw [ext, hbase, hext, if_pos (by simp)]
  apply String.toList_inj.mp
  simp

/-- The contents of an uploaded file that holds an export. -/
def Holds (contents : Contents) : ExportFile → Prop
  | .csv text => contents.text = text
  | .xlsx table => ∃ name more, contents.workbook = .ok ((name, .ok (getRows table)) :: more)

/-- The rows that are made of an export, in either format. -/
theorem sheetRows_export {results : List (JobResult F)} (h : ∀ r ∈ results, Writable r)
    (htidy : ∀ r ∈ results, Tidy (rowOf r))
    (hmore : results.countP (fun r => looksLikeEmail r.label) <
      results.countP fun r => looksLikeEmail r.verdict.email) (hsize : results.length < maxRows)
    (contents : Contents) (name : String) :
    (Holds contents (writeResultsCSV results) →
      sheetRows (parse (name ++ ".csv") contents) = .ok (results.map rowOf)) ∧
    (Holds contents (writeResultsXLSX results) →
      sheetRows (parse (name ++ ".xlsx") contents) = .ok (results.map rowOf)) := by
  have hne : results ≠ [] := by
    rintro rfl
    cases hmore
  -- both formats hold the same table, and what is left is to read it
  have htable : sheetRows (newSheet (kept (exportTable results))) = .ok (results.map rowOf) := by
    rw [kept_exportTable, newSheet_exportTable hne, sheetRows, Except.map,
      detectColumns_exportSheet h hmore, extract_exportSheet htidy]
  have hlength : (exportTable results).length ≤ maxRows := by
    rw [exportTable, List.length_cons, List.length_map]
    exact hsize
  have hcsv : ext (name ++ ".csv") = ".csv" := by
    rw [show ".csv" = "." ++ "csv" by decide, ← String.append_assoc]
    exact ext_append name (by decide) (by decide)
  have hxlsx : ext (name ++ ".xlsx") = ".xlsx" := by
    rw [show ".xlsx" = "." ++ "xlsx" by decide, ← String.append_assoc]
    exact ext_append name (by decide) (by decide)
  constructor
  · intro hholds
    have hwritten : Written ',' (exportTable results) contents.text := by
      rw [show contents.text = _ from hholds, Written, String.toList_ofList]
      exact Csv.text_write _
    rw [parse, hcsv, if_pos (by decide),
      sheetRows_written hwritten (unbroken_exportTable h) (by omega), htable]
  · rintro ⟨sheet, more, hworkbook⟩
    rw [parse, hxlsx, if_neg (by decide), if_pos (by decide), hworkbook,
      sheetRows_workbook sheet _ more hlength, htable]

end Web

/-! ## Deduplication -/

section Dedup

variable {lower : String → String} {rows : List Row}

/-- The key of a row in the loop of `dedup`. -/
def dedupKey (lower : String → String) (row : Row) : String :=
  lower row.label ++ "\x00" ++ lower row.email

/-- What `dedup` keeps is tidy and has no key twice. -/
theorem dedupLoop_spec (lower : String → String) (seen : List String) (rows : List Row) :
    (∀ row ∈ dedupLoop lower seen rows, Web.Tidy row ∧ dedupKey lower row ∉ seen) ∧
      ((dedupLoop lower seen rows).map (dedupKey lower)).Nodup := by
  -- by induction on the rows: an empty address and a pair that was seen are passed over
  induction rows generalizing seen with
  | nil => simp [dedupLoop]
  | cons row rows ih =>
    rw [dedupLoop]
    dsimp only
    split
    · exact ih seen
    · next hne =>
      split
      · exact ih seen
      · next hkey =>
        obtain ⟨hrows, hnodup⟩ := ih
          ((lower (trimSpace row.label) ++ "\x00" ++ lower (trimSpace row.email)) :: seen)
        refine ⟨?_, ?_⟩
        · rw [List.forall_mem_cons]
          refine ⟨⟨⟨trimSpace_trimSpace _, trimSpace_trimSpace _, hne⟩, hkey⟩, fun row' hrow' => ?_⟩
          obtain ⟨hrow, hfresh⟩ := hrows row' hrow'
          exact ⟨hrow, fun hmem => hfresh (List.mem_cons_of_mem _ hmem)⟩
        · rw [List.map_cons, List.nodup_cons, List.mem_map]
          refine ⟨?_, hnodup⟩
          rintro ⟨row', hrow', heq⟩
          exact (hrows row' hrow').2 (heq ▸ List.mem_cons_self)

/-- A list of tidy rows without a key twice stays as it is. -/
theorem dedup_eq_self (htidy : ∀ row ∈ rows, Web.Tidy row)
    (hnodup : (rows.map (dedupKey lower)).Nodup) : dedup lower rows = rows := by
  -- no row is passed over, as long as none of the rest was seen
  have hloop : ∀ (rows : List Row) (seen : List String), (∀ row ∈ rows, Web.Tidy row) →
      (rows.map (dedupKey lower)).Nodup → (∀ row ∈ rows, dedupKey lower row ∉ seen) →
      dedupLoop lower seen rows = rows := by
    intro rows
    induction rows with
    | nil => intro seen _ _ _; rfl
    | cons row rows ih =>
      intro seen htidy hnodup hseen
      rw [List.forall_mem_cons] at htidy hseen
      rw [List.map_cons, List.nodup_cons, List.mem_map] at hnodup
      obtain ⟨hlabel, hemail, hne⟩ := htidy.1
      have hkey : lower row.label ++ "\x00" ++ lower row.email ∉ seen := hseen.1
      rw [dedupLoop]
      simp only [hlabel, hemail]
      rw [if_neg hne, if_neg hkey, ih _ htidy.2 hnodup.2]
      intro row' hrow' hmem
      rcases List.mem_cons.mp hmem with heq | hmem
      · exact hnodup.1 ⟨row', hrow', heq⟩
      · exact hseen.2 row' hrow' hmem
  exact hloop rows [] htidy hnodup fun _ _ => List.not_mem_nil

/-- The addresses to verify are addresses of rows. -/
theorem exists_row_of_mem_order {email : String} (h : email ∈ (group lower rows).order) :
    ∃ row ∈ rows, row.email = email := by
  -- the last row is grouped last
  induction rows using List.reverseRecOn with
  | nil => cases h
  | append_singleton rows row ih =>
    rw [group_snoc, Grouping.add] at h
    dsimp only at h
    split at h
    · rcases List.mem_append.mp h with h | h
      · obtain ⟨row', hrow', rfl⟩ := ih h
        exact ⟨row', List.mem_append_left _ hrow', rfl⟩
      · exact ⟨row, by simp, (List.mem_singleton.mp h).symm⟩
    · obtain ⟨row', hrow', rfl⟩ := ih h
      exact ⟨row', List.mem_append_left _ hrow', rfl⟩

end Dedup

/-! ## From job to job -/

section Reupload

variable {F : Type} [OfScientific F] {r : Runner} {lower : String → String} {rows : List Row}
  {b : Batch} {as : List (JobAction F)} {s : JobRun F}

/-- What `Submit` accepts. -/
theorem rows_of_submit (h : r.submit lower rows = .ok b) : b.lower = lower ∧
    b.rows = dedup lower rows ∧ b.rows.length ≤ r.maxEmails := by
  unfold Runner.submit at h
  split at h
  · cases h
  · split at h
    · cases h
    · next hlength =>
      cases h
      exact ⟨rfl, rfl, Nat.not_lt.mp hlength⟩

/-- `Submit` accepts rows that are left and not too many. -/
theorem exists_submit (hne : dedup lower rows ≠ [])
    (hlength : (dedup lower rows).length ≤ r.maxEmails) :
    ∃ b, r.submit lower rows = .ok b ∧ b.rows = dedup lower rows := by
  unfold Runner.submit
  rw [dif_neg hne, if_neg (Nat.not_lt.mpr hlength)]
  exact ⟨_, rfl, rfl⟩

/-- What the results of a job are, if the verdicts are about the addresses that were verified: the
    labels and the addresses of the rows, up to the case of the addresses. -/
theorem Books.results_pairs (hbooks : Books b as s) (hidle : s.Idle b)
    (hnames : ∀ p ∈ verdicts as, p.2.email = p.1) :
    (s.results.map fun r => (r.label, b.lower r.verdict.email)).Perm
      (b.rows.map fun row => (row.label, b.lower row.email)) := by
  have hperm := hbooks.results_perm hidle
  have hpairs := hperm.map fun x => (x.1, x.2.map fun v => b.lower v.email)
  rw [List.map_map, List.map_map] at hpairs
  -- the verdict for a row was found under its address
  have hrow : ∀ row ∈ b.rows, (verdictOf b.lower as (b.lower row.email)).map
      (fun v => b.lower v.email) = some (b.lower row.email) := by
    intro row hrow
    have hmem := hperm.mem_iff.mpr (List.mem_map.mpr ⟨row, hrow, rfl⟩)
    obtain ⟨r, -, hr⟩ := List.mem_map.mp hmem
    have hverdict : verdictOf b.lower as (b.lower row.email) = some r.verdict :=
      (congrArg Prod.snd hr).symm
    obtain ⟨p, hp, hpv⟩ := Option.map_eq_some_iff.mp
      ((verdictOf_eq_find b.lower as (b.lower row.email)).symm.trans hverdict)
    have hkey : b.lower p.1 = b.lower row.email := by simpa using List.find?_some hp
    rw [hverdict, Option.map_some, ← hpv, hnames p (List.mem_of_find?_eq_some hp), hkey]
  have hsome := hpairs.map fun x => (x.1, x.2.getD "")
  rw [List.map_map, List.map_map] at hsome
  refine hsome.trans (List.Perm.of_eq (List.map_congr_left fun row hmem => ?_))
  simp only [Function.comp_apply, hrow row hmem, Option.getD_some]

/-- Every result has the label of a row and the address of a row. -/
theorem Books.results_rows (hbooks : Books b as s) (hidle : s.Idle b)
    (hnames : ∀ p ∈ verdicts as, p.2.email = p.1) {res : JobResult F} (hres : res ∈ s.results) :
    (∃ row ∈ b.rows, row.label = res.label) ∧ ∃ row ∈ b.rows, row.email = res.verdict.email := by
  obtain ⟨haddr, -, hresults⟩ := hbooks.of_idle hidle
  -- the results are the labels of the addresses that were verified
  have hmem : res ∈ (verdicts as : Multiset (String × Verdict F)).bind
      fun p => recorded p.2 (b.labels p.1) := hresults ▸ Multiset.mem_coe.mpr hres
  obtain ⟨p, hp, hrec⟩ := Multiset.mem_bind.mp hmem
  obtain ⟨label, hlabel, rfl⟩ := Multiset.mem_map.mp hrec
  constructor
  · rw [Multiset.mem_coe, b.labels_eq] at hlabel
    obtain ⟨row, hrow, rfl⟩ := List.mem_map.mp hlabel
    exact ⟨row, (List.mem_filter.mp hrow).1, rfl⟩
  · have horder : p.1 ∈ b.order := haddr.mem_iff.mp (List.mem_map_of_mem hp)
    obtain ⟨row, hrow, hemail⟩ := exists_row_of_mem_order horder
    exact ⟨row, hrow, hemail.trans (hnames p hp).symm⟩

/-- The results of a job have no white space around label and address. -/
theorem Books.tidy_results (hbooks : Books b as s) (hidle : s.Idle b)
    (hnames : ∀ p ∈ verdicts as, p.2.email = p.1) (hrows : ∀ row ∈ b.rows, Web.Tidy row)
    {res : JobResult F} (hres : res ∈ s.results) : Web.Tidy (Web.rowOf res) := by
  obtain ⟨⟨row, hrow, hlabel⟩, row', hrow', hemail⟩ := hbooks.results_rows hidle hnames hres
  refine ⟨?_, ?_, ?_⟩
  · show trimSpace res.label = res.label
    rw [← hlabel, (hrows row hrow).label]
  · show trimSpace res.verdict.email = res.verdict.email
    rw [← hemail, (hrows row' hrow').email]
  · show res.verdict.email ≠ ""
    rw [← hemail]
    exact (hrows row' hrow').email_ne

omit [OfScientific F] in
/-- The files that are exported of all results. -/
theorem Web.handleJobExport_all {errText : JobStoreError → String} {id format name : String}
    {file : Web.ExportFile} {results : List (JobResult F)}
    (h : Web.handleJobExport errText true id format "" (.ok ()) (.ok results) = .file name file) :
    (name = "rcptto-" ++ id ++ ".csv" ∧ file = Web.writeResultsCSV results) ∨
      (name = "rcptto-" ++ id ++ ".xlsx" ∧ file = Web.writeResultsXLSX results) := by
  simp only [Web.handleJobExport, Web.Bucket.ofQuery, Bool.not_true, Bool.false_eq_true, if_false,
    if_true, ne_eq, not_true_eq_false, Web.filterBucket] at h
  split_ifs at h <;> cases h
  · exact .inl ⟨rfl, rfl⟩
  · exact .inr ⟨rfl, rfl⟩

/-- The rows of the detected columns are confirmed, if one of them looks like an address. -/
theorem Web.confirmRows_detected {sheet : Sheet} {extracted : List Row}
    (h : sheet.extract sheet.detectColumns.1 sheet.detectColumns.2 = extracted)
    (hemail : ∃ row ∈ extracted, looksLikeEmail row.email = true) (token name : String)
    (now : Int) :
    Web.confirmRows ⟨token, some sheet.detectColumns.1, some sheet.detectColumns.2⟩
      ⟨name, sheet, now⟩ = .ok extracted := by
  obtain ⟨row, hrow, hlooks⟩ := hemail
  -- a column has been detected, since there are rows
  have hcol : 0 ≤ sheet.detectColumns.1 := by
    by_contra hneg
    have hempty : sheet.extract sheet.detectColumns.1 sheet.detectColumns.2 = [] := by
      simp [Sheet.extract, Sheet.cell, Int.not_le.mp hneg]
    rw [← h, hempty] at hrow
    cases hrow
  have hne : extracted.length ≠ 0 := List.length_eq_zero_iff.not.mpr (List.ne_nil_of_mem hrow)
  have hsome : (extracted.filter fun e => looksLikeEmail e.email).length ≠ 0 :=
    List.length_eq_zero_iff.not.mpr (List.ne_nil_of_mem (List.mem_filter.mpr ⟨hrow, hlooks⟩))
  simp only [Web.confirmRows, Option.filter_some, hcol, decide_true, if_true, Option.getD_some, h,
    if_neg hne, if_neg hsome]

end Reupload

/-- A list of one address. -/
def annRows : List Row := [⟨"Ann", "a@x.io"⟩]

def annBatch : Batch where
  lower := id
  rows := annRows
  concurrency := 1
  rows_ne_nil := by simp [annRows]
  concurrency_pos := Nat.one_pos

/-- A job with one address. -/
theorem submit_ann : (Runner.new 1 0).submit id annRows = .ok annBatch := by
  have hdedup : dedup id annRows = annRows := by decide +kernel
  unfold Runner.submit
  rw [dif_neg (by rw [hdedup]; exact annBatch.rows_ne_nil),
    if_neg (by rw [hdedup]; decide +kernel)]
  simp only [hdedup]
  rfl

/-- The job for `annRows` when the address was verified, without success. -/
def annDone : JobRun ℚ where
  entry := some
    { job := { status := .completed, total := 1, done := 1, createdAt := 0, completedAt := some 6 }
      results := [⟨"Ann", outcome "a@x.io" 5 none⟩] }
  registered := true
  phase := .waiting

def annActions : List (JobAction ℚ) :=
  [.createJob 0, .register, .dispatch, .verify 0 "a@x.io", .verified 0 "a@x.io" none 5, .append 0 6,
    .release 0, .exit 0, .drain]

/-- The job of the sample runs to its end. -/
theorem runs_annDone : JobRun.Runs annBatch {} annActions annDone := by
  have horder : annBatch.order = ["a@x.io"] := by decide +kernel
  have hlabels : annBatch.labels "a@x.io" = ["Ann"] := by decide +kernel
  refine .cons ⟨rfl, rfl⟩ (.cons ⟨rfl, rfl⟩ ?_)
  rw [horder]
  refine .cons ⟨"a@x.io", [], rfl, by decide, rfl⟩ (.cons ⟨rfl, rfl⟩ (.cons ⟨rfl, rfl⟩ ?_))
  rw [hlabels]
  exact .cons ⟨_, "Ann", [], rfl, rfl⟩ (.cons ⟨_, rfl, rfl⟩ (.cons ⟨rfl, rfl⟩
    (.cons ⟨rfl, rfl⟩ (.nil _))))

/-- The export of `annDone`. -/
def annFile : Contents where
  text := .ofList (Csv.write ',' isSpace
    ((Web.exportTable annDone.results).map fun record => record.map String.toList))
  workbook := .error ""

end Rcptto.Native
