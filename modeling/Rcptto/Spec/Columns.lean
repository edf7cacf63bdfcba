import Mathlib.Order.Bounds.Basic
import Mathlib.Order.MinMax
import Rcptto.ForStd.FirstBest
import Rcptto.Native.Ingest

/-!
# Detected columns

`DetectColumns` scans the cells of a ragged sheet for the column with the most addresses, and the
header and the other columns for a label. The scans end at the width of the sheet, and nothing is to
be found behind it, so that the result does not depend on the width, but on the cells in the first
`MaxColumns` columns only.

The preview of an upload has the width of the header and of its first rows. A column that only later
rows have may be detected, and is not among those that the preview offers.

## Key results

- `Sheet.detects_iff`: what is detected, in terms of cells
- `Sheet.detectColumns_spec`: the columns, and the rows that are extracted with them
- `Web.offers_iff`: the uploads whose detected columns are offered
-/

namespace Rcptto.Native

open Ingest

namespace Sheet

variable {s : Sheet} {e : Nat}

/-! ## The width -/

/-- The loop over the rows finds the largest number of cells. -/
theorem le_foldl_width (rows : List (List String)) (w : Nat) :
    w ≤ rows.foldl (fun w row => if row.length > w then row.length else w) w ∧
      ∀ row ∈ rows,
        row.length ≤ rows.foldl (fun w row => if row.length > w then row.length else w) w := by
  -- the width so far is generalized, since it only grows
  induction rows generalizing w with
  | nil => simp
  | cons first rows ih =>
    rw [List.foldl_cons]
    obtain ⟨hle, hrows⟩ := ih (if first.length > w then first.length else w)
    have hw : w ≤ if first.length > w then first.length else w := by split <;> omega
    have hfirst : first.length ≤ if first.length > w then first.length else w := by
      split <;> omega
    refine ⟨hw.trans hle, fun row hrow => ?_⟩
    rcases List.mem_cons.mp hrow with rfl | hrow
    · exact hfirst.trans hle
    · exact hrows row hrow

/-- The columns of a record that are looked at are within the width. -/
theorem lt_width {record : List String} (h : record = s.header ∨ record ∈ s.rows) {c : Nat}
    (hc : c < record.length) (hmax : c < maxColumns) : c < s.width := by
  obtain ⟨hheader, hrows⟩ := le_foldl_width s.rows s.header.length
  refine Nat.lt_min.mpr ⟨?_, hmax⟩
  rcases h with rfl | h
  · exact hc.trans_le hheader
  · exact hc.trans_le (hrows record h)

theorem width_le_maxColumns : s.width ≤ maxColumns := min_le_right _ _

/-! ## The column of the addresses -/

/-- The columns with the most addresses. -/
def mostHits (s : Sheet) : Set Nat :=
  {c | c < maxColumns ∧ 0 < s.hits c ∧ ∀ c' < maxColumns, s.hits c' ≤ s.hits c}

/-- A column has hits if one of its cells looks like an address. -/
theorem hits_pos_iff {c : Nat} :
    0 < s.hits c ↔ ∃ row ∈ s.rows, ∃ cell, row[c]? = some cell ∧ looksLikeEmail cell = true := by
  simp [hits, List.countP_pos_iff, Option.any_eq_true]

/-- A column beyond the width has no hits. -/
theorem hits_eq_zero_of_width_le {c : Nat} (hc : c < maxColumns) (h : s.width ≤ c) :
    s.hits c = 0 := by
  by_contra hne
  obtain ⟨row, hrow, cell, hcell, -⟩ := hits_pos_iff.mp (Nat.pos_of_ne_zero hne)
  obtain ⟨hlength, -⟩ := List.getElem?_eq_some_iff.mp hcell
  exact absurd (lt_width (.inr hrow) hlength hc) (Nat.not_lt.mpr h)

/-- The first of the first `n` columns with the most addresses. -/
def bestColumn (s : Sheet) (n : Nat) : Option Nat :=
  (List.range n).firstBest (fun c => 0 < s.hits c) (fun c best => s.hits best < s.hits c)

/-- The pair that the first loop keeps for its best column. -/
def loopState (s : Sheet) : Option Nat → Nat × Int
  | none => (0, -1)
  | some c => (s.hits c, c)

/-- The first loop keeps a running best. -/
theorem emailLoop_eq (s : Sheet) (n : Nat) : s.emailLoop n = s.loopState (s.bestColumn n) := by
  show (List.range n).foldl _ (s.loopState none) = s.loopState ((List.range n).foldl _ none)
  refine List.foldl_hom s.loopState fun best c => ?_
  cases best with
  | none => by_cases hpos : 0 < s.hits c <;> simp [List.pickBest, loopState, hpos]
  | some best =>
    by_cases hbetter : s.hits best < s.hits c
    · simp [List.pickBest, loopState, hbetter, Nat.zero_lt_of_lt hbetter]
    · simp [List.pickBest, loopState, hbetter]

/-- No column before the best one has as many addresses, and none has more. -/
theorem bestColumn_spec {n : Nat} (h : s.bestColumn n = some e) :
    e < n ∧ 0 < s.hits e ∧ (∀ c < n, s.hits c ≤ s.hits e) ∧ ∀ c < e, s.hits c < s.hits e := by
  obtain ⟨hmem, hpos⟩ := List.mem_of_firstBest h
  rw [List.mem_range] at hmem
  rw [decide_eq_true_eq] at hpos
  -- more addresses is a strict weak order
  have hspec := List.firstBest_spec (by grind) (by grind) h
  simp only [List.mem_range, decide_eq_true_eq, decide_eq_false_iff_not, Nat.not_lt] at hspec
  refine ⟨hmem, hpos, fun c hc => ?_, fun c hc => ?_⟩
  · by_contra hlt
    rcases hspec c hc (by omega) (by rintro rfl; omega) with hbeats | ⟨hties, -⟩ <;> omega
  · by_contra hge
    rcases hspec c (hc.trans hmem) (by omega) hc.ne with hbeats | ⟨-, hafter⟩
    · omega
    · rw [List.idxOf_range hmem, List.idxOf_range (hc.trans hmem)] at hafter
      omega

/-- The column that the first loop finds, over all columns that may have cells. -/
theorem emailLoop_width (s : Sheet) :
    (s.emailLoop s.width).2 = -1 ∧ (∀ c < maxColumns, s.hits c = 0) ∨
      ∃ e : Nat, (s.emailLoop s.width).2 = e ∧ e < s.width ∧ IsLeast s.mostHits e := by
  rw [emailLoop_eq]
  cases hcolumn : s.bestColumn s.width with
  | none =>
    refine .inl ⟨rfl, fun c hc => ?_⟩
    rcases Nat.lt_or_ge c s.width with hlt | hge
    · have hnone := List.firstBest_eq_none.mp hcolumn c (List.mem_range.mpr hlt)
      exact Nat.eq_zero_of_not_pos (decide_eq_false_iff_not.mp hnone)
    · exact hits_eq_zero_of_width_le hc hge
  | some e =>
    obtain ⟨he, hpos, hbest, hfirst⟩ := bestColumn_spec hcolumn
    refine .inr ⟨e, rfl, he, ⟨he.trans_le width_le_maxColumns, hpos, fun c hc => ?_⟩,
      fun c hc => ?_⟩
    · rcases Nat.lt_or_ge c s.width with hlt | hge
      · exact hbest c hlt
      · rw [hits_eq_zero_of_width_le hc hge]
        exact Nat.zero_le _
    · -- a column before it would have fewer
      by_contra hlt
      have hmost := hc.2.2 e (he.trans_le width_le_maxColumns)
      exact absurd (hfirst c (Nat.not_le.mp hlt)) (Nat.not_lt.mpr hmost)

/-! ## The column of the labels -/

/-- The other columns with a title that looks like a name. -/
def titled (s : Sheet) (e : Nat) : Set Nat :=
  {c | c < maxColumns ∧ c ≠ e ∧ ∃ title, s.header[c]? = some title ∧
    headerLooksLikeName title = true}

/-- The other columns with a cell that is not blank. -/
def filled (s : Sheet) (e : Nat) : Set Nat :=
  {c | c < maxColumns ∧ c ≠ e ∧ ∃ row ∈ s.rows, ∃ cell, row[c]? = some cell ∧
    trimSpace cell ≠ ""}

/-- What a loop finds is the first element of a set. -/
def Finds (found : Option Nat) (p : Set Nat) : Prop :=
  (found = none ∧ p = ∅) ∨ ∃ c, found = some c ∧ IsLeast p c

/-- The first column that passes a test is the least one with the property. -/
theorem finds_range {n : Nat} {test : Nat → Bool} {p : Set Nat}
    (h : ∀ c, c ∈ p ↔ c < n ∧ test c = true) : Finds ((List.range n).find? test) p := by
  cases hfind : (List.range n).find? test with
  | none =>
    refine .inl ⟨rfl, Set.eq_empty_iff_forall_notMem.mpr fun c hc => ?_⟩
    obtain ⟨hlt, htest⟩ := (h c).mp hc
    exact List.find?_eq_none.mp hfind c (List.mem_range.mpr hlt) htest
  | some c =>
    obtain ⟨htest, hmem, hbefore⟩ := List.find?_range_eq_some.mp hfind
    refine .inr ⟨c, rfl, (h c).mpr ⟨List.mem_range.mp hmem, htest⟩, fun c' hc' => ?_⟩
    -- an earlier column with the property would have been found
    by_contra hlt
    have := hbefore c' (Nat.not_le.mp hlt)
    rw [((h c').mp hc').2] at this
    cases this

/-- The first title that passes a test is that of the least such column. -/
theorem finds_zipIdx {l : List String} {test : String × Nat → Bool} {p : Set Nat}
    (h : ∀ c, c ∈ p ↔ ∃ x, l[c]? = some x ∧ test (x, c) = true) :
    Finds ((l.zipIdx.find? test).map Prod.snd) p := by
  cases hfind : l.zipIdx.find? test with
  | none =>
    refine .inl ⟨rfl, Set.eq_empty_iff_forall_notMem.mpr fun c hc => ?_⟩
    obtain ⟨x, hx, htest⟩ := (h c).mp hc
    exact List.find?_eq_none.mp hfind (x, c) (List.mem_zipIdx_iff_getElem?.mpr hx) htest
  | some found =>
    obtain ⟨htest, i, hi, hget, hbefore⟩ := List.find?_eq_some_iff_getElem.mp hfind
    rw [List.length_zipIdx] at hi
    rw [List.getElem_zipIdx, Nat.zero_add] at hget
    subst hget
    refine .inr ⟨i, rfl, (h i).mpr ⟨l[i], List.getElem?_eq_getElem hi, htest⟩, fun c hc => ?_⟩
    -- an earlier title would have been found
    by_contra hlt
    obtain ⟨x, hx, hc⟩ := (h c).mp hc
    obtain ⟨hlength, rfl⟩ := List.getElem?_eq_some_iff.mp hx
    have := hbefore c (Nat.not_le.mp hlt)
    rw [List.getElem_zipIdx, Nat.zero_add, hc] at this
    cases this

/-- The second loop finds the first title that looks like a name. -/
theorem finds_titledColumn (s : Sheet) (e : Nat) :
    Finds (s.titledColumn s.width e) (s.titled e) := by
  refine finds_zipIdx fun c => ?_
  simp only [titled, Set.mem_ofPred_eq, Bool.and_eq_true, Bool.not_eq_true', Bool.or_eq_false_iff,
    decide_eq_false_iff_not, Int.natCast_inj, Nat.not_le, ge_iff_le]
  constructor
  · rintro ⟨hmax, hne, title, htitle, hname⟩
    obtain ⟨hlength, -⟩ := List.getElem?_eq_some_iff.mp htitle
    exact ⟨title, htitle, ⟨hne, lt_width (.inl rfl) hlength hmax⟩, hname⟩
  · rintro ⟨title, htitle, ⟨hne, hwidth⟩, hname⟩
    exact ⟨hwidth.trans_le width_le_maxColumns, hne, title, htitle, hname⟩

/-- The third loop finds the first column that is not blank. -/
theorem finds_filledColumn (s : Sheet) (e : Nat) :
    Finds (s.filledColumn s.width e) (s.filled e) := by
  refine finds_range fun c => ?_
  simp only [filled, Set.mem_ofPred_eq, Bool.and_eq_true, decide_eq_true_eq, ne_eq, Int.natCast_inj,
    List.any_eq_true, Option.any_eq_true]
  constructor
  · rintro ⟨hmax, hne, row, hrow, cell, hcell, hblank⟩
    obtain ⟨hlength, -⟩ := List.getElem?_eq_some_iff.mp hcell
    exact ⟨lt_width (.inr hrow) hlength hmax, hne, row, hrow, cell, hcell, hblank⟩
  · rintro ⟨hwidth, hne, row, hrow, cell, hcell, hblank⟩
    exact ⟨hwidth.trans_le width_le_maxColumns, hne, row, hrow, cell, hcell, hblank⟩

/-! ## What is detected -/

/-- The column of the labels: the first one with a title, or else the first one that is not blank,
    or none. -/
inductive Labels (s : Sheet) (e : Nat) : Int → Prop where
  | title {l : Nat} (hl : IsLeast (s.titled e) l) : Labels s e l
  | text {l : Nat} (htitled : s.titled e = ∅) (hl : IsLeast (s.filled e) l) : Labels s e l
  | none (htitled : s.titled e = ∅) (hfilled : s.filled e = ∅) : Labels s e (-1)

/-- What is detected: nothing, or the first column with the most addresses, and the labels. -/
inductive Detects (s : Sheet) : Int × Int → Prop where
  | nothing (h : ∀ c < maxColumns, s.hits c = 0) : Detects s (-1, -1)
  | columns {e : Nat} {l : Int} (he : IsLeast s.mostHits e) (hl : s.Labels e l) : Detects s (e, l)

/-- There is one label column at most. -/
theorem Labels.unique {l l' : Int} (h : s.Labels e l) (h' : s.Labels e l') : l = l' := by
  have hempty : ∀ {p : Set Nat} {c : Nat}, p = ∅ → ¬ IsLeast p c := by
    rintro p c rfl hc
    exact hc.1
  -- a title comes before a column of text, which comes before no label at all
  cases h with
  | title hl =>
    cases h' with
    | title hl' => rw [hl.unique hl']
    | text htitled _ => exact absurd hl (hempty htitled)
    | none htitled _ => exact absurd hl (hempty htitled)
  | text htitled hl =>
    cases h' with
    | title hl' => exact absurd hl' (hempty htitled)
    | text _ hl' => rw [hl.unique hl']
    | none _ hfilled => exact absurd hl (hempty hfilled)
  | none htitled hfilled =>
    cases h' with
    | title hl' => exact absurd hl' (hempty htitled)
    | text _ hl' => exact absurd hl' (hempty hfilled)
    | none _ _ => rfl

theorem Labels.ne {l : Int} (h : s.Labels e l) : l ≠ e := by
  cases h with
  | title hl => exact fun heq => hl.1.2.1 (Int.natCast_inj.mp heq)
  | text _ hl => exact fun heq => hl.1.2.1 (Int.natCast_inj.mp heq)
  | none => omega

theorem hits_ne_zero (he : IsLeast s.mostHits e) : s.hits e ≠ 0 := Nat.ne_of_gt he.1.2.1

/-- The specification leaves no choice. -/
theorem Detects.unique {r r' : Int × Int} (h : s.Detects r) (h' : s.Detects r') : r = r' := by
  -- there is an address column or there is none
  cases h with
  | nothing hnone =>
    cases h' with
    | nothing => rfl
    | columns he _ => exact absurd (hnone _ he.1.1) (hits_ne_zero he)
  | columns he hl =>
    cases h' with
    | nothing hnone => exact absurd (hnone _ he.1.1) (hits_ne_zero he)
    | columns he' hl' =>
      cases he.unique he'
      rw [hl.unique hl']

/-- `DetectColumns` meets its specification. -/
theorem detects_detectColumns (s : Sheet) : s.Detects s.detectColumns := by
  rw [detectColumns]
  dsimp only
  -- the three loops, one after the other
  rcases s.emailLoop_width with ⟨hloop, hnone⟩ | ⟨e, hloop, hwidth, he⟩
  · rw [hloop, if_pos rfl, ite_self]
    exact .nothing hnone
  · rw [if_neg (Nat.ne_zero_of_lt hwidth), hloop, if_neg (by omega)]
    rcases s.finds_titledColumn e with ⟨hfind, htitled⟩ | ⟨c, hfind, hc⟩
    · rw [hfind]
      rcases s.finds_filledColumn e with ⟨hfind, hfilled⟩ | ⟨c, hfind, hc⟩
      · rw [hfind]
        exact .columns he (.none htitled hfilled)
      · rw [hfind]
        exact .columns he (.text htitled hc)
    · rw [hfind]
      exact .columns he (.title hc)

/-- What is detected is determined by the cells. -/
theorem detects_iff {r : Int × Int} : s.Detects r ↔ s.detectColumns = r := by
  constructor
  · exact fun h => s.detects_detectColumns.unique h
  · rintro rfl
    exact s.detects_detectColumns

/-- Nothing is detected if and only if no cell that is looked at is an address. -/
theorem detectColumns_eq_nothing_iff : s.detectColumns = (-1, -1) ↔
    ∀ row ∈ s.rows, ∀ c < maxColumns, ∀ cell, row[c]? = some cell →
      looksLikeEmail cell = false := by
  have hhits : (∀ row ∈ s.rows, ∀ c < maxColumns, ∀ cell, row[c]? = some cell →
      looksLikeEmail cell = false) ↔ ∀ c < maxColumns, s.hits c = 0 := by
    constructor
    · intro h c hc
      by_contra hne
      obtain ⟨row, hrow, cell, hcell, hemail⟩ := hits_pos_iff.mp (Nat.pos_of_ne_zero hne)
      rw [h row hrow c hc cell hcell] at hemail
      cases hemail
    · intro h row hrow c hc cell hcell
      by_contra hemail
      have hpos := hits_pos_iff.mpr ⟨row, hrow, cell, hcell, Bool.not_eq_false _ ▸ hemail⟩
      exact absurd (h c hc) (Nat.ne_of_gt hpos)
  rw [hhits, ← detects_iff]
  constructor
  · intro h
    -- a column that was detected is not negative
    generalize hr : ((-1, -1) : Int × Int) = r at h
    cases h with
    | nothing hnone => exact hnone
    | columns he hl =>
      have := congrArg Prod.fst hr
      dsimp only at this
      omega
  · exact .nothing

/-- `Extract` returns one row for each data row with a value in the column of the addresses. -/
theorem extract_eq (s : Sheet) (emailCol labelCol : Int) :
    s.extract emailCol labelCol =
      (s.rows.filter fun row => (cell row emailCol).any (· ≠ "")).map fun row =>
        { label := (cell row labelCol).getD "", email := (cell row emailCol).getD "" } := by
  rw [extract, ← List.filterMap_eq_map, List.filterMap_filter]
  congr 1
  funext row
  cases hcell : cell row emailCol with
  | none => rfl
  | some email => by_cases hempty : email = "" <;> simp [hempty, hcell]

/-- Nothing is detected if and only if no cell in the first `MaxColumns` columns looks like an
    address. Otherwise the column of the addresses is the first one of these with the most of them,
    and that of the labels is another one as described. `Extract` returns, in order, one row for
    each data row with a value in the first of the two columns. -/
theorem detectColumns_spec (s : Sheet) :
    (s.detectColumns = (-1, -1) ↔
      ∀ row ∈ s.rows, ∀ c < maxColumns, ∀ cell, row[c]? = some cell →
        looksLikeEmail cell = false) ∧
    (s.detectColumns ≠ (-1, -1) → ∃ e : Nat, s.detectColumns.1 = e ∧ IsLeast s.mostHits e ∧
      s.detectColumns.2 ≠ e ∧ s.Labels e s.detectColumns.2) ∧
    s.extract s.detectColumns.1 s.detectColumns.2 =
      (s.rows.filter fun row => (cell row s.detectColumns.1).any (· ≠ "")).map fun row =>
        { label := (cell row s.detectColumns.2).getD ""
          email := (cell row s.detectColumns.1).getD "" } := by
  refine ⟨detectColumns_eq_nothing_iff, fun hne => ?_, s.extract_eq _ _⟩
  have hdetects := s.detects_detectColumns
  generalize s.detectColumns = r at hne hdetects
  cases hdetects with
  | nothing => exact absurd rfl hne
  | columns he hl => exact ⟨_, rfl, he, hl.ne, hl⟩

/-- A list with names. -/
def named : Sheet where
  header := ["id", "Name", "E-mail"]
  rows := [["1", " Ann ", "a@x.io"], ["2", "Bob"], ["3", "Cy", "c@x.io"]]

theorem detectColumns_spec_named :
    ∃ e : Nat, named.detectColumns.1 = e ∧ IsLeast named.mostHits e ∧
      named.detectColumns.2 ≠ e ∧ named.Labels e named.detectColumns.2 :=
  named.detectColumns_spec.2.1 (by decide +kernel)

/-- More cells look like an address in a column behind the first `MaxColumns` than in any other
    one, and the only title that looks like a name is there in the second sheet. -/
theorem wide_sheet_detected :
    let blanks := List.replicate 63 ""
    let s : Sheet :=
      { header := [], rows := [["a@x.io"] ++ blanks ++ ["b@x.io"], [""] ++ blanks ++ ["c@x.io"]] }
    let t : Sheet := { header := ["", ""] ++ blanks ++ ["name"], rows := [["a@x.io", "1"]] }
    (s.detectColumns = (0, -1) ∧ s.hits 0 = 1 ∧ s.hits 64 = 2) ∧
      t.detectColumns = (0, 1) ∧
      (t.header.zipIdx.filter fun (h, c) => c ≠ 0 && headerLooksLikeName h) = [("name", 65)] := by
  decide +kernel

end Sheet

/-! ## Previews -/

namespace Web

/-- What is below the largest of some numbers. -/
theorem lt_foldl_max_iff (lengths : List Nat) (w c : Nat) :
    c < lengths.foldl max w ↔ c < w ∨ ∃ n ∈ lengths, c < n := by
  induction lengths generalizing w with
  | nil => simp
  | cons n lengths ih =>
    simp only [List.foldl_cons, ih, lt_max_iff, List.mem_cons, exists_eq_or_imp, or_assoc]

/-- The columns that a preview offers are those of the header and of the first rows. -/
theorem mem_columns_iff (token : String) (u : PendingUpload) (emailCol labelCol : Int) (c : Nat) :
    c ∈ (buildPreview token u emailCol labelCol).columns ↔
      ∃ record ∈ u.sheet.header :: u.sheet.preview, c < record.length := by
  simp only [buildPreview, List.mem_range, lt_max_iff, lt_foldl_max_iff, List.mem_cons,
    exists_eq_or_imp, Nat.not_lt_zero, false_or, List.mem_map, exists_exists_and_eq_and]

/-- The preview offers the columns that were detected. -/
def UploadPreview.Offers (p : UploadPreview) : Prop :=
  ∀ col ∈ [p.emailCol, p.labelCol], col ≠ -1 → ∃ c ∈ p.columns, col = (c : Int)

/-- The columns that were detected are those of a record of the sheet. -/
theorem lt_length_of_detects {s : Sheet} {r : Int × Int} (h : s.Detects r) :
    ∀ col ∈ [r.1, r.2], col ≠ -1 →
      ∃ c : Nat, col = c ∧ ∃ record ∈ s.header :: s.rows, c < record.length := by
  have hlength : ∀ {record : List String} {c : Nat} {cell : String}, record[c]? = some cell →
      c < record.length := fun hcell => (List.getElem?_eq_some_iff.mp hcell).1
  cases h with
  | nothing => simp
  | @columns e l he hl =>
    simp only [List.forall_mem_cons, List.not_mem_nil]
    -- the address column has a cell with an address, and the label column a title or a text
    refine ⟨fun _ => ?_, fun hne => ?_, by simp⟩
    · obtain ⟨row, hrow, cell, hcell, -⟩ := Sheet.hits_pos_iff.mp he.1.2.1
      exact ⟨e, rfl, row, List.mem_cons_of_mem _ hrow, hlength hcell⟩
    · cases hl with
      | @title l hl =>
        obtain ⟨-, -, title, htitle, -⟩ := hl.1
        exact ⟨l, rfl, s.header, List.mem_cons_self, hlength htitle⟩
      | @text l _ hl =>
        obtain ⟨-, -, row, hrow, cell, hcell, -⟩ := hl.1
        exact ⟨l, rfl, row, List.mem_cons_of_mem _ hrow, hlength hcell⟩
      | none => exact absurd rfl hne

/-- What is previewed was parsed. -/
theorem handleUploadPreview_cases {quote : String → String} {csvText : Csv.Error → String}
    {jobs : Bool} {form : Except String (Option (String × Contents))} {token : Option String}
    {now : Int} {p : UploadPreview} {staged : Option (String × PendingUpload)}
    (h : handleUploadPreview quote csvText jobs form token now = (.uploadPreview p, staged)) :
    ∃ filename contents sheet token', form = .ok (some (filename, contents)) ∧
      parse filename contents = .ok sheet ∧ token = some token' ∧
      let u : PendingUpload := { filename := filename, sheet := sheet, created := now }
      p = buildPreview token' u sheet.detectColumns.1 sheet.detectColumns.2 ∧
      staged = some (token', u) := by
  -- a server without jobs, a bad form, a file that does not parse and a lack of tokens all end
  -- without a preview
  unfold handleUploadPreview at h
  split at h
  · cases h
  · split at h
    · cases h
    · cases h
    · next filename contents =>
      split at h
      · cases h
      · next sheet hparse =>
        split at h
        · cases h
        · next token' =>
          cases h
          exact ⟨filename, contents, sheet, token', rfl, hparse, rfl, rfl, rfl⟩

/-- A preview offers the columns that were detected in the sheet if and only if its header or one
    of its first rows has them. That is so if no row is longer than all of these. -/
theorem offers_iff {quote : String → String} {csvText : Csv.Error → String} {jobs : Bool}
    {form : Except String (Option (String × Contents))} {token : Option String} {now : Int}
    {p : UploadPreview} {staged : Option (String × PendingUpload)}
    (h : handleUploadPreview quote csvText jobs form token now = (.uploadPreview p, staged)) :
    ∃ filename contents sheet, form = .ok (some (filename, contents)) ∧
      parse filename contents = .ok sheet ∧ (p.emailCol, p.labelCol) = sheet.detectColumns ∧
      (p.Offers ↔ ∀ col ∈ [p.emailCol, p.labelCol], col ≠ -1 →
        ∃ record ∈ sheet.header :: sheet.preview, col < record.length) ∧
      ((∀ row ∈ sheet.rows, ∃ record ∈ sheet.header :: sheet.preview,
        row.length ≤ record.length) → p.Offers) := by
  obtain ⟨filename, contents, sheet, token', hform, hparse, -, rfl, -⟩ :=
    handleUploadPreview_cases h
  have hdetects := lt_length_of_detects sheet.detects_detectColumns
  -- a column that was detected is not negative
  have hoffered : ∀ col ∈ [sheet.detectColumns.1, sheet.detectColumns.2], col ≠ -1 →
      ((∃ c ∈ (buildPreview token' ⟨filename, sheet, now⟩ sheet.detectColumns.1
          sheet.detectColumns.2).columns, col = (c : Int)) ↔
        ∃ record ∈ sheet.header :: sheet.preview, col < record.length) := by
    intro col hcol hne
    obtain ⟨c, rfl, -⟩ := hdetects col hcol hne
    simp only [mem_columns_iff, Int.natCast_inj, Int.ofNat_lt, exists_eq_right']
  refine ⟨filename, contents, sheet, hform, hparse, rfl,
    forall₂_congr fun col hcol => forall_congr' (hoffered col hcol), fun hlengths => ?_⟩
  intro col hcol hne
  rw [hoffered col hcol hne]
  obtain ⟨c, rfl, record, hrecord, hc⟩ := hdetects col hcol hne
  rcases List.mem_cons.mp hrecord with rfl | hrow
  · exact ⟨sheet.header, List.mem_cons_self, Int.ofNat_lt.mpr hc⟩
  · obtain ⟨record', hrecord', hle⟩ := hlengths record hrow
    exact ⟨record', hrecord', Int.ofNat_lt.mpr (hc.trans_le hle)⟩

/-- A file with this text. -/
def textFile (text : String) : Except String (Option (String × Contents)) :=
  .ok (some ("list.csv", ⟨text, .error ""⟩))

/-- The columns that are offered for this text, and the two that were detected. -/
def offered (text : String) : Option (List Nat × Int × Int) :=
  match (handleUploadPreview id (fun _ => "") true (textFile text) (some "t") 0).1 with
  | .uploadPreview p => some (p.columns, p.emailCol, p.labelCol)
  | _ => none

/-- The columns of a list whose rows are as long as its header are offered. -/
theorem offers_named :
    ∃ p staged, handleUploadPreview id (fun _ => "") true
        (textFile "name,email\nAnn,a@x.io\nBob,b@x.io\n") (some "t") 0 =
      (.uploadPreview p, staged) ∧ p.Offers := by
  let sheet : Sheet :=
    { header := ["name", "email"], rows := [["Ann", "a@x.io"], ["Bob", "b@x.io"]] }
  let u : PendingUpload := { filename := "list.csv", sheet := sheet, created := 0 }
  have h : handleUploadPreview id (fun _ => "") true
      (textFile "name,email\nAnn,a@x.io\nBob,b@x.io\n") (some "t") 0 =
        (.uploadPreview (buildPreview "t" u 1 0), some ("t", u)) := by
    decide +kernel
  obtain ⟨filename, contents, sheet', hform, hparse, -, -, hoffers⟩ := offers_iff h
  cases hform
  have hsheet : parse "list.csv" ⟨"name,email\nAnn,a@x.io\nBob,b@x.io\n", .error ""⟩ =
      .ok sheet := by
    decide +kernel
  cases hsheet.symm.trans hparse
  exact ⟨_, _, h, hoffers (by decide)⟩

/-- The only address is in a row behind those that are previewed, in a column that these do not
    have. -/
theorem address_not_offered :
    offered "name\nA\nB\nC\nD\nE\nF,f@x.io\n" = some ([0], 1, 0) := by
  decide +kernel

end Web

end Rcptto.Native
