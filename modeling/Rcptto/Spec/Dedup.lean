import Rcptto.ForStd.List
import Rcptto.Native.Jobs

/-!
# Deduplication of rows

`dedup` compares rows by one string, the label and the address in lower case with a NUL between
them. That is the comparison of the pairs as long as there is no NUL in the labels.

## Key results

- `dedup_eq_map_filterAfter`: what `dedup` keeps
- `key_eq_iff`: the rows with the same key
- `dedup_eq_distinct_iff`: when it keeps the first row of each pair
-/

namespace Rcptto.Native

/-! ## Definitions -/

/-- `strings.ToLower`, which maps the characters one by one. -/
def lowerWith (f : Char → Char) (s : String) : String := .ofList (s.toList.map f)

namespace Row

/-- The row with trimmed fields. -/
def trimmed (row : Row) : Row := { label := trimSpace row.label, email := trimSpace row.email }

/-- The row has no address. -/
def Blank (row : Row) : Prop := trimSpace row.email = ""

instance (row : Row) : Decidable row.Blank := inferInstanceAs (Decidable (_ = _))

variable (f : Char → Char)

/-- The label and the address of a row, trimmed and in lower case. -/
def pair (row : Row) : String × String :=
  (lowerWith f (trimSpace row.label), lowerWith f (trimSpace row.email))

/-- The key of a row in the loop of `dedup`. -/
def key (row : Row) : String := (row.pair f).1 ++ "\x00" ++ (row.pair f).2

end Row

/-- The row has an address, and no earlier one has the same pair. -/
def isFirst (f : Char → Char) (before : List Row) (row : Row) : Bool :=
  decide (¬ row.Blank ∧ ∀ earlier ∈ before, earlier.pair f ≠ row.pair f)

/-- The rows that should be kept: of the rows with an address the first of each pair. -/
def distinct (f : Char → Char) (rows : List Row) : List Row :=
  (List.filterAfter (isFirst f) [] rows).map Row.trimmed

/-- The pairs differ in where a NUL separates the label from the address. -/
def Confusable (p q : String × String) : Prop :=
  (∃ mid, q.1 = p.1 ++ "\x00" ++ mid ∧ p.2 = mid ++ "\x00" ++ q.2) ∨
    ∃ mid, p.1 = q.1 ++ "\x00" ++ mid ∧ q.2 = mid ++ "\x00" ++ p.2

/-- Some row is the first of its pair, and the pair is confusable with that of an earlier row. -/
def Clash (f : Char → Char) (rows : List Row) : Prop :=
  ∃ before row after, rows = before ++ row :: after ∧ ¬ row.Blank ∧
    (∀ earlier ∈ before, earlier.pair f ≠ row.pair f) ∧
    ∃ earlier ∈ before, ¬ earlier.Blank ∧ Confusable (earlier.pair f) (row.pair f)

/-! ## Keys -/

theorem lowerWith_eq_empty_iff (f : Char → Char) (s : String) : lowerWith f s = "" ↔ s = "" := by
  have hs : s = "" ↔ s.toList = "".toList := String.toList_inj.symm
  rw [hs, ← String.toList_inj]
  simp [lowerWith]

/-- A row without an address has the pair of no row with one. -/
theorem Row.pair_ne_of_blank {f : Char → Char} {row earlier : Row} (h : ¬ row.Blank)
    (hblank : earlier.Blank) : earlier.pair f ≠ row.pair f := by
  intro heq
  have hempty : (earlier.pair f).2 = "" := (lowerWith_eq_empty_iff f _).mpr hblank
  rw [heq] at hempty
  exact h ((lowerWith_eq_empty_iff f _).mp hempty)

/-- Rows have the same key if they have the same pair or confusable ones. -/
theorem Row.key_eq_iff {f : Char → Char} {row row' : Row} :
    row.key f = row'.key f ↔
      row.pair f = row'.pair f ∨ Confusable (row.pair f) (row'.pair f) := by
  have hnul : ∀ s t : String, (s ++ "\x00" ++ t).toList = s.toList ++ '\x00' :: t.toList := by
    simp
  -- one pair is cut at an earlier NUL of the key, with `mid` between the two
  have hmid : ∀ {s t s' t' : String},
      (∃ mid, s'.toList = s.toList ++ '\x00' :: mid ∧ t.toList = mid ++ '\x00' :: t'.toList) ↔
        ∃ mid, s' = s ++ "\x00" ++ mid ∧ t = mid ++ "\x00" ++ t' := by
    intro s t s' t'
    simp only [← String.toList_inj, hnul]
    exact ⟨fun ⟨mid, h⟩ => ⟨.ofList mid, by simpa using h⟩, fun ⟨mid, h⟩ => ⟨mid.toList, h⟩⟩
  rw [key, key, ← String.toList_inj, hnul, hnul, List.append_cons_eq_append_cons_iff, hmid, hmid,
    String.toList_inj, String.toList_inj, ← Prod.ext_iff]
  rfl

/-! ## What the loop keeps -/

/-- The row has an address, and no earlier one has the same key. -/
def unseen (f : Char → Char) (before : List Row) (row : Row) : Bool :=
  decide (¬ row.Blank ∧ ∀ earlier ∈ before, ¬ earlier.Blank → earlier.key f ≠ row.key f)

/-- One row of the loop. -/
theorem dedupLoop_cons (f : Char → Char) (seen : List String) (row : Row) (rows : List Row) :
    dedupLoop (lowerWith f) seen (row :: rows) =
      if row.Blank then dedupLoop (lowerWith f) seen rows
      else if row.key f ∈ seen then dedupLoop (lowerWith f) seen rows
      else row.trimmed :: dedupLoop (lowerWith f) (row.key f :: seen) rows :=
  rfl

/-- The loop keeps the rows with an address and a new key; `seen` holds the keys of the rows with
    an address that came before. -/
theorem dedupLoop_eq {f : Char → Char} {before : List Row} {seen : List String}
    (hseen : ∀ k, k ∈ seen ↔ ∃ earlier ∈ before, ¬ earlier.Blank ∧ earlier.key f = k)
    (rows : List Row) :
    dedupLoop (lowerWith f) seen rows =
      (List.filterAfter (unseen f) before rows).map Row.trimmed := by
  induction rows generalizing before seen with
  | nil => rfl
  | cons row rows ih =>
    have hmore : ∀ k, (∃ earlier ∈ before ++ [row], ¬ earlier.Blank ∧ earlier.key f = k) ↔
        k ∈ seen ∨ ¬ row.Blank ∧ row.key f = k := by
      intro k
      rw [hseen]
      simp [or_and_right, exists_or]
    rw [dedupLoop_cons, List.filterAfter]
    by_cases hblank : row.Blank
    · have hdrop : unseen f before row = false := decide_eq_false fun h => h.1 hblank
      rw [if_pos hblank, hdrop, if_neg (by simp)]
      refine ih fun k => ?_
      rw [hmore]
      simp [hblank]
    rw [if_neg hblank]
    by_cases hkey : row.key f ∈ seen
    · -- a row with this key came before
      obtain ⟨earlier, hearlier, hne, heq⟩ := (hseen _).mp hkey
      have hdrop : unseen f before row = false :=
        decide_eq_false fun h => h.2 earlier hearlier hne heq
      rw [if_pos hkey, hdrop, if_neg (by simp)]
      refine ih fun k => ?_
      rw [hmore]
      exact ⟨.inl, fun h => h.elim id fun h => h.2 ▸ hkey⟩
    · have hkeep : unseen f before row = true :=
        decide_eq_true ⟨hblank, fun earlier hearlier hne heq =>
          hkey ((hseen _).mpr ⟨earlier, hearlier, hne, heq⟩)⟩
      rw [if_neg hkey, hkeep, if_pos rfl, List.map_cons]
      congr 1
      refine ih fun k => ?_
      rw [hmore, List.mem_cons]
      simp [hblank, or_comm, eq_comm]

theorem dedup_eq_map_filterAfter (f : Char → Char) (rows : List Row) :
    dedup (lowerWith f) rows = (List.filterAfter (unseen f) [] rows).map Row.trimmed :=
  dedupLoop_eq (by simp) rows

/-! ## Exactness -/

/-- A row whose key is new has a new pair. -/
theorem isFirst_of_unseen {f : Char → Char} (before : List Row) (row : Row)
    (h : unseen f before row = true) : isFirst f before row = true := by
  obtain ⟨hblank, hkeys⟩ := of_decide_eq_true h
  refine decide_eq_true ⟨hblank, fun earlier hearlier heq => ?_⟩
  have hne : ¬ earlier.Blank := fun hempty => Row.pair_ne_of_blank hblank hempty heq
  exact hkeys earlier hearlier hne (Row.key_eq_iff.mpr (.inl heq))

/-- The loop misses a row that is the first of its pair if the pair is confusable. -/
theorem not_unseen_iff {f : Char → Char} {before : List Row} {row : Row} (hblank : ¬ row.Blank)
    (hfirst : ∀ earlier ∈ before, earlier.pair f ≠ row.pair f) :
    ¬ unseen f before row = true ↔
      ∃ earlier ∈ before, ¬ earlier.Blank ∧ Confusable (earlier.pair f) (row.pair f) := by
  unfold unseen
  rw [decide_eq_true_eq]
  push Not
  constructor
  · intro h
    obtain ⟨earlier, hearlier, hne, heq⟩ := h hblank
    refine ⟨earlier, hearlier, hne, ?_⟩
    exact (Row.key_eq_iff.mp heq).resolve_left (hfirst earlier hearlier)
  · rintro ⟨earlier, hearlier, hne, hconfusable⟩ -
    exact ⟨earlier, hearlier, hne, Row.key_eq_iff.mpr (.inr hconfusable)⟩

/-- A label without a NUL is where its separator ends it. -/
theorem not_confusable {p q : String × String} (hp : '\x00' ∉ p.1.toList)
    (hq : '\x00' ∉ q.1.toList) : ¬ Confusable p q := by
  rintro (⟨mid, h, -⟩ | ⟨mid, h, -⟩)
  · exact hq (by simp [h])
  · exact hp (by simp [h])

/-- `dedup` keeps exactly the first row of each pair, in order and trimmed, if and only if no such
    row has a pair that is confusable with an earlier one. That is so if there is no NUL in the
    labels. -/
theorem dedup_eq_distinct_iff (f : Char → Char) (rows : List Row) :
    (dedup (lowerWith f) rows = distinct f rows ↔ ¬ Clash f rows) ∧
    ((∀ row ∈ rows, '\x00' ∉ (row.pair f).1.toList) → ¬ Clash f rows) := by
  refine ⟨?_, ?_⟩
  · -- both are filters that look at the rows before
    rw [dedup_eq_map_filterAfter, distinct, List.map_filterAfter_eq_iff _ isFirst_of_unseen]
    constructor
    · rintro hall ⟨before, row, after, hrows, hblank, hfirst, hclash⟩
      exact (not_unseen_iff hblank hfirst).mpr hclash
        (hall before row after hrows (decide_eq_true ⟨hblank, hfirst⟩))
    · intro hnot before row after hrows hkept
      obtain ⟨hblank, hfirst⟩ := of_decide_eq_true hkept
      by_contra hmissed
      exact hnot ⟨before, row, after, hrows, hblank, hfirst,
        (not_unseen_iff hblank hfirst).mp hmissed⟩
  · rintro hnul ⟨before, row, after, rfl, -, -, earlier, hearlier, -, hconfusable⟩
    exact not_confusable (hnul earlier (by simp [hearlier])) (hnul row (by simp)) hconfusable

/-- A row with an address of its own is dropped: its pair differs from that of the other row in
    both components. -/
theorem dedup_drops_other :
    dedup toLower
        [{ label := "a", email := "b\x00c@example.org" },
          { label := "a\x00b", email := "c@example.org" }] =
      [{ label := "a", email := "b\x00c@example.org" }] ∧
    distinct toLowerRune
        [{ label := "a", email := "b\x00c@example.org" },
          { label := "a\x00b", email := "c@example.org" }] =
      [{ label := "a", email := "b\x00c@example.org" },
        { label := "a\x00b", email := "c@example.org" }] := by
  decide +kernel

end Rcptto.Native
