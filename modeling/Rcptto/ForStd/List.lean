import Mathlib.Data.List.DropRight
import Mathlib.Data.List.Infix

/-!
# List lemmas

Lemmas about `List.splitOn`, about the first position of an element, about trimming a list from
both ends, about words and infixes, about what `filter` leaves of a list of which one element
is replaced, about a filter that looks at what came before an element, and about counts.
-/

namespace List

variable {α β : Type*} [DecidableEq α] [DecidableEq β] {a x : α} {l m : List α}

/-- An element of a list is a separator or lies in one of the pieces. -/
theorem eq_or_mem_splitOn (hx : x ∈ l) : x = a ∨ ∃ piece ∈ l.splitOn a, x ∈ piece := by
  induction l with
  | nil => cases hx
  | cons y l ih =>
    rw [splitOn_cons_eq_if_modifyHead]
    obtain ⟨head, tail, hsplit⟩ := exists_cons_of_ne_nil (splitOn_ne_nil a l)
    rw [hsplit] at ih ⊢
    -- a separator begins a new piece, and any other element joins the first one
    by_cases hya : y = a
    · rcases mem_cons.mp hx with rfl | hx
      · exact .inl hya
      · rcases ih hx with h | ⟨piece, hpiece, hmem⟩
        · exact .inl h
        · exact .inr ⟨piece, by simp [hya, hpiece], hmem⟩
    · rw [if_neg (by simpa using hya), modifyHead_cons]
      rcases mem_cons.mp hx with rfl | hx
      · exact .inr ⟨_, mem_cons_self, mem_cons_self⟩
      · rcases ih hx with h | ⟨piece, hpiece, hmem⟩
        · exact .inl h
        · rcases mem_cons.mp hpiece with rfl | hpiece
          · exact .inr ⟨_, mem_cons_self, mem_cons_of_mem _ hmem⟩
          · exact .inr ⟨piece, mem_cons_of_mem _ hpiece, hmem⟩

/-- No piece of a split contains the separator. -/
theorem notMem_of_mem_splitOn {piece : List α} (h : piece ∈ l.splitOn a) : a ∉ piece := by
  induction l generalizing piece with
  | nil =>
    obtain rfl : piece = [] := by simpa [splitOn_nil] using h
    exact not_mem_nil
  | cons y l ih =>
    rw [splitOn_cons_eq_if_modifyHead] at h
    obtain ⟨head, tail, hsplit⟩ := exists_cons_of_ne_nil (splitOn_ne_nil a l)
    rw [hsplit] at ih h
    -- a separator begins a new piece, and any other element joins the first one
    split at h
    · rcases mem_cons.mp h with rfl | h
      · exact not_mem_nil
      · exact ih h
    · next hya =>
      rw [modifyHead_cons] at h
      rcases mem_cons.mp h with rfl | h
      · have hne : a ≠ y := fun heq => hya (by simp [heq])
        exact not_mem_cons_of_ne_of_not_mem hne (ih mem_cons_self)
      · exact ih (mem_cons_of_mem _ h)

/-- The elements of a piece are elements of the list. -/
theorem mem_of_mem_splitOn {piece : List α} (h : piece ∈ l.splitOn a) (hx : x ∈ piece) : x ∈ l := by
  induction l generalizing piece with
  | nil =>
    obtain rfl : piece = [] := by simpa [splitOn_nil] using h
    exact absurd hx not_mem_nil
  | cons y l ih =>
    rw [splitOn_cons_eq_if_modifyHead] at h
    obtain ⟨head, tail, hsplit⟩ := exists_cons_of_ne_nil (splitOn_ne_nil a l)
    rw [hsplit] at ih h
    split at h
    · rcases mem_cons.mp h with rfl | h
      · exact absurd hx not_mem_nil
      · exact mem_cons_of_mem y (ih h hx)
    · rw [modifyHead_cons] at h
      -- the element that is put in front of the first piece is the first of the list
      rcases mem_cons.mp h with rfl | h
      · rcases mem_cons.mp hx with rfl | hx
        · exact mem_cons_self
        · exact mem_cons_of_mem y (ih mem_cons_self hx)
      · exact mem_cons_of_mem y (ih (mem_cons_of_mem _ h) hx)

omit [DecidableEq α] in
/-- A list is the beginning of what a filter leaves of it if nothing is left out by either. -/
theorem take_filter_eq_self_iff {p : α → Bool} {n : Nat} :
    (l.filter p).take n = l ↔ (∀ x ∈ l, p x = true) ∧ l.length ≤ n := by
  constructor
  · intro h
    have hlength : l.length ≤ n := by
      rw [← h, length_take]
      exact min_le_left _ _
    -- the filter cannot be shorter than its beginning
    have hfilter : l.filter p = l := filter_sublist.eq_of_length_le (by
      rw [← congrArg length h, length_take]
      exact min_le_right _ _)
    exact ⟨filter_eq_self.mp hfilter, hlength⟩
  · rintro ⟨hall, hlength⟩
    rw [filter_eq_self.mpr hall, take_of_length_le hlength]

/-- A map that does not make or remove separators maps the pieces. -/
theorem splitOn_map {f : α → β} {b : β} (hf : ∀ x, f x = b ↔ x = a) :
    (l.map f).splitOn b = (l.splitOn a).map (map f) := by
  induction l with
  | nil => simp [splitOn_nil]
  | cons y l ih =>
    rw [map_cons, splitOn_cons_eq_if_modifyHead, splitOn_cons_eq_if_modifyHead, ih]
    obtain ⟨head, tail, hsplit⟩ := exists_cons_of_ne_nil (splitOn_ne_nil a l)
    -- both lists have a separator here, or neither has
    by_cases hya : y = a
    · subst hya
      simp [(hf y).mpr rfl]
    · have hyb : f y ≠ b := fun h => hya ((hf y).mp h)
      simp [hya, hyb, hsplit]

/-- The first position of an element that does not appear before. -/
theorem idxOf?_append_cons_self (h : a ∉ l) : (l ++ a :: m).idxOf? a = some l.length := by
  induction l with
  | nil => simp [idxOf?_cons]
  | cons y l ih =>
    obtain ⟨hya, hl⟩ := not_or.mp (mem_cons.not.mp h)
    rw [cons_append, idxOf?_cons, if_neg (by simpa using Ne.symm hya), ih hl]
    rfl

omit [DecidableEq α] in
/-- A list with nothing to trim. -/
theorem rdropWhile_dropWhile_eq_self {p : α → Bool} (h : ∀ x ∈ l, p x = false) :
    (l.dropWhile p).rdropWhile p = l := by
  have hdrop : ∀ m : List α, (∀ x ∈ m, p x = false) → m.dropWhile p = m := by
    intro m hm
    cases m with
    | nil => rfl
    | cons x m => rw [dropWhile_cons_of_neg (by simp [hm x])]
  rw [hdrop l h, rdropWhile, hdrop l.reverse fun x hx => h x (mem_reverse.mp hx), reverse_reverse]

omit [DecidableEq α] in
/-- What is taken from the end of a list, up to the last entry that is not to be taken. -/
theorem rtakeWhile_append_cons {p : α → Bool} {front back : List α} (hx : p x = false)
    (hback : ∀ y ∈ back, p y = true) : (front ++ x :: back).rtakeWhile p = back := by
  have hreverse : (front ++ x :: back).reverse = back.reverse ++ x :: front.reverse := by simp
  rw [rtakeWhile, hreverse, takeWhile_append_of_pos fun y hy => hback y (mem_reverse.mp hy),
    takeWhile_cons_of_neg (by simp [hx]), append_nil, reverse_reverse]

omit [DecidableEq α] in
/-- What is left of it. -/
theorem rdropWhile_append_cons {p : α → Bool} {front back : List α} (hx : p x = false)
    (hback : ∀ y ∈ back, p y = true) : (front ++ x :: back).rdropWhile p = front ++ [x] := by
  have hreverse : (front ++ x :: back).reverse = back.reverse ++ x :: front.reverse := by simp
  rw [rdropWhile, hreverse, dropWhile_append_of_pos fun y hy => hback y (mem_reverse.mp hy),
    dropWhile_cons_of_neg (by simp [hx]), reverse_cons, reverse_reverse]

omit [DecidableEq α] in
/-- Trimming a list keeps what is not to be dropped. -/
theorem mem_rdropWhile_dropWhile {p : α → Bool} (hp : p x = false) (hx : x ∈ l) :
    x ∈ (l.dropWhile p).rdropWhile p := by
  have hdrop : ∀ {m : List α}, x ∈ m → x ∈ m.dropWhile p := by
    intro m hm
    rw [← takeWhile_append_dropWhile (p := p) (l := m), mem_append] at hm
    refine hm.resolve_left fun htake => ?_
    rw [mem_takeWhile_imp htake] at hp
    cases hp
  rw [rdropWhile, mem_reverse]
  exact hdrop (mem_reverse.mpr (hdrop hx))

omit [DecidableEq α] in
/-- Trimming twice is trimming once. -/
theorem rdropWhile_dropWhile_idem (p : α → Bool) (l : List α) :
    (((l.dropWhile p).rdropWhile p).dropWhile p).rdropWhile p = (l.dropWhile p).rdropWhile p := by
  have hdrop : ((l.dropWhile p).rdropWhile p).dropWhile p = (l.dropWhile p).rdropWhile p := by
    cases htrim : (l.dropWhile p).rdropWhile p with
    | nil => rfl
    | cons x t =>
      -- what is left begins as it does before the end is trimmed
      obtain ⟨rest, hrest⟩ := rdropWhile_prefix p (l := l.dropWhile p)
      rw [htrim, cons_append] at hrest
      have hx : p x = false := by
        have := head?_dropWhile_not p l
        rw [← hrest] at this
        simpa using this
      rw [dropWhile_cons_of_neg (by simp [hx])]
  rw [hdrop, rdropWhile_idempotent]

omit [DecidableEq α] in
/-- A list is trimmed if neither of its ends is to be dropped. -/
theorem rdropWhile_dropWhile_eq_self_iff {p : α → Bool} {l : List α} :
    (l.dropWhile p).rdropWhile p = l ↔
      (∀ x ∈ l.head?, p x = false) ∧ ∀ x ∈ l.getLast?, p x = false := by
  have hhead : l.dropWhile p = l ↔ ∀ x ∈ l.head?, p x = false := by
    cases l with
    | nil => simp
    | cons y l => simp [dropWhile_eq_self_iff]
  have hlast : l.rdropWhile p = l ↔ ∀ x ∈ l.getLast?, p x = false := by
    rcases eq_nil_or_concat l with rfl | ⟨l, y, rfl⟩
    · simp
    · simp [rdropWhile_eq_self_iff]
  rw [← hhead, ← hlast]
  constructor
  · intro h
    -- nothing is missing at the end, so nothing can be missing at the beginning
    have hdrop : l.dropWhile p = l := by
      apply (dropWhile_sublist p).eq_of_length_le
      calc l.length = ((l.dropWhile p).rdropWhile p).length := by rw [h]
        _ ≤ (l.dropWhile p).length := ( rdropWhile_prefix p _).length_le
    rw [hdrop] at h
    exact ⟨hdrop, h⟩
  · rintro ⟨hdrop, hrdrop⟩
    rw [hdrop, hrdrop]

section Words

variable {γ : Type*} {p : γ → Bool} {x : γ} {k l m : List γ}

/-- The first piece of a split. -/
theorem exists_splitOnP_eq_cons (p : γ → Bool) (l : List γ) :
    ∃ rest, l.splitOnP p = l.takeWhile (!p ·) :: rest := by
  induction l with
  | nil => exact ⟨[], by simp [splitOnP_nil]⟩
  | cons x l ih =>
    obtain ⟨rest, hrest⟩ := ih
    rw [splitOnP_cons_eq_if_modifyHead, hrest]
    cases hx : p x with
    | true =>
      rw [if_pos rfl, takeWhile_cons_of_neg (by simp [hx])]
      exact ⟨_, rfl⟩
    | false =>
      rw [if_neg Bool.false_ne_true, takeWhile_cons_of_pos (by simp [hx]), modifyHead_cons]
      exact ⟨rest, rfl⟩

/-- The first piece of a split that is not empty: the first word of a text. -/
theorem head?_filter_splitOnP [DecidableEq γ] (p : γ → Bool) (l : List γ) :
    ((l.splitOnP p).filter (· ≠ [])).head?.getD [] = (l.dropWhile p).takeWhile (!p ·) := by
  induction l with
  | nil => simp [splitOnP_nil]
  | cons x l ih =>
    -- separators at the front give empty pieces, which are dropped
    cases hx : p x with
    | true => rw [splitOnP_cons_eq_if_modifyHead, if_pos hx, filter_cons_of_neg (by simp), ih,
        dropWhile_cons_of_pos hx]
    | false =>
      obtain ⟨rest, hrest⟩ := exists_splitOnP_eq_cons p (x :: l)
      have hword : (x :: l).takeWhile (!p ·) = x :: l.takeWhile (!p ·) :=
        takeWhile_cons_of_pos (by simp [hx])
      rw [hrest, hword, filter_cons_of_pos (by simp), dropWhile_cons_of_neg (by simp [hx]), hword]
      rfl

/-- A list in which `x` does not appear cannot lie across an `x`. -/
theorem infix_append_cons_iff (h : x ∉ k) : k <:+: l ++ x :: m ↔ k <:+: l ∨ k <:+: m := by
  constructor
  · rintro ⟨front, back, heq⟩
    rcases append_eq_append_iff.mp heq with ⟨gap, rfl, -⟩ | ⟨gap, hfront, hback⟩
    · exact .inl ⟨front, gap, rfl⟩
    · cases gap with
      | nil => exact .inl ⟨front, [], by simpa using hfront⟩
      | cons y gap =>
        obtain ⟨rfl, rfl⟩ := cons.inj hback
        -- the occurrence ends after `x`, so it begins after it
        rcases append_eq_append_iff.mp hfront with ⟨gap', -, rfl⟩ | ⟨gap', -, hk⟩
        · simp at h
        · cases gap' with
          | nil =>
            rw [nil_append] at hk
            simp [← hk] at h
          | cons z gap' =>
            obtain ⟨-, rfl⟩ := cons.inj hk
            exact .inr ⟨gap', back, rfl⟩
  · rintro (hl | hm)
    · exact hl.trans (prefix_append _ _).isInfix
    · exact hm.trans ((suffix_cons _ _).trans (suffix_append _ _)).isInfix

/-- A list that shares no element with `m` cannot lie across `m`. -/
theorem infix_or_infix_of_disjoint {n : List γ} (hk : k ≠ []) (hm : m ≠ [])
    (hdisjoint : ∀ x ∈ m, x ∉ k) (h : k <:+: l ++ m ++ n) : k <:+: l ∨ k <:+: n := by
  -- by induction on `m`: the list cannot contain its first element
  induction m generalizing l with
  | nil => exact absurd rfl hm
  | cons x m ih =>
    rw [append_assoc, cons_append, infix_append_cons_iff (hdisjoint x mem_cons_self)] at h
    refine h.imp_right fun h => ?_
    cases m with
    | nil => exact h
    | cons y m =>
      rcases ih (l := []) (by simp) (fun z hz => hdisjoint z (mem_cons_of_mem _ hz)) h with h | h
      · exact absurd (infix_nil.mp h) hk
      · exact h

end Words

section FilterSet

variable {γ : Type*} {p : γ → Bool} {xs : List γ} {k : Nat} {y z : γ}

/-- What `filter` leaves before and after the replaced element is the same. -/
theorem filter_set (hk : xs[k]? = some y) (z : γ) : ∃ before after,
    xs.filter p = before ++ [y].filter p ++ after ∧
      (xs.set k z).filter p = before ++ [z].filter p ++ after := by
  obtain ⟨hlt, rfl⟩ := getElem?_eq_some_iff.mp hk
  obtain ⟨front, back, hxs, -, hset⟩ : ∃ front back, xs = front ++ xs[k] :: back ∧
      front.length = k ∧ xs.set k z = front ++ z :: back := exists_of_set hlt
  refine ⟨front.filter p, back.filter p, ?_, ?_⟩
  · conv_lhs => rw [hxs]
    rw [filter_append, ← singleton_append, filter_append, append_assoc]
  · rw [hset, filter_append, ← singleton_append, filter_append, append_assoc]

/-- An element that is not kept is replaced by one that is not. -/
theorem filter_set_of_not (hk : xs[k]? = some y) (hy : p y = false) (hz : p z = false) :
    (xs.set k z).filter p = xs.filter p := by
  obtain ⟨before, after, hxs, hset⟩ := filter_set (p := p) hk z
  rw [hxs, hset]
  simp [hy, hz]

/-- The replaced element is the only one that is left. -/
theorem filter_set_of_filter_eq (hk : xs[k]? = some y) (hy : p y = true) (h : xs.filter p = [z])
    (w : γ) : y = z ∧ (xs.set k w).filter p = [w].filter p := by
  obtain ⟨before, after, hxs, hset⟩ := filter_set (p := p) hk w
  rw [h, filter_cons_of_pos hy, filter_nil] at hxs
  have hlen := congrArg length hxs
  simp only [length_append, length_singleton] at hlen
  obtain rfl : before = [] := length_eq_zero_iff.mp (by omega)
  obtain rfl : after = [] := length_eq_zero_iff.mp (by omega)
  refine ⟨?_, by simpa using hset⟩
  simpa using hxs.symm

end FilterSet

section FilterAfter

variable {γ : Type*} {p q : List γ → γ → Bool}

/-- The elements that `p` accepts, given the elements before them. -/
def filterAfter (p : List γ → γ → Bool) : List γ → List γ → List γ
  | _, [] => []
  | before, y :: ys =>
    if p before y then y :: filterAfter p (before ++ [y]) ys else filterAfter p (before ++ [y]) ys

/-- A stronger test keeps fewer elements. -/
theorem filterAfter_sublist (h : ∀ before y, q before y = true → p before y = true)
    (before ys : List γ) : filterAfter q before ys <+ filterAfter p before ys := by
  induction ys generalizing before with
  | nil => exact .slnil
  | cons y ys ih =>
    rw [filterAfter, filterAfter]
    -- what the stronger test keeps, the weaker one keeps too
    cases hq : q before y with
    | true =>
      rw [if_pos rfl, if_pos (h before y hq)]
      exact (ih _).cons_cons y
    | false =>
      rw [if_neg (by simp)]
      split
      · exact (ih _).cons y
      · exact ih _

/-- A stricter filter leaves as many elements if it accepts each that the other one accepts. -/
theorem length_filterAfter_eq_iff (h : ∀ before y, q before y = true → p before y = true)
    (before ys : List γ) :
    (filterAfter q before ys).length = (filterAfter p before ys).length ↔
      ∀ front y back, ys = front ++ y :: back → p (before ++ front) y = true →
        q (before ++ front) y = true := by
  induction ys generalizing before with
  | nil => simp [filterAfter]
  | cons y ys ih =>
    have hle := (filterAfter_sublist h (before ++ [y]) ys).length_le
    -- the first element is judged by itself, and the others after it
    have hsplit : (∀ front z back, y :: ys = front ++ z :: back → p (before ++ front) z = true →
          q (before ++ front) z = true) ↔
        (p before y = true → q before y = true) ∧
        ∀ front z back, ys = front ++ z :: back → p (before ++ [y] ++ front) z = true →
          q (before ++ [y] ++ front) z = true := by
      constructor
      · intro hall
        refine ⟨fun hp => ?_, fun front z back heq hp => ?_⟩
        · simpa using hall [] y ys rfl (by simpa using hp)
        · have := hall (y :: front) z back (by rw [heq, cons_append])
          rw [append_cons] at this
          exact this hp
      · rintro ⟨hfirst, hrest⟩ front z back heq hp
        cases front with
        | nil =>
          obtain ⟨rfl, -⟩ := cons.inj heq
          rw [append_nil] at hp ⊢
          exact hfirst hp
        | cons w front =>
          obtain ⟨rfl, htail⟩ := cons.inj heq
          rw [append_cons] at hp ⊢
          exact hrest front z back htail hp
    rw [hsplit, ← ih, filterAfter, filterAfter]
    cases hq : q before y with
    | true => simp [h before y hq]
    | false =>
      cases hp : p before y with
      | true =>
        simp only [Bool.false_eq_true, if_false, if_true, length_cons, imp_false, not_true,
          false_and, iff_false]
        omega
      | false => simp

/-- A stronger test keeps the same elements if it never makes a difference. -/
theorem map_filterAfter_eq_iff {δ : Type*} (g : γ → δ)
    (h : ∀ before y, q before y = true → p before y = true) (before ys : List γ) :
    (filterAfter q before ys).map g = (filterAfter p before ys).map g ↔
      ∀ front y back, ys = front ++ y :: back → p (before ++ front) y = true →
        q (before ++ front) y = true := by
  rw [← length_filterAfter_eq_iff h]
  constructor
  · intro heq
    simpa using congrArg length heq
  · intro hlength
    rw [(filterAfter_sublist h before ys).eq_of_length hlength]

end FilterAfter

/-- Two ways to read a list at a separator. -/
theorem append_cons_eq_append_cons_iff {γ : Type*} {z : γ} {k k' n n' : List γ} :
    k ++ z :: n = k' ++ z :: n' ↔ (k = k' ∧ n = n') ∨
      (∃ mid, k' = k ++ z :: mid ∧ n = mid ++ z :: n') ∨
      ∃ mid, k = k' ++ z :: mid ∧ n' = mid ++ z :: n := by
  constructor
  · intro h
    -- the one marker comes before the other, or they are the same
    rcases append_eq_append_iff.mp h with ⟨mid, hk, hn⟩ | ⟨mid, hk, hn⟩
    · cases mid with
      | nil => exact .inl ⟨by simpa using hk.symm, (cons.inj hn).2⟩
      | cons w mid =>
        obtain ⟨rfl, htail⟩ := cons.inj hn
        exact .inr (.inl ⟨mid, hk, htail⟩)
    · cases mid with
      | nil => exact .inl ⟨by simpa using hk, (cons.inj hn).2.symm⟩
      | cons w mid =>
        obtain ⟨rfl, htail⟩ := cons.inj hn
        exact .inr (.inr ⟨mid, hk, htail⟩)
  · rintro (⟨rfl, rfl⟩ | ⟨mid, rfl, rfl⟩ | ⟨mid, rfl, rfl⟩) <;> simp

/-- Two counts of which one is over fewer elements are equal only if it is not. -/
theorem countP_eq_countP_iff {γ : Type*} {p q : γ → Bool} {xs : List γ}
    (h : ∀ z ∈ xs, p z = true → q z = true) :
    xs.countP p = xs.countP q ↔ ∀ z ∈ xs, q z = true → p z = true := by
  constructor
  · intro heq z hz hq
    induction xs with
    | nil => cases hz
    | cons y xs ih =>
      have htail : ∀ z ∈ xs, p z = true → q z = true := fun z hz => h z (mem_cons_of_mem y hz)
      have hle := countP_mono_left htail
      rw [countP_cons, countP_cons] at heq
      by_cases hqy : q y = true
      · -- the tail cannot make up for a head that only `q` counts
        have hpy : p y = true := by
          by_contra hpy
          rw [if_neg hpy, if_pos hqy] at heq
          omega
        rw [if_pos hpy, if_pos hqy] at heq
        rcases mem_cons.mp hz with rfl | hz
        · exact hpy
        · exact ih htail (by omega) hz
      · have hpy : ¬ p y = true := fun hp => hqy (h y mem_cons_self hp)
        rw [if_neg hpy, if_neg hqy] at heq
        rcases mem_cons.mp hz with rfl | hz
        · exact absurd hq hqy
        · exact ih htail heq hz
  · intro hback
    exact countP_congr fun z hz => ⟨h z hz, hback z hz⟩

end List
