import Mathlib.Data.List.Basic
import Mathlib.Data.List.Induction

/-!
# The running best of a list

The loop that walks over a list, skips what is not acceptable, and keeps the first
element that no later acceptable one beats. `better x b` says that `x` replaces the
incumbent `b`; an element that merely ties does not, so among equals the earliest
stays. `firstBest_spec` states what the loop computes, for every comparison that
is a strict weak order.
-/

namespace List

variable {α : Type*}

/-- One iteration of the loop. -/
def pickBest (ok : α → Bool) (better : α → α → Bool) (best : Option α) (x : α) : Option α :=
  if ok x then
    match best with
    | none => some x
    | some b => if better x b then some x else some b
  else best

/-- The loop over the whole list, starting without an incumbent. -/
def firstBest (ok : α → Bool) (better : α → α → Bool) (l : List α) : Option α :=
  l.foldl (pickBest ok better) none

variable {ok : α → Bool} {better : α → α → Bool} {l : List α} {b x : α}

theorem firstBest_append_singleton :
    firstBest ok better (l ++ [x]) = pickBest ok better (firstBest ok better l) x := by
  simp [firstBest, List.foldl_append]

/-- The loop ends without an element exactly when none is acceptable. -/
theorem firstBest_eq_none : firstBest ok better l = none ↔ ∀ c ∈ l, ok c = false := by
  -- the last element is looked at last, so it is split off
  induction l using List.reverseRecOn with
  | nil => simp [firstBest]
  | append_singleton l x ih =>
    rw [firstBest_append_singleton, pickBest.eq_def]
    by_cases hx : ok x = true
    · simp only [hx, if_true]
      cases firstBest ok better l with
      | none => simp [hx]
      | some b => by_cases hb : better x b = true <;> simp [hx, hb]
    · simp [hx, ih, or_imp, forall_and]

/-- One more iteration: the incumbent stays, or the new element takes its place. -/
theorem firstBest_snoc_cases (h : firstBest ok better (l ++ [x]) = some b) :
    (firstBest ok better l = some b ∧ (ok x = true → better x b = false)) ∨
      (b = x ∧ ok x = true ∧ ∀ a, firstBest ok better l = some a → better x a = true) := by
  rw [firstBest_append_singleton, pickBest.eq_def] at h
  -- the last element does not count, is the first that does, or is compared
  by_cases hx : ok x = true
  · rw [if_pos hx] at h
    cases hl : firstBest ok better l with
    | none =>
      simp only [hl, Option.some.injEq] at h
      exact .inr ⟨h.symm, hx, by simp⟩
    | some a =>
      simp only [hl] at h
      by_cases hxa : better x a = true
      · rw [if_pos hxa, Option.some.injEq] at h
        exact .inr ⟨h.symm, hx, by simpa using hxa⟩
      · rw [if_neg hxa, Option.some.injEq] at h
        subst h
        exact .inl ⟨rfl, fun _ => by simpa using hxa⟩
  · rw [if_neg hx] at h
    exact .inl ⟨h, fun hx' => absurd hx' hx⟩

/-- The best element is one that counts. -/
theorem mem_of_firstBest (h : firstBest ok better l = some b) : b ∈ l ∧ ok b = true := by
  induction l using List.reverseRecOn with
  | nil => simp [firstBest] at h
  | append_singleton l x ih =>
    rcases firstBest_snoc_cases h with ⟨hl, -⟩ | ⟨rfl, hx, -⟩
    · obtain ⟨hmem, hok⟩ := ih hl
      exact ⟨List.mem_append_left _ hmem, hok⟩
    · exact ⟨by simp, hx⟩

/-- What the loop returns: an acceptable element that beats every other acceptable
    one, or ties with it and stands before it. -/
theorem firstBest_spec [DecidableEq α] (hasymm : ∀ x y, better x y = true → better y x = false)
    (htrans : ∀ x ∈ l, ∀ y ∈ l, ∀ z ∈ l, better x y = false → better y z = false →
      better x z = false) (h : firstBest ok better l = some b) :
    ∀ c ∈ l, ok c = true → c ≠ b →
      better b c = true ∨ better c b = false ∧ l.idxOf b < l.idxOf c := by
  induction l using List.reverseRecOn generalizing b with
  | nil => simp
  | append_singleton l x ih =>
    intro c hc hok hne
    -- what is known of the elements before `x` carries over to the longer list
    have hold : ∀ a, firstBest ok better l = some a → c ∈ l → c ≠ a →
        better a c = true ∨ better c a = false ∧ (l ++ [x]).idxOf a < (l ++ [x]).idxOf c := by
      intro a ha hcl hca
      rw [List.idxOf_append_of_mem hcl, List.idxOf_append_of_mem (mem_of_firstBest ha).1]
      refine ih (fun x hx y hy z hz => htrans x ?_ y ?_ z ?_) ha c hcl hok hca <;> simp [*]
    rw [List.mem_append, List.mem_singleton] at hc
    rcases firstBest_snoc_cases h with ⟨hl, hkeep⟩ | ⟨rfl, -, hbeats⟩
    · -- the incumbent stays, and `x` comes after it
      by_cases hcl : c ∈ l
      · exact hold b hl hcl hne
      · obtain rfl : c = x := hc.resolve_left hcl
        right
        refine ⟨hkeep hok, ?_⟩
        have hb := (mem_of_firstBest hl).1
        rw [List.idxOf_append_of_mem hb, List.idxOf_append_of_notMem hcl]
        have := List.idxOf_lt_length_of_mem hb
        omega
    · -- the new element replaces the incumbent, and beats all that the incumbent held off
      have hcl : c ∈ l := hc.resolve_right hne
      left
      cases hl : firstBest ok better l with
      | none =>
        rw [firstBest_eq_none.mp hl c hcl] at hok
        exact absurd hok Bool.false_ne_true
      | some a =>
        have hba := hbeats a hl
        by_cases hca : c = a
        · rw [hca]
          exact hba
        · by_contra hnot
          have hbc : better b c = false := by simpa using hnot
          have hca' : better c a = false := by
            rcases hold a hl hcl hca with hac | ⟨hca', _⟩
            · exact hasymm _ _ hac
            · exact hca'
          have ha := (mem_of_firstBest hl).1
          rw [htrans b (by simp) c (by simp [hcl]) a (by simp [ha]) hbc hca'] at hba
          exact absurd hba Bool.false_ne_true

/-- The place of a number, for a loop over the first `n` of them. -/
theorem idxOf_range {n c : Nat} (h : c < n) : (range n).idxOf c = c := by
  have := nodup_range.idxOf_getElem c (by rwa [length_range])
  rwa [getElem_range] at this

end List
