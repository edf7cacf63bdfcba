import Mathlib.Data.Multiset.Bind

/-!
# Lists as multisets

A list whose order does not matter is seen as a multiset. Replacing or dropping the item at
a position then takes one item out and puts another one in, and the sublists of the items
with each key together are the whole list.
-/

namespace Multiset

variable {α β : Type*} {l : List α} {k : ℕ} {a : α}

/-- A list is the item at a position and the rest. -/
theorem coe_eq_cons_eraseIdx (h : l[k]? = some a) :
    (l : Multiset α) = a ::ₘ (l.eraseIdx k : Multiset α) := by
  obtain ⟨hk, rfl⟩ := List.getElem?_eq_some_iff.mp h
  exact Quot.sound (List.getElem_cons_eraseIdx_perm hk).symm

/-- Replacing the item at a position leaves the rest. -/
theorem coe_set_eq_cons_eraseIdx (h : l[k]? = some a) (a' : α) :
    (l.set k a' : Multiset α) = a' ::ₘ (l.eraseIdx k : Multiset α) := by
  obtain ⟨hk, -⟩ := List.getElem?_eq_some_iff.mp h
  exact Quot.sound (List.set_perm_cons_eraseIdx hk a')

variable [DecidableEq β]

/-- The sublists of the items with each of the keys are the whole list. -/
theorem bind_filter_eq (f : α → β) {keys : List β} (hkeys : keys.Nodup) {s : Multiset α}
    (hs : ∀ a ∈ s, f a ∈ keys) : (keys : Multiset β).bind (fun b => s.filter (f · = b)) = s := by
  induction keys generalizing s with
  | nil =>
    have : s = 0 := eq_zero_of_forall_notMem fun a ha => List.not_mem_nil (hs a ha)
    subst this
    rfl
  | cons b bs ih =>
    obtain ⟨hb, hbs⟩ := List.nodup_cons.mp hkeys
    -- the items with the other keys are not among those with the first one
    have hrest : (bs : Multiset β).bind (fun b' => s.filter (f · = b')) =
        s.filter (f · ≠ b) := by
      rw [← ih hbs (s := s.filter (f · ≠ b))]
      · refine bind_congr fun b' hb' => ?_
        rw [filter_filter]
        refine filter_congr fun a _ => ⟨fun ha => ⟨ha, ?_⟩, fun ha => ha.1⟩
        rintro rfl
        exact hb (ha ▸ hb')
      · intro a ha
        obtain ⟨ha, hne⟩ := mem_filter.mp ha
        exact (List.mem_cons.mp (hs a ha)).resolve_left hne
    rw [← cons_coe, cons_bind, hrest, filter_add_not]

end Multiset
