import Mathlib.Logic.Function.Basic

/-!
# Partial maps

Functions to `Option` as finite maps. An entry of an updated map is the new one, or an entry under
another key that was there before. `upsert` files a list of values, each under its own key.
-/

namespace PartialMap

variable {K V : Type*} [DecidableEq K] {m : K → Option V} {k k' : K} {o : Option V} {v : V}

/-- The entries of an updated map. -/
theorem update_eq_some_iff :
    Function.update m k o k' = some v ↔ k' = k ∧ o = some v ∨ k' ≠ k ∧ m k' = some v := by
  by_cases h : k' = k
  · subst h
    simp [Function.update_self]
  · simp [h]

section Upsert

variable {key : V → K} {vs : List V}

/-- Insert the values one after the other, each under its key, over entries already there. -/
def upsert (key : V → K) (m : K → Option V) (vs : List V) : K → Option V :=
  vs.foldl (fun m v => Function.update m (key v) (some v)) m

theorem upsert_cons : upsert key m (v :: vs) = upsert key (Function.update m (key v) (some v)) vs :=
  rfl

/-- A key that none of the values has keeps its entry. -/
theorem upsert_of_forall_ne (h : ∀ v ∈ vs, key v ≠ k) : upsert key m vs k = m k := by
  induction vs generalizing m with
  | nil => rfl
  | cons v vs ih =>
    rw [upsert_cons, ih fun w hw => h w (List.mem_cons_of_mem v hw)]
    exact Function.update_of_ne (Ne.symm (h v List.mem_cons_self)) _ _

/-- A value that no other one shares its key with is found under it. -/
theorem upsert_of_mem (hmem : v ∈ vs) (huniq : ∀ w ∈ vs, key w = key v → w = v) :
    upsert key m vs (key v) = some v := by
  induction vs generalizing m with
  | nil => cases hmem
  | cons w vs ih =>
    rw [upsert_cons]
    have huniq' : ∀ x ∈ vs, key x = key v → x = v :=
      fun x hx => huniq x (List.mem_cons_of_mem w hx)
    by_cases hvs : v ∈ vs
    · exact ih hvs huniq'
    · -- `v` is the head, and no later value has its key
      obtain rfl : v = w := (List.mem_cons.mp hmem).resolve_right hvs
      rw [upsert_of_forall_ne fun x hx hkey => hvs (huniq' x hx hkey ▸ hx), Function.update_self]

end Upsert

end PartialMap
