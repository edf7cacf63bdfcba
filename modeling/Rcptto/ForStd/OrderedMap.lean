import Mathlib.Data.List.Basic
import Mathlib.Logic.Function.Basic

/-!
# Insertion-ordered maps

A map from keys to values together with the list of its keys in the order they
were registered: the shape a program gets from a hash map plus a slice of keys.
Each value knows its own key (`key v`), and the two views are kept in step by the
fields `mem_order` and `key_eq`, so an entry cannot be listed without being
present, nor filed under another entry's key.

A key that is registered twice is listed twice; `mapInOrder`, the loop over the
listed keys, therefore visits it twice, and `get?_mapInOrder` asks the loop body
to be idempotent.
-/

universe u v

/-- A map with its keys listed in registration order; `key v` is the key under
    which the value `v` is filed. -/
structure OrderedMap (K : Type u) (V : Type v) (key : V → K) where
  get? : K → Option V
  order : List K
  mem_order : ∀ k, k ∈ order ↔ (get? k).isSome
  key_eq : ∀ k v, get? k = some v → key v = k

namespace OrderedMap

variable {K : Type u} {V : Type v} {key : V → K} {k k' : K} {v : V}

/-- Maps with the same entries in the same order are equal. -/
@[ext] theorem ext {m m' : OrderedMap K V key} (hget : ∀ k, m.get? k = m'.get? k)
    (horder : m.order = m'.order) : m = m' := by
  obtain ⟨get, order, _, _⟩ := m
  obtain ⟨get', order', _, _⟩ := m'
  obtain rfl : get = get' := funext hget
  subst horder
  rfl

/-- The map without entries. -/
def empty : OrderedMap K V key where
  get? _ := none
  order := []
  mem_order := by simp
  key_eq := by simp

@[simp] theorem get?_empty : (empty : OrderedMap K V key).get? k = none := rfl

@[simp] theorem order_empty : (empty : OrderedMap K V key).order = [] := rfl

theorem mem_order_of_get? {m : OrderedMap K V key} (h : m.get? k = some v) : k ∈ m.order := by
  rw [m.mem_order, h]; rfl

theorem exists_of_mem_order {m : OrderedMap K V key} (h : k ∈ m.order) :
    ∃ v, m.get? k = some v :=
  Option.isSome_iff_exists.mp ((m.mem_order k).mp h)

/-- The values in registration order. -/
def values (m : OrderedMap K V key) : List V := m.order.filterMap m.get?

/-- The values are those of the entries. -/
theorem mem_values {m : OrderedMap K V key} : v ∈ m.values ↔ m.get? (key v) = some v := by
  rw [values, List.mem_filterMap]
  constructor
  · rintro ⟨k, -, hk⟩
    rwa [m.key_eq k v hk]
  · intro h
    exact ⟨key v, mem_order_of_get? h, h⟩

/-- The values are in the order of their keys. -/
theorem map_key_values (m : OrderedMap K V key) : m.values.map key = m.order := by
  rw [values, List.map_filterMap]
  have hkey : ∀ k ∈ m.order, (m.get? k).map key = some k := by
    intro k hk
    obtain ⟨v, hv⟩ := exists_of_mem_order hk
    rw [hv, Option.map_some, m.key_eq k v hv]
  rw [List.filterMap_congr hkey, List.filterMap_some]

section Update

variable [DecidableEq K]

/-- Replace the value filed under `k`, if any, by its image under `f`. The new value
    has to keep the key. -/
def modify (m : OrderedMap K V key) (k : K) (f : V → V) (hf : ∀ v, key v = k → key (f v) = k) :
    OrderedMap K V key where
  get? := Function.update m.get? k ((m.get? k).map f)
  order := m.order
  mem_order k' := by
    by_cases h : k' = k
    · subst h; simp [m.mem_order]
    · simp [Function.update_of_ne h, m.mem_order]
  key_eq k' v hv := by
    by_cases h : k' = k
    · subst h
      rw [Function.update_self, Option.map_eq_some_iff] at hv
      obtain ⟨w, hw, rfl⟩ := hv
      exact hf w (m.key_eq _ _ hw)
    · rw [Function.update_of_ne h] at hv
      exact m.key_eq _ _ hv

/-- File `v` under its key, replacing an entry already there, and list the key. -/
def push (m : OrderedMap K V key) (v : V) : OrderedMap K V key where
  get? := Function.update m.get? (key v) (some v)
  order := m.order ++ [key v]
  mem_order k' := by
    by_cases h : k' = key v
    · subst h; simp
    · simp [m.mem_order, h]
  key_eq k' w hw := by
    by_cases h : k' = key v
    · subst h
      rw [Function.update_self, Option.some.injEq] at hw
      rw [hw]
    · rw [Function.update_of_ne h] at hw
      exact m.key_eq _ _ hw

variable {m : OrderedMap K V key} {f : V → V}

@[simp] theorem get?_modify_self {hf : ∀ v, key v = k → key (f v) = k} :
    (m.modify k f hf).get? k = (m.get? k).map f :=
  Function.update_self ..

theorem get?_modify_of_ne {hf : ∀ v, key v = k → key (f v) = k} (h : k' ≠ k) :
    (m.modify k f hf).get? k' = m.get? k' :=
  Function.update_of_ne h ..

/-- `modify` at `k` seen from an entry: the function is applied exactly when the
    entry is filed under `k`. -/
theorem get?_modify {hf : ∀ v, key v = k → key (f v) = k} (h : m.get? k' = some v) :
    (m.modify k f hf).get? k' = some (if k = key v then f v else v) := by
  rw [m.key_eq _ _ h]
  by_cases hk : k = k'
  · subst hk; simp [h]
  · rw [get?_modify_of_ne (Ne.symm hk), h, if_neg hk]

@[simp] theorem get?_modify_eq_none {hf : ∀ v, key v = k → key (f v) = k} :
    (m.modify k f hf).get? k' = none ↔ m.get? k' = none := by
  by_cases h : k' = k
  · subst h; simp
  · rw [get?_modify_of_ne h]

/-- `modify` does nothing for a key that is not there. -/
theorem modify_of_none {hf : ∀ v, key v = k → key (f v) = k} (h : m.get? k = none) :
    m.modify k f hf = m := by
  apply OrderedMap.ext
  · intro k'
    by_cases hk : k' = k
    · subst hk; rw [get?_modify_self, h]; rfl
    · rw [get?_modify_of_ne hk]
  · rfl

@[simp] theorem order_push : (m.push v).order = m.order ++ [key v] := rfl

@[simp] theorem get?_push_self : (m.push v).get? (key v) = some v :=
  Function.update_self ..

theorem get?_push_of_ne (h : k ≠ key v) : (m.push v).get? k = m.get? k :=
  Function.update_of_ne h ..

/-! ## The loop over the listed keys -/

/-- Apply `f` to the value of each key of `ks` in turn. -/
def modifyEach (m : OrderedMap K V key) (f : V → V) (hf : ∀ v, key (f v) = key v) (ks : List K) :
    OrderedMap K V key :=
  ks.foldl (fun m k => m.modify k f fun v hv => (hf v).trans hv) m

/-- Apply `f` to the value of each listed key in turn. -/
def mapInOrder (m : OrderedMap K V key) (f : V → V) (hf : ∀ v, key (f v) = key v) :
    OrderedMap K V key :=
  m.modifyEach f hf m.order

variable {hf : ∀ v, key (f v) = key v} {ks : List K}

theorem modifyEach_cons : m.modifyEach f hf (k :: ks) =
    (m.modify k f fun v hv => (hf v).trans hv).modifyEach f hf ks := rfl

@[simp] theorem order_modifyEach : (m.modifyEach f hf ks).order = m.order := by
  induction ks generalizing m with
  | nil => rfl
  | cons k ks ih => exact ih

/-- An entry whose key is not in the list stays. -/
theorem get?_modifyEach_of_notMem (h : k ∉ ks) : (m.modifyEach f hf ks).get? k = m.get? k := by
  induction ks generalizing m with
  | nil => rfl
  | cons k' ks ih =>
    rw [List.mem_cons, not_or] at h
    rw [modifyEach_cons, ih h.2, get?_modify_of_ne h.1]

/-- Visiting a key more than once makes no difference when `f` is idempotent. -/
theorem get?_modifyEach_of_mem (hidem : ∀ v, f (f v) = f v) (h : k ∈ ks) :
    (m.modifyEach f hf ks).get? k = (m.get? k).map f := by
  induction ks generalizing m with
  | nil => simp at h
  | cons k' ks ih =>
    rw [modifyEach_cons]
    -- a key that occurs twice is modified twice, which is no different
    by_cases hmem : k ∈ ks
    · rw [ih hmem]
      by_cases hk : k = k'
      · subst hk
        simp [Function.comp_def, hidem]
      · rw [get?_modify_of_ne hk]
    · obtain rfl : k = k' := by simpa [hmem] using h
      rw [get?_modifyEach_of_notMem hmem, get?_modify_self]

@[simp] theorem order_mapInOrder : (m.mapInOrder f hf).order = m.order :=
  order_modifyEach

/-- The loop over the listed keys maps every entry once. -/
theorem get?_mapInOrder (hidem : ∀ v, f (f v) = f v) :
    (m.mapInOrder f hf).get? k = (m.get? k).map f := by
  by_cases h : k ∈ m.order
  · exact get?_modifyEach_of_mem hidem h
  · have hnone : m.get? k = none := by
      simpa [m.mem_order] using h
    rw [mapInOrder, get?_modifyEach_of_notMem h, hnone]
    rfl

/-! ## Relations between maps -/

/-- The maps list the same keys, and the entries of each key are related by `R`. -/
structure Rel (R : V → V → Prop) (m m' : OrderedMap K V key) : Prop where
  order_eq : m.order = m'.order
  get?_rel : ∀ k, Option.Rel R (m.get? k) (m'.get? k)

namespace Rel

variable {R : V → V → Prop} {m' : OrderedMap K V key} {g : V → V} {w : V}

/-- Related entries of one key are replaced by related ones. -/
theorem modify {hf : ∀ v, key v = k → key (f v) = k} {hg : ∀ v, key v = k → key (g v) = k}
    (h : Rel R m m') (hR : ∀ v w, m.get? k = some v → m'.get? k = some w → R v w → R (f v) (g w)) :
    Rel R (m.modify k f hf) (m'.modify k g hg) := by
  refine ⟨h.order_eq, fun k' => ?_⟩
  by_cases hk : k' = k
  · subst hk
    rw [get?_modify_self, get?_modify_self]
    have hrel := h.get?_rel k'
    generalize hv : m.get? k' = a at hrel ⊢
    generalize hw : m'.get? k' = b at hrel ⊢
    -- neither map has the key, or both entries are modified
    cases hrel with
    | none => exact .none
    | some hvw => exact .some (hR _ _ hv hw hvw)
  · rw [get?_modify_of_ne hk, get?_modify_of_ne hk]
    exact h.get?_rel k'

/-- Related values are added to both maps. -/
theorem push (h : Rel R m m') (hkey : key v = key w) (hR : R v w) :
    Rel R (m.push v) (m'.push w) := by
  refine ⟨?_, fun k => ?_⟩
  · rw [order_push, order_push, h.order_eq, hkey]
  · by_cases hk : k = key v
    · subst hk
      rw [get?_push_self, hkey, get?_push_self]
      exact .some hR
    · rw [get?_push_of_ne hk, get?_push_of_ne (hkey ▸ hk)]
      exact h.get?_rel k

/-- Entries of both maps are modified by related functions. -/
theorem modifyEach {hg : ∀ v, key (g v) = key v} (h : Rel R m m')
    (hR : ∀ v w, R v w → R (f v) (g w)) (ks : List K) :
    Rel R (m.modifyEach f hf ks) (m'.modifyEach g hg ks) := by
  induction ks generalizing m m' with
  | nil => exact h
  | cons k ks ih => exact ih (h.modify fun v w _ _ => hR v w)

theorem mapInOrder {hg : ∀ v, key (g v) = key v} (h : Rel R m m')
    (hR : ∀ v w, R v w → R (f v) (g w)) : Rel R (m.mapInOrder f hf) (m'.mapInOrder g hg) := by
  unfold OrderedMap.mapInOrder
  rw [← h.order_eq]
  exact h.modifyEach hR m.order

end Rel

end Update

end OrderedMap
