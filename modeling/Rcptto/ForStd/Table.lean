import Mathlib.Algebra.BigOperators.Group.List.Lemmas
import Mathlib.Algebra.GroupWithZero.Nat
import Mathlib.Data.List.Sort

/-!
# Tables

The rows of a table of a relational database, and the clauses of the statements on it: `UPDATE` of
the rows that meet a condition, `ORDER BY` a column of integers, and `COUNT` with `GROUP BY`. A
selection is `List.filter`.

The order in which a database keeps its rows means nothing, and it can change at any time. So the
results here are about rows up to a permutation: what `ORDER BY` returns is determined by the set
of the rows if the column has no duplicates, and so are sums over groups.
-/

namespace Table

variable {R K : Type*} {rows sorted : List R}

/-- `UPDATE` the rows that meet a condition. -/
def update (p : R → Bool) (f : R → R) (rows : List R) : List R :=
  rows.map fun r => if p r then f r else r

/-- The selection of rows by a condition that the update does not change. -/
theorem filter_update {p q : R → Bool} {f : R → R} (h : ∀ r, p r = true → q (f r) = q r) :
    (update p f rows).filter q = update p f (rows.filter q) := by
  unfold update
  rw [List.filter_map]
  congr 1
  refine List.filter_congr fun r _ => ?_
  dsimp only [Function.comp_apply]
  split
  · next hp => exact h r hp
  · rfl

theorem update_of_forall {p : R → Bool} {f : R → R} (h : ∀ r ∈ rows, p r = true) :
    update p f rows = rows.map f :=
  List.map_congr_left fun r hr => if_pos (h r hr)

/-- An update of no row. -/
theorem update_of_forall_not {p : R → Bool} {f : R → R} (h : ∀ r ∈ rows, p r = false) :
    update p f rows = rows := by
  unfold update
  conv_rhs => rw [← List.map_id rows]
  refine List.map_congr_left fun r hr => ?_
  rw [if_neg (by simp [h r hr])]
  rfl

/-- `ORDER BY`. -/
def orderBy (key : R → Int) (rows : List R) : List R :=
  rows.mergeSort fun r s => decide (key r ≤ key s)

/-- If no two rows share a key, there is one order. -/
theorem orderBy_eq {key : R → Int} (h : rows.Perm sorted)
    (hsorted : sorted.Pairwise fun r s => key r < key s) : orderBy key rows = sorted := by
  have hperm : (orderBy key rows).Perm sorted := (rows.mergeSort_perm _).trans h
  have hmerge : (orderBy key rows).Pairwise fun r s => decide (key r ≤ key s) = true := by
    refine List.pairwise_mergeSort (fun a b c hab hbc => ?_) (fun a b => ?_) rows
    · simp only [decide_eq_true_eq] at *
      omega
    · simp only [Bool.or_eq_true, decide_eq_true_eq]
      omega
  have hsorted' : sorted.Pairwise fun r s => decide (key r ≤ key s) = true :=
    hsorted.imp fun h => decide_eq_true (Int.le_of_lt h)
  have hnodup : (sorted.map key).Nodup := List.pairwise_map.mpr (hsorted.imp Int.ne_of_lt)
  refine hperm.eq_of_pairwise (fun r s hr hs hrs hsr => ?_) hmerge hsorted'
  -- two rows of the same key are the same row
  have hkey : key r = key s :=
    Int.le_antisymm (of_decide_eq_true hrs) (of_decide_eq_true hsr)
  exact List.inj_on_of_nodup_map hnodup (hperm.mem_iff.mp hr) hs hkey

variable [DecidableEq K] {key : R → K}

/-- `COUNT` with `GROUP BY`. -/
def groupBy (key : R → K) (rows : List R) : List (K × Nat) :=
  (rows.map key).dedup.map fun k => (k, (rows.map key).count k)

/-- The counts of the groups that meet a condition add up to the number of rows that do. -/
theorem sum_groupBy (q : K → Bool) :
    (((groupBy key rows).filter fun g => q g.1).map (·.2)).sum = rows.countP (q ∘ key) := by
  unfold groupBy
  rw [List.filter_map, List.map_map, ← List.countP_map,
    ← List.sum_map_count_dedup_filter_eq_countP]
  rfl

end Table
