import Mathlib.Data.Int.CardIntervalMod

/-!
# Instants of a periodic grid

The instants `L + k * p` (`k : ℤ`) of a clock that ticks every `p` units, and how many
of them fall into an interval. `Int.ticks` counts them as a finite set;
`Int.ticks_eq` is the closed form by floor division that proofs compute with.
-/

namespace Int

/-- How many instants of the grid through `L` with period `p` lie in `(a, b]`. The interval
    is taken from the instance by name: the order on `ℤ` that `Finset.Ioc` would find depends
    on the imports, and is not always computable. -/
def ticks (p L a b : ℤ) : ℕ :=
  (Finset.filter (fun x => x ≡ L [ZMOD p]) (Int.instLocallyFiniteOrder.finsetIoc a b)).card

variable {p L a b : ℤ}

/-- Closed form: the grid indices of the two ends, by floor division. -/
theorem ticks_eq (hp : 0 < p) (hab : a ≤ b) :
    (ticks p L a b : ℤ) = (b - L) / p - (a - L) / p := by
  obtain ⟨n, rfl⟩ := Int.eq_ofNat_of_zero_le hp.le
  have hfloor : ∀ x : ℤ, ⌊((x : ℚ) - L) / (n : ℤ)⌋ = (x - L) / n := by
    intro x
    have := Rat.floor_intCast_div_natCast (x - L) n
    push_cast at this ⊢
    exact this
  have hmono : (a - L) / (n : ℤ) ≤ (b - L) / n := Int.ediv_le_ediv hp (by omega)
  -- the number of grid points in a half-open interval
  have hcard : (ticks n L a b : ℤ) =
      max (⌊((b : ℚ) - L) / (n : ℤ)⌋ - ⌊((a : ℚ) - L) / (n : ℤ)⌋) 0 :=
    Int.Ioc_filter_modEq_card a b hp L
  rw [hcard, hfloor, hfloor]
  omega

end Int
