import Mathlib.Data.Int.ModEq
import Mathlib.Data.List.Chain

/-!
# A counter that starts again

A counter of period `p` shows the time modulo `p`. If two looks at it are less than a period apart, at
most one period has been completed between them. A clock is read at instants, and is right modulo `n` if
the values differ by the time between the instants.
-/

namespace LptStore.Lib

section Counter

variable {p v v' : Nat}

/-- What is between two instants less than a period apart, from what a counter shows at them. -/
theorem counter_advance (hle : v ≤ v') (hlt : v' < v + p) :
    v' + v % p = v + v' % p + if v / p < v' / p then p else 0 := by
  have hv := Nat.div_add_mod v p
  have hv' := Nat.div_add_mod v' p
  have hmono : v / p ≤ v' / p := Nat.div_le_div_right hle
  have hp : 0 < p := by omega
  have hnext : v' / p < v / p + 2 := by
    refine (Nat.div_lt_iff_lt_mul hp).mpr ?_
    have hmod := Nat.mod_lt v hp
    rw [Nat.add_mul, Nat.mul_comm (v / p)]
    omega
  by_cases hmore : v / p < v' / p
  · have hone : v' / p = v / p + 1 := by omega
    rw [if_pos hmore]
    rw [hone, Nat.mul_add, Nat.mul_one] at hv'
    omega
  · have hsame : v' / p = v / p := by omega
    rw [if_neg hmore]
    rw [hsame] at hv'
    omega

end Counter

/-- A value that a clock showed at an instant. -/
structure Reading where
  instant : Nat
  value : Nat
  deriving DecidableEq, Repr

namespace Reading

variable {n : Int} {x y z : Reading}

/-- The values differ by the time between them, modulo `n`. -/
def Measures (n : Int) (x y : Reading) : Prop :=
  (y.value : Int) - x.value ≡ y.instant - x.instant [ZMOD n]

instance (n : Int) (x y : Reading) : Decidable (Measures n x y) :=
  inferInstanceAs (Decidable (_ ≡ _ [ZMOD n]))

theorem Measures.trans (h : Measures n x y) (h' : Measures n y z) : Measures n x z := by
  have hsum := Int.ModEq.add h h'
  unfold Measures
  calc (z.value : Int) - x.value
      = (y.value - x.value) + (z.value - y.value) := by omega
    _ ≡ (y.instant - x.instant) + (z.instant - y.instant) [ZMOD n] := hsum
    _ = z.instant - x.instant := by omega

instance : Trans (Measures n) (Measures n) (Measures n) := ⟨Measures.trans⟩

/-- A clock is right about any two readings if it is about any two that follow each other. -/
theorem pairwise_measures_iff {l : List Reading} :
    l.Pairwise (Measures n) ↔ l.IsChain (Measures n) :=
  List.isChain_iff_pairwise.symm

end Reading

end LptStore.Lib
