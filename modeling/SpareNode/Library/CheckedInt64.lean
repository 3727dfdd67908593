import Mathlib.Data.Int.Basic
import Mathlib.Tactic

/-! # Signed arithmetic that must not overflow

An operation on 64-bit numbers has a result when the exact result is one, and none otherwise: what
a program does then is undefined.
-/
namespace CheckedInt64

/-- The number that an exact result is, if it is one. -/
def checked (z : ℤ) : Option Int64 :=
  if Int64.minValue.toInt ≤ z ∧ z ≤ Int64.maxValue.toInt then some (Int64.ofInt z) else none

def add (a b : Int64) : Option Int64 := checked (a.toInt + b.toInt)
def sub (a b : Int64) : Option Int64 := checked (a.toInt - b.toInt)
def mul (a b : Int64) : Option Int64 := checked (a.toInt * b.toInt)

theorem checked_of_bounds (z : ℤ) (hmin : -2 ^ 63 ≤ z) (hmax : z < 2 ^ 63) :
    ∃ n : Int64, checked z = some n ∧ n.toInt = z := by
  refine ⟨Int64.ofInt z,if_pos ⟨?_,?_⟩,Int64.toInt_ofInt_of_le hmin hmax⟩
  · rw [Int64.toInt_minValue]
    exact hmin
  · rw [Int64.toInt_maxValue]
    omega

theorem toInt_max (a b : Int64) : (max a b).toInt = max a.toInt b.toInt := by
  rcases le_total a.toInt b.toInt with h | h
  · rw [max_eq_right h]
    exact congrArg Int64.toInt (if_pos (Int64.le_iff_toInt_le.mpr h))
  · rw [max_eq_left h]
    by_cases hle : a ≤ b
    · exact (congrArg Int64.toInt (if_pos hle)).trans (le_antisymm h (Int64.le_iff_toInt_le.mp hle))
    · exact congrArg Int64.toInt (if_neg hle)

theorem toInt_min (a b : Int64) : (min a b).toInt = min a.toInt b.toInt := by
  rcases le_total a.toInt b.toInt with h | h
  · rw [min_eq_left h]
    exact congrArg Int64.toInt (if_pos (Int64.le_iff_toInt_le.mpr h))
  · rw [min_eq_right h]
    by_cases hle : a ≤ b
    · exact (congrArg Int64.toInt (if_pos hle)).trans (le_antisymm (Int64.le_iff_toInt_le.mp hle) h)
    · exact congrArg Int64.toInt (if_neg hle)

end CheckedInt64
