import Mathlib.Algebra.Order.Group.Unbundled.Int
import Mathlib.Tactic.NormNum

/-!
# Narrow integers

A signed integer type holds the numbers from `-m` to `m - 1`, and a number from outside is stored
modulo `2 * m` (`narrow`). Its `-m` has no counterpart: the negative of it is itself. So the
absolute value that is taken after the store (`magnitude`) is not always that of the number.

Results:
* `magnitude_neg`: it is the same for a number and its negative.
* `magnitude_eq_abs`, `magnitude_bot`, `magnitude_lt`: what it is below `m`, at `m`, and beyond.
* `abs_mul_tdiv_sub_lt`: a quotient that is cut off is off by less than the divisor.
-/

namespace JcmController.Lib.Narrow

/-- What is left of `x` in a type of the numbers from `-m` to `m - 1`. -/
def narrow (m : Nat) (x : Int) : Int := Int.bmod x (2 * m)

/-- `if (d < 0) d = -d`, of `x` stored in such a `d`. -/
def magnitude (m : Nat) (x : Int) : Int :=
  if narrow m x < 0 then narrow m (-narrow m x) else narrow m x

variable {m : Nat}

theorem neg_le_narrow (hm : 0 < m) (x : Int) : -(m : Int) ≤ narrow m x := by
  have := Int.le_bmod (x := x) (Nat.mul_pos Nat.two_pos hm)
  unfold narrow
  omega

theorem narrow_lt (hm : 0 < m) (x : Int) : narrow m x < m := by
  have := Int.bmod_lt (x := x) (Nat.mul_pos Nat.two_pos hm)
  unfold narrow
  omega

theorem narrow_eq_self {x : Int} (hle : -(m : Int) ≤ x) (hlt : x < m) : narrow m x = x :=
  Int.bmod_eq_of_le (by omega) (by omega)

/-- At the lower end there is no counterpart, elsewhere it is the negative. -/
theorem narrow_neg (hm : 0 < m) (x : Int) :
    narrow m (-x) = if narrow m x = -m then -(m : Int) else -narrow m x := by
  have hle := neg_le_narrow hm x
  have hlt := narrow_lt hm x
  have hcut : narrow m (-x) = narrow m (-narrow m x) := Int.bmod_neg_bmod.symm
  by_cases hbot : narrow m x = -m
  · rw [hcut, hbot, if_pos rfl, neg_neg]
    exact Int.bmod_eq_neg (Int.natCast_nonneg m) (by push_cast; rfl)
  · rw [hcut, if_neg hbot]
    exact narrow_eq_self (by omega) (by omega)

theorem magnitude_eq (hm : 0 < m) (x : Int) :
    magnitude m x = if narrow m x = -m then -(m : Int) else |narrow m x| := by
  have hself : narrow m (narrow m x) = narrow m x := Int.bmod_bmod
  unfold magnitude
  rw [narrow_neg hm, hself]
  by_cases hbot : narrow m x = -m
  · rw [if_pos hbot, if_pos hbot, if_pos (by omega)]
  · rw [if_neg hbot, if_neg hbot]
    by_cases hneg : narrow m x < 0
    · rw [if_pos hneg, abs_of_neg hneg]
    · rw [if_neg hneg, abs_of_nonneg (not_lt.mp hneg)]

/-- **The sign does not matter.** -/
theorem magnitude_neg (hm : 0 < m) (x : Int) : magnitude m (-x) = magnitude m x := by
  rw [magnitude_eq hm, magnitude_eq hm, narrow_neg hm]
  by_cases hbot : narrow m x = -m
  · rw [if_pos hbot, if_pos rfl, if_pos hbot]
  · have hlt := narrow_lt hm x
    rw [if_neg hbot, if_neg hbot, if_neg (by omega), abs_neg]

/-- Below `m` it is the absolute value. -/
theorem magnitude_eq_abs {x : Int} (h : |x| < m) : magnitude m x = |x| := by
  obtain ⟨hgt, hlt⟩ := abs_lt.mp h
  rw [magnitude_eq (by omega), narrow_eq_self hgt.le hlt, if_neg hgt.ne']

/-- At `m` it is negative. -/
theorem magnitude_bot (hm : 0 < m) {x : Int} (h : |x| = m) : magnitude m x = -m := by
  have hbot : narrow m (-(m : Int)) = -m := narrow_eq_self le_rfl (by omega)
  have hneg : magnitude m (-(m : Int)) = -m := by rw [magnitude_eq hm, if_pos hbot]
  rcases abs_eq (Int.natCast_nonneg m) |>.mp h with rfl | rfl
  · rw [← magnitude_neg hm, hneg]
  · exact hneg

/-- It never gets to `m`. -/
theorem magnitude_lt (hm : 0 < m) (x : Int) : magnitude m x < m := by
  have hle := neg_le_narrow hm x
  have hlt := narrow_lt hm x
  rw [magnitude_eq hm]
  by_cases hbot : narrow m x = -m
  · rw [if_pos hbot]
    omega
  · rw [if_neg hbot]
    exact abs_lt.mpr ⟨by omega, hlt⟩

/-- A quotient that is cut off, multiplied back. -/
theorem abs_mul_tdiv_sub_lt (a : Int) {b : Int} (hb : 0 < b) : |b * a.tdiv b - a| < b := by
  have hback := Int.mul_tdiv_add_tmod a b
  have hlt := Int.tmod_lt_of_pos a hb
  have hlt' := Int.tmod_lt_of_pos (-a) hb
  rw [Int.neg_tmod] at hlt'
  exact abs_lt.mpr ⟨by omega, by omega⟩

end JcmController.Lib.Narrow
