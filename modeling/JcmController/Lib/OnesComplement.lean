import Mathlib.Algebra.BigOperators.Group.List.Basic
import Mathlib.Algebra.Order.Ring.Nat
import Mathlib.Data.Nat.Basic

/-!
# One's-complement arithmetic

A word is a number up to `m`, the word of all ones; the complement of `a` is `m - a`. Addition puts
the carry back in at the low end (`add`). A number of any size stands for the word `reduce m n`,
which is that number modulo `m`, with `0` only for 0 itself: the other multiples of `m` are the
second zero, `m`.

Results:
* `sum_eq`: adding words one after the other is reducing their sum.
* `reduce_fold`: folding the high part onto the low part does not change the word.
* `reduce_add_not`: a number and its complement are all ones.
-/

namespace JcmController.Lib.OnesComplement

/-- The word of a number. -/
def reduce (m n : Nat) : Nat := if n = 0 then 0 else (n - 1) % m + 1

/-- Addition with end-around carry. -/
def add (m a b : Nat) : Nat := if a + b ≤ m then a + b else a + b - m

/-- The sum of words. -/
def sum (m : Nat) (ws : List Nat) : Nat := ws.foldl (add m) 0

variable {m : Nat}

@[simp]
theorem reduce_zero : reduce m 0 = 0 := rfl

theorem reduce_succ (n : Nat) : reduce m (n + 1) = n % m + 1 := if_neg (Nat.succ_ne_zero n)

theorem reduce_le (hm : 0 < m) (n : Nat) : reduce m n ≤ m := by
  cases n with
  | zero => exact Nat.zero_le m
  | succ n =>
    rw [reduce_succ]
    exact Nat.mod_lt n hm

/-- A word stands for itself. -/
theorem reduce_of_le {n : Nat} (h : n ≤ m) : reduce m n = n := by
  cases n with
  | zero => rfl
  | succ n => rw [reduce_succ, Nat.mod_eq_of_lt h]

/-- Taking `m` away from a number that stays positive does not change its word. -/
theorem reduce_add_self {n : Nat} (hn : 0 < n) : reduce m (n + m) = reduce m n := by
  obtain ⟨k, rfl⟩ := Nat.exists_eq_succ_of_ne_zero hn.ne'
  have hsucc : k.succ + m = k + m + 1 := by omega
  rw [hsucc, reduce_succ, Nat.succ_eq_add_one, reduce_succ, Nat.add_mod_right]

theorem reduce_add_mul {n : Nat} (hn : 0 < n) (k : Nat) : reduce m (n + k * m) = reduce m n := by
  induction k with
  | zero => rw [Nat.zero_mul, Nat.add_zero]
  | succ k ih =>
    have hk : n + (k + 1) * m = n + k * m + m := by
      rw [Nat.succ_mul, Nat.add_assoc]
    rw [hk, reduce_add_self (Nat.add_pos_left hn _), ih]

/-- Adding to a number is adding to its word. -/
theorem reduce_reduce_add (n a : Nat) : reduce m (reduce m n + a) = reduce m (n + a) := by
  cases n with
  | zero => rw [reduce_zero]
  | succ n =>
    have hsplit : n + 1 + a = n % m + 1 + a + n / m * m := by
      have hdiv := Nat.mod_add_div n m
      rw [Nat.mul_comm] at hdiv
      omega
    rw [hsplit, reduce_add_mul (by omega), reduce_succ]

/-- End-around carry is reduction of the exact sum. -/
theorem add_eq_reduce {a b : Nat} (ha : a ≤ m) (hb : b ≤ m) : add m a b = reduce m (a + b) := by
  unfold add
  by_cases h : a + b ≤ m
  · rw [if_pos h, reduce_of_le h]
  · have hsplit : a + b = a + b - m + m := by omega
    have hpos : 0 < a + b - m := by omega
    have hle : a + b - m ≤ m := by omega
    rw [if_neg h, hsplit, reduce_add_self hpos, reduce_of_le hle, Nat.add_sub_cancel]

theorem foldl_add (hm : 0 < m) :
    ∀ (ws : List Nat) (n : Nat), (∀ w ∈ ws, w ≤ m) →
      ws.foldl (add m) (reduce m n) = reduce m (n + ws.sum)
  | [], n, _ => by rw [List.foldl_nil, List.sum_nil, Nat.add_zero]
  | w :: ws, n, h => by
    obtain ⟨hw, hws⟩ := List.forall_mem_cons.mp h
    rw [List.foldl_cons, add_eq_reduce (reduce_le hm n) hw, reduce_reduce_add,
      foldl_add hm ws (n + w) hws, List.sum_cons, Nat.add_assoc]

/-- **Adding words is reducing their sum.** -/
theorem sum_eq (hm : 0 < m) {ws : List Nat} (h : ∀ w ∈ ws, w ≤ m) :
    sum m ws = reduce m ws.sum := by
  have hfold := foldl_add hm ws 0 h
  rwa [reduce_zero, Nat.zero_add] at hfold

/-- **Folding the carries**: the part above the low word is added to it. -/
theorem reduce_fold (n : Nat) : reduce m (n / (m + 1) + n % (m + 1)) = reduce m n := by
  rcases Nat.eq_zero_or_pos n with rfl | hn
  · rw [Nat.zero_div, Nat.zero_mod]
  · have hdiv := Nat.div_add_mod n (m + 1)
    have hsplit : n = n / (m + 1) + n % (m + 1) + n / (m + 1) * m := by
      rw [Nat.succ_mul] at hdiv
      rw [Nat.mul_comm (n / (m + 1)) m]
      omega
    have hpos : 0 < n / (m + 1) + n % (m + 1) := by
      by_contra hzero
      obtain ⟨hq, hr⟩ := Nat.add_eq_zero_iff.mp (Nat.eq_zero_of_not_pos hzero)
      rw [hq, hr, Nat.mul_zero] at hdiv
      exact hn.ne hdiv
    conv_rhs => rw [hsplit]
    rw [reduce_add_mul hpos]

/-- **A number and its complement are all ones.** -/
theorem reduce_add_not (hm : 0 < m) (n : Nat) : reduce m (n + (m - reduce m n)) = m := by
  rw [← reduce_reduce_add, Nat.add_sub_cancel' (reduce_le hm n), reduce_of_le (Nat.le_refl m)]

end JcmController.Lib.OnesComplement
