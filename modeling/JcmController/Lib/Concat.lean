import Mathlib.Algebra.BigOperators.Group.List.Basic
import Mathlib.Tactic.Linarith

/-!
# Concatenated extents

A list of sizes lays its members end to end: member `i` owns the addresses from `base l i` up to
`base l i + l[i]`. `locate` is the address map of the concatenation, from an address to the
member that owns it and the offset inside it.

Results:
* `locate_eq_some_iff`: `locate` returns `(i, y)` exactly when member `i` owns the address at
  offset `y`; `locate_isSome` says it answers exactly below the total.
* `first_boundary`: an interval that meets a boundary meets the end of its first member.
-/

namespace JcmController.Lib.Concat

/-- The first address of member `i`: the sum of the sizes before it. -/
def base (l : List Nat) (i : Nat) : Nat := (l.take i).sum

@[simp] theorem base_zero (l : List Nat) : base l 0 = 0 := by simp [base]

@[simp] theorem base_cons_succ (n : Nat) (l : List Nat) (i : Nat) :
    base (n :: l) (i + 1) = n + base l i := by
  simp [base]

theorem base_succ (l : List Nat) (i : Nat) (hi : i < l.length) :
    base l (i + 1) = base l i + l[i] := by
  unfold base
  rw [List.take_succ_eq_append_getElem hi, List.sum_append, List.sum_singleton]

theorem base_le_sum (l : List Nat) (i : Nat) : base l i ≤ l.sum := by
  have h := congrArg List.sum (List.take_append_drop i l)
  rw [List.sum_append] at h
  unfold base
  omega

theorem base_mono (l : List Nat) {i j : Nat} (h : i ≤ j) : base l i ≤ base l j := by
  have h' : base l i = base (l.take j) i := by
    unfold base
    rw [List.take_take, Nat.min_eq_left h]
  rw [h']
  exact base_le_sum (l.take j) i

theorem end_le_sum (l : List Nat) (i : Nat) (hi : i < l.length) : base l i + l[i] ≤ l.sum := by
  rw [← base_succ l i hi]
  exact base_le_sum l (i + 1)

theorem end_le_of_getElem? {l : List Nat} {i n : Nat} (h : l[i]? = some n) :
    base l i + n ≤ l.sum := by
  obtain ⟨hi, rfl⟩ := List.getElem?_eq_some_iff.mp h
  exact end_le_sum l i hi

/-- The address map: the owner of address `x` and the offset of `x` inside it. -/
def locate : List Nat → Nat → Option (Nat × Nat)
  | [], _ => none
  | n :: l, x => if x < n then some (0, x) else (locate l (x - n)).map fun p => (p.1 + 1, p.2)

/-- **`locate` is the address map of the concatenation.** -/
theorem locate_eq_some_iff {l : List Nat} {x i y : Nat} :
    locate l x = some (i, y) ↔ ∃ hi : i < l.length, y < l[i] ∧ x = base l i + y := by
  induction l generalizing x i with
  | nil => simp [locate]
  | cons n l ih =>
    unfold locate
    by_cases hx : x < n
    · rw [if_pos hx]
      constructor
      · intro h
        obtain ⟨rfl, rfl⟩ := Prod.mk.inj (Option.some.inj h)
        exact ⟨Nat.zero_lt_succ _, by simpa using hx, by simp⟩
      · rintro ⟨hi, hy, rfl⟩
        cases i with
        | zero => simp
        | succ i => simp only [base_cons_succ] at hx; omega
    · rw [if_neg hx, Option.map_eq_some_iff]
      constructor
      · rintro ⟨⟨j, z⟩, hl, he⟩
        obtain ⟨rfl, rfl⟩ := Prod.mk.inj he
        obtain ⟨hj, hz, hxz⟩ := ih.mp hl
        exact ⟨by simpa using hj, by simpa using hz, by simp only [base_cons_succ]; omega⟩
      · rintro ⟨hi, hy, rfl⟩
        cases i with
        | zero => simp only [List.getElem_cons_zero, base_zero] at hy hx; omega
        | succ i =>
          refine ⟨(i, y), ih.mpr ⟨by simpa using hi, by simpa using hy, ?_⟩, rfl⟩
          simp only [base_cons_succ]
          omega

/-- Every address below the total has an owner. -/
theorem locate_isSome {l : List Nat} {x : Nat} (hx : x < l.sum) : ∃ p, locate l x = some p := by
  induction l generalizing x with
  | nil => simp at hx
  | cons n l ih =>
    unfold locate
    by_cases h : x < n
    · exact ⟨_, if_pos h⟩
    · rw [List.sum_cons] at hx
      obtain ⟨p, hp⟩ := ih (show x - n < l.sum by omega)
      exact ⟨(p.1 + 1, p.2), by rw [if_neg h, hp]; rfl⟩

/-- An interval that starts inside the total and has a boundary strictly inside it starts in a
member whose end it runs past. -/
theorem first_boundary {l : List Nat} {s e j : Nat} (hs : s < base l j) (he : base l j < e) :
    ∃ i, ∃ hi : i < l.length, base l i ≤ s ∧ s < base l i + l[i] ∧ base l i + l[i] < e := by
  obtain ⟨⟨i, y⟩, hl⟩ := locate_isSome (Nat.lt_of_lt_of_le hs (base_le_sum l j))
  obtain ⟨hi, hy, rfl⟩ := locate_eq_some_iff.mp hl
  have hij : i + 1 ≤ j := by
    by_contra hc
    have := base_mono l (show j ≤ i by omega)
    omega
  have hle := base_mono l hij
  rw [base_succ l i hi] at hle
  exact ⟨i, hi, by omega, by omega, by omega⟩

end JcmController.Lib.Concat
