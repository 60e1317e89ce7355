import Mathlib.Tactic.ByContra

/-!
# A semaphore as a lock

A semaphore that starts at 1 is a lock: a party is inside between its `down` and its `up`.
`Exclusive` says so of a count and of who is inside.

Results:
* `Exclusive.down`, `Exclusive.up`, `Exclusive.stay`: what keeps it.
* **`Exclusive.unique`**: no two parties are inside.
-/

namespace JcmController.Lib

variable {π : Type}

/-- The count is 1 and nobody is inside, or it is 0 and exactly one party is. -/
def Exclusive (count : Nat) (inside : π → Prop) : Prop :=
  (count = 1 ∧ ∀ p, ¬ inside p) ∨ (count = 0 ∧ ∃ p, inside p ∧ ∀ p', inside p' → p' = p)

namespace Exclusive

variable {count : Nat} {inside inside' : π → Prop}

/-- **Mutual exclusion.** -/
theorem unique (h : Exclusive count inside) {p p' : π} (hp : inside p) (hp' : inside p') :
    p' = p := by
  rcases h with ⟨_, hnone⟩ | ⟨_, q, _, hq⟩
  · exact absurd hp (hnone p)
  · exact (hq p' hp').trans (hq p hp).symm

/-- `down` gets in only where nobody is inside. -/
theorem free (h : Exclusive count inside) (hpos : 0 < count) (p : π) : ¬ inside p := by
  rcases h with ⟨_, hnone⟩ | ⟨hzero, _⟩
  · exact hnone p
  · exact absurd hpos (hzero ▸ Nat.lt_irrefl 0)

theorem down (h : Exclusive count inside) (hpos : 0 < count) {p : π} (hp : inside' p)
    (hother : ∀ p' ≠ p, inside' p' → inside p') : Exclusive (count - 1) inside' := by
  have hfree := h.free hpos
  rcases h with ⟨hone, _⟩ | ⟨hzero, _⟩
  · refine Or.inr ⟨by rw [hone], p, hp, fun p' hp' => ?_⟩
    by_contra hne
    exact hfree p' (hother p' hne hp')
  · exact absurd hpos (hzero ▸ Nat.lt_irrefl 0)

theorem up (h : Exclusive count inside) {p : π} (hp : inside p) (hout : ¬ inside' p)
    (hother : ∀ p' ≠ p, inside' p' → inside p') : Exclusive (count + 1) inside' := by
  have hunique : ∀ p', inside p' → p' = p := fun _ => h.unique hp
  rcases h with ⟨_, hnone⟩ | ⟨hzero, _⟩
  · exact absurd hp (hnone p)
  · refine Or.inl ⟨by rw [hzero], fun p' hp' => ?_⟩
    by_cases hne : p' = p
    · exact hout (hne ▸ hp')
    · exact hne (hunique p' (hother p' hne hp'))

theorem stay (h : Exclusive count inside) (hsame : ∀ p, inside' p ↔ inside p) :
    Exclusive count inside' := by
  have heq : inside' = inside := funext fun p => propext (hsame p)
  rwa [heq]

end Exclusive

end JcmController.Lib
