import Mathlib.Logic.Relation

/-!
# Waiting without cycles

`R a b` reads "`a` waits for `b`". No process is in a cycle of waiting when `R` is `Acyclic`.

Results:
* **`Acyclic.insert`**: a process that begins to wait closes no cycle if no chain of waiting leads
  back to it from what it waits for.
* `eq_of_reach`: where nobody waits every chain is empty.
-/

namespace JcmController.Lib

open Relation

variable {α : Type} {R S : α → α → Prop}

/-- Nobody waits for itself through a chain of others. -/
def Acyclic (R : α → α → Prop) : Prop := ∀ a, ¬ TransGen R a a

theorem acyclic_of_none (h : ∀ a b, ¬ R a b) : Acyclic R := by
  intro a hc
  obtain ⟨b, hb, _⟩ := TransGen.head'_iff.mp hc
  exact h a b hb

/-- A chain that may use new waits of `a` for members of `B` uses none, or goes through `a`. -/
theorem transGen_insert {a : α} {B : α → Prop} (hS : ∀ x y, S x y → R x y ∨ x = a ∧ B y) {x y : α}
    (h : TransGen S x y) :
    TransGen R x y ∨ ReflTransGen R x a ∧ ∃ b, B b ∧ ReflTransGen R b y := by
  induction h with
  | single hxy =>
    rcases hS _ _ hxy with hR | ⟨rfl, hB⟩
    · exact Or.inl (.single hR)
    · exact Or.inr ⟨.refl, _, hB, .refl⟩
  | tail _ hyz ih =>
    rcases hS _ _ hyz with hR | ⟨rfl, hB⟩
    · rcases ih with ih | ⟨hxa, b, hb, hby⟩
      · exact Or.inl (ih.tail hR)
      · exact Or.inr ⟨hxa, b, hb, hby.tail hR⟩
    · rcases ih with ih | ⟨hxa, _⟩
      · exact Or.inr ⟨ih.to_reflTransGen, _, hB, .refl⟩
      · exact Or.inr ⟨hxa, _, hB, .refl⟩

/-- **New waits of `a` close no cycle** where no chain leads from what it waits for back to it. -/
theorem Acyclic.insert {a : α} {B : α → Prop} (hR : Acyclic R)
    (hS : ∀ x y, S x y → R x y ∨ x = a ∧ B y) (hB : ∀ b, B b → ¬ ReflTransGen R b a) :
    Acyclic S := by
  intro x hc
  rcases transGen_insert hS hc with h | ⟨hxa, b, hb, hbx⟩
  · exact hR x h
  · exact hB b hb (hbx.trans hxa)

theorem eq_of_reach (h : ∀ a b, ¬ R a b) {a b : α} (hab : ReflTransGen R a b) : a = b := by
  rcases ReflTransGen.cases_head_iff.mp hab with rfl | ⟨c, hc, _⟩
  · rfl
  · exact absurd hc (h a c)

end JcmController.Lib
