import Mathlib.Data.Set.Basic

/-!
# A copy brought up to date behind its source

A source changes, and what changes is carried over to a copy later. An address is announced before
the source changes there and is pending from then on, until it is carried over: the value it has
then is what goes over, not the one it had when it was announced.

* `Step`: addresses are announced, the source changes where it is pending, pending addresses are
  carried over.
* **`Step.upToDate`**: every announced address is pending or up to date, and stays so.
* `UpToDate.eq`: where nothing is pending the copy is the source.
-/

namespace JcmController.Lib

variable {α β : Type*}

/-- A source, its copy, the addresses announced so far and those that are still pending. -/
structure Mirror (α β : Type*) where
  source : α → β
  copy : α → β
  announced : Set α
  pending : Set α

namespace Mirror

/-- What can happen. -/
inductive Step (s s' : Mirror α β) : Prop
  | announce (xs : Set α) (hsource : s'.source = s.source) (hcopy : s'.copy = s.copy)
      (hannounced : s'.announced = s.announced ∪ xs) (hpending : s.pending ∪ xs ⊆ s'.pending)
  | store (hsource : ∀ x ∈ s.announced, x ∉ s.pending → s'.source x = s.source x)
      (hcopy : s'.copy = s.copy) (hannounced : s'.announced = s.announced)
      (hpending : s.pending ⊆ s'.pending)
  | transfer (hsource : s'.source = s.source)
      (hcopy : ∀ x ∈ s.announced,
        s'.copy x = s.source x ∨ s'.copy x = s.copy x ∧ (x ∈ s.pending → x ∈ s'.pending))
      (hannounced : s'.announced = s.announced)

/-- Every announced address is pending or up to date. -/
def UpToDate (s : Mirror α β) : Prop := ∀ x ∈ s.announced, x ∈ s.pending ∨ s.copy x = s.source x

theorem UpToDate.start {s : Mirror α β} (h : s.announced = ∅) : s.UpToDate := fun x hx =>
  absurd hx (h ▸ Set.notMem_empty x)

/-- Where nothing is pending the copy is the source. -/
theorem UpToDate.eq {s : Mirror α β} (h : s.UpToDate) {x : α} (hx : x ∈ s.announced)
    (hnone : x ∉ s.pending) : s.copy x = s.source x := (h x hx).resolve_left hnone

/-- What is pending stays so: nothing else happens. -/
theorem Step.rest {s s' : Mirror α β} (hsource : s'.source = s.source) (hcopy : s'.copy = s.copy)
    (hannounced : s'.announced = s.announced) (hpending : s.pending ⊆ s'.pending) : Step s s' :=
  .store (fun x _ _ => congrFun hsource x) hcopy hannounced hpending

/-- **Every step keeps it.** -/
theorem Step.upToDate {s s' : Mirror α β} (h : Step s s') (hs : s.UpToDate) : s'.UpToDate := by
  intro x hx
  cases h with
  | announce xs hsource hcopy hannounced hpending =>
    rw [hannounced] at hx
    rcases hx with hx | hx
    · rw [hsource, hcopy]
      exact (hs x hx).imp_left fun hp => hpending (Or.inl hp)
    · exact Or.inl (hpending (Or.inr hx))
  | store hsource hcopy hannounced hpending =>
    rw [hannounced] at hx
    by_cases hp : x ∈ s.pending
    · exact Or.inl (hpending hp)
    · refine Or.inr ?_
      rw [hcopy, hsource x hx hp]
      exact hs.eq hx hp
  | transfer hsource hcopy hannounced =>
    rw [hannounced] at hx
    rw [hsource]
    rcases hcopy x hx with hnew | ⟨hold, hkeep⟩
    · exact Or.inr hnew
    · rw [hold]
      exact (hs x hx).imp_left hkeep

end Mirror

end JcmController.Lib
