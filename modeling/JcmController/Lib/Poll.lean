import Mathlib.Logic.Function.Iterate

/-!
# Loops that poll

A loop takes a step and looks at the state; it ends with the first answer it finds there. `poll`
runs it for a number of rounds, and `Returns` says that some number is enough.

* `returns_iff`: the loop returns the first answer there is.
* `Returns.unique`: it returns no other.
* `exists_returns`: where there is an answer it returns one, no later than that.
-/

namespace JcmController.Lib

variable {σ ρ : Type}

/-- `do { step } while (no answer)`, with at most `fuel` rounds. -/
def poll (step : σ → σ) (answer : σ → Option ρ) : Nat → σ → Option ρ
  | 0, _ => none
  | fuel + 1, s =>
    match answer (step s) with
    | some r => some r
    | none => poll step answer fuel (step s)

/-- The loop ends, with the answer `r`. -/
def Returns (step : σ → σ) (answer : σ → Option ρ) (s : σ) (r : ρ) : Prop :=
  ∃ fuel, poll step answer fuel s = some r

variable {step : σ → σ} {answer : σ → Option ρ}

/-- `r` is the answer after round `k`, and there was none before. -/
def FirstAnswer (step : σ → σ) (answer : σ → Option ρ) (s : σ) (k : Nat) (r : ρ) : Prop :=
  answer (step^[k + 1] s) = some r ∧ ∀ j < k, answer (step^[j + 1] s) = none

theorem poll_eq_some_iff {r : ρ} :
    ∀ {fuel : Nat} {s : σ},
      poll step answer fuel s = some r ↔ ∃ k < fuel, FirstAnswer step answer s k r
  | 0, s => by simp [poll]
  | fuel + 1, s => by
    unfold poll
    cases h : answer (step s) with
    | some r' =>
      constructor
      · rintro ⟨⟩
        exact ⟨0, fuel.succ_pos, h, fun j hj => absurd hj j.not_lt_zero⟩
      · rintro ⟨k, _, hk, hj⟩
        cases k with
        | zero => exact h.symm.trans hk
        | succ k => exact absurd ((hj 0 k.succ_pos).symm.trans h) (by simp)
    | none =>
      constructor
      · intro hp
        obtain ⟨k, hk, hr, hj⟩ := poll_eq_some_iff.mp hp
        refine ⟨k + 1, Nat.succ_lt_succ hk, hr, fun j hlt => ?_⟩
        cases j with
        | zero => exact h
        | succ j => exact hj j (Nat.lt_of_succ_lt_succ hlt)
      · rintro ⟨k, hk, hr, hj⟩
        cases k with
        | zero => exact absurd (h.symm.trans hr) (by simp)
        | succ k =>
          exact poll_eq_some_iff.mpr ⟨k, Nat.lt_of_succ_lt_succ hk, hr,
            fun j hlt => hj (j + 1) (Nat.succ_lt_succ hlt)⟩

/-- **The loop returns the first answer.** -/
theorem returns_iff {s : σ} {r : ρ} :
    Returns step answer s r ↔ ∃ k, FirstAnswer step answer s k r := by
  constructor
  · rintro ⟨_, h⟩
    obtain ⟨k, _, hk⟩ := poll_eq_some_iff.mp h
    exact ⟨k, hk⟩
  · rintro ⟨k, hk⟩
    exact ⟨k + 1, poll_eq_some_iff.mpr ⟨k, k.lt_succ_self, hk⟩⟩

theorem Returns.unique {s : σ} {r r' : ρ} (h : Returns step answer s r)
    (h' : Returns step answer s r') : r = r' := by
  obtain ⟨k, hk, hj⟩ := returns_iff.mp h
  obtain ⟨k', hk', hj'⟩ := returns_iff.mp h'
  rcases Nat.lt_trichotomy k k' with hlt | rfl | hlt
  · exact absurd ((hj' k hlt).symm.trans hk) (by simp)
  · exact Option.some.inj (hk.symm.trans hk')
  · exact absurd ((hj k' hlt).symm.trans hk') (by simp)

/-- Where there is an answer the loop returns, at that round or before. -/
theorem exists_returns {s : σ} {k : Nat} (h : answer (step^[k + 1] s) ≠ none) :
    ∃ j ≤ k, ∃ r, answer (step^[j + 1] s) = some r ∧ Returns step answer s r := by
  induction k using Nat.strongRecOn with
  | ind k ih =>
    by_cases hnone : ∀ j < k, answer (step^[j + 1] s) = none
    · obtain ⟨r, hr⟩ := Option.ne_none_iff_exists'.mp h
      exact ⟨k, Nat.le_refl k, r, hr, returns_iff.mpr ⟨k, hr, hnone⟩⟩
    · obtain ⟨j, hne⟩ := Classical.not_forall.mp hnone
      obtain ⟨hj, hne⟩ := Classical.not_imp.mp hne
      obtain ⟨i, hi, hr⟩ := ih j hj hne
      exact ⟨i, Nat.le_trans hi (Nat.le_of_lt hj), hr⟩

end JcmController.Lib
