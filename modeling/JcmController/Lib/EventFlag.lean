import Mathlib.Logic.Function.Basic

/-!
# Waiting for a flag

One consumer and any number of producers. A producer publishes work, then sets a flag; where it
finds the flag clear it also wakes the consumer. The consumer, having found no work, waits until the
flag is set, clears it and looks for work again. Waiting has three stages: it tests the flag, enters
the wait queue and tests again, and sleeps. Any of these steps may fall between any two steps of the
others.

* `Waiting` are the stages. A wake-up before the consumer sleeps keeps it from sleeping.
* `State` has what is shared and where each party is. `published` and `waking` are the producers
  that have the flag to set and those that have the wake-up to make.

Results:
* **`Step.inv`**: what every step keeps.
* `Inv.wakes`: a consumer that sleeps while there is work will be woken.
-/

namespace JcmController.Lib.EventFlag

variable {π : Type}

/-- How far the consumer is in waiting. -/
inductive Waiting where
  | awake
  | queued
  | asleep
  deriving DecidableEq, Repr

/-- What is shared, and where the parties are. A consumer that is not waiting is `none`. -/
structure State (π : Type) where
  work : Prop
  flag : Prop
  consumer : Option Waiting
  published : π → Prop
  waking : π → Prop

/-- What the parties can do. -/
inductive Step (s s' : State π) : Prop
  /-- A producer puts work there. -/
  | publish (p : π) (hflag : s'.flag ↔ s.flag) (hconsumer : s'.consumer = s.consumer)
      (hp : s'.published p) (hwaking : ∀ q, s.waking q → s'.waking q)
  /-- It sets the flag. -/
  | announce (p : π) (hflag : s'.flag) (hconsumer : s'.consumer = s.consumer)
      (hclear : ¬ s.flag → s'.waking p) (hwaking : ∀ q, s.waking q → s'.waking q)
  /-- The consumer is woken, by a producer or otherwise. -/
  | wake (hwork : s'.work → s.work) (hflag : s'.flag ↔ s.flag)
      (hconsumer : s'.consumer = s.consumer.map fun _ => .awake)
      (hpublished : ∀ q, s.published q → s'.published q)
  /-- The consumer has found no work and goes on to wait. -/
  | commit (hwork : ¬ s'.work) (hconsumer : s'.consumer = some .awake)
  /-- It finds the flag clear, in either of its tests. -/
  | test (hwork : s'.work → s.work) (hclear : ¬ s.flag) (hflag : s'.flag ↔ s.flag)
      (hwaiting : s.consumer ≠ none) (hpublished : ∀ q, s.published q → s'.published q)
  /-- It is not waiting, or no longer. -/
  | run (hconsumer : s'.consumer = none)
  /-- Nothing of this changes. -/
  | idle (hwork : s'.work → s.work) (hflag : s'.flag ↔ s.flag)
      (hconsumer : s'.consumer = s.consumer)
      (hpublished : ∀ q, s.published q → s'.published q) (hwaking : ∀ q, s.waking q → s'.waking q)

/-- What holds of every state. -/
structure Inv (s : State π) : Prop where
  announced : s.consumer ≠ none → s.work → ¬ s.flag → ∃ p, s.published p
  woken : s.consumer = some .asleep → s.flag → ∃ p, s.waking p

/-- **Every step keeps it.** -/
theorem Step.inv {s s' : State π} (h : Step s s') (hs : Inv s) : Inv s' := by
  cases h with
  | publish p hflag hconsumer hp hwaking =>
    refine ⟨fun _ _ _ => ⟨p, hp⟩, fun hsleep hf => ?_⟩
    rw [hconsumer] at hsleep
    obtain ⟨q, hq⟩ := hs.woken hsleep (hflag.mp hf)
    exact ⟨q, hwaking q hq⟩
  | announce p hflag hconsumer hclear hwaking =>
    refine ⟨fun _ _ hf => absurd hflag hf, fun hsleep _ => ?_⟩
    rw [hconsumer] at hsleep
    by_cases hf : s.flag
    · obtain ⟨q, hq⟩ := hs.woken hsleep hf
      exact ⟨q, hwaking q hq⟩
    · exact ⟨p, hclear hf⟩
  | wake hwork hflag hconsumer hpublished =>
    refine ⟨fun hw hwk hf => ?_, fun hsleep _ => ?_⟩
    · have hw' : s.consumer ≠ none := by
        rintro hnone
        rw [hconsumer, hnone] at hw
        exact hw rfl
      obtain ⟨q, hq⟩ := hs.announced hw' (hwork hwk) (mt hflag.mpr hf)
      exact ⟨q, hpublished q hq⟩
    · rw [hconsumer] at hsleep
      obtain ⟨_, _, hne⟩ := Option.map_eq_some_iff.mp hsleep
      cases hne
  | commit hwork hconsumer =>
    refine ⟨fun _ hwk => absurd hwk hwork, fun hsleep => ?_⟩
    rw [hconsumer] at hsleep
    cases hsleep
  | test hwork hclear hflag hwaiting hpublished =>
    refine ⟨fun _ hwk _ => ?_, fun _ hf => absurd (hflag.mp hf) hclear⟩
    obtain ⟨q, hq⟩ := hs.announced hwaiting (hwork hwk) hclear
    exact ⟨q, hpublished q hq⟩
  | run hconsumer =>
    refine ⟨fun hw => absurd hconsumer hw, fun hsleep => ?_⟩
    rw [hconsumer] at hsleep
    cases hsleep
  | idle hwork hflag hconsumer hpublished hwaking =>
    refine ⟨fun hw hwk hf => ?_, fun hsleep hf => ?_⟩
    · obtain ⟨q, hq⟩ := hs.announced (hconsumer ▸ hw) (hwork hwk) (mt hflag.mpr hf)
      exact ⟨q, hpublished q hq⟩
    · obtain ⟨q, hq⟩ := hs.woken (hconsumer ▸ hsleep) (hflag.mp hf)
      exact ⟨q, hwaking q hq⟩

/-- **No wake-up is lost**: where the consumer sleeps and there is work, a producer has the flag to
set or the wake-up to make. -/
theorem Inv.wakes {s : State π} (h : Inv s) (hsleep : s.consumer = some .asleep) (hwork : s.work) :
    ∃ p, s.published p ∨ s.waking p := by
  by_cases hf : s.flag
  · obtain ⟨p, hp⟩ := h.woken hsleep hf
    exact ⟨p, Or.inr hp⟩
  · obtain ⟨p, hp⟩ := h.announced (by rw [hsleep]; exact Option.some_ne_none _) hwork hf
    exact ⟨p, Or.inl hp⟩

end JcmController.Lib.EventFlag
