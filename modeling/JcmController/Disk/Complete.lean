import JcmController.Disk.Routing
import JcmController.Lib.Completion

/-!
# Completion of split requests

`bio_split` returns a clone without `bi_end_io` that is not chained to the original; the original
keeps its own, and with it the submitter's callback. The driver hands the advanced original to the
member and goes on with the clone, so of the bios it submits the first one alone calls back.

* `deviceSubmits`: the bios of `device_make_request` with their `bi_end_io`.
* `deviceSubmits_bios`: they are the ones `deviceMakeRequest` submits.
* `deviceSubmits_endIo`: which of them carry the callback.
* **`split_completion_iff`**: the submitter is told once, after the last fragment and of every
  failure, exactly when the advanced original completes last and fails where any fragment does.
-/

namespace JcmController.Disk

open JcmController.Lib JcmController.Lib.Completion

variable {α : Type}

/-- A bio, and whether its `bi_end_io` is the submitter's. -/
structure Issued (α : Type) where
  bio : Bio α
  endIo : Bool

/-- What the loop of `device_make_request` gives to `generic_make_request`. -/
def submitLoop : List DevList → UInt64 → Issued α → List (Issued α)
  | [], _, _ => []
  | lh :: rest, before, b =>
    if b.bio.biSector ≥ lh.devSize + before then submitLoop rest (before + lh.devSize) b
    else if b.bio.biSector < lh.devSize + before then
      if b.bio.endSector > lh.devSize + before then
        match bioSplit b.bio (toInt (lh.devSize + before)) with
        | none => []
        | some (split, bio') =>
          ⟨bio'.redirect lh before, b.endIo⟩ ::
            submitLoop rest (before + lh.devSize) ⟨split, false⟩
      else [⟨b.bio.redirect lh before, b.endIo⟩]
    else submitLoop rest before b

/-- What `device_make_request` gives to `generic_make_request`. -/
def deviceSubmits (root : RootDevice) (bio : Bio α) : List (Issued α) :=
  if bio.biSector * DEVICE_SECTOR_SIZE + bio.biSize.toUInt64 > root.totalSize.toUInt64 then []
  else submitLoop root.totalList 0 ⟨bio, true⟩

/-- Which of the submitted bios carry the callback. -/
def endIos (root : RootDevice) (bio : Bio α) : List Bool :=
  (deviceSubmits root bio).map Issued.endIo

theorem submitLoop_bios (lhs : List DevList) (before : UInt64) (b : Issued α) :
    (submitLoop lhs before b).map Issued.bio = fragments (routeLoop lhs before b.bio) := by
  induction lhs generalizing before b with
  | nil => rfl
  | cons lh rest ih =>
    unfold submitLoop routeLoop
    by_cases hpast : b.bio.biSector ≥ lh.devSize + before
    · rw [if_pos hpast, if_pos hpast]
      exact ih _ b
    · rw [if_neg hpast, if_neg hpast]
      by_cases hhere : b.bio.biSector < lh.devSize + before
      · rw [if_pos hhere, if_pos hhere]
        by_cases hlong : b.bio.endSector > lh.devSize + before
        · rw [if_pos hlong, if_pos hlong]
          cases hs : bioSplit b.bio (toInt (lh.devSize + before)) with
          | none =>
            simp only [hs]
            rfl
          | some p =>
            simp only [hs]
            exact congrArg (p.2.redirect lh before :: ·) (ih _ ⟨p.1, false⟩)
        · rw [if_neg hlong, if_neg hlong]
          rfl
      · rw [if_neg hhere, if_neg hhere]
        exact ih _ b

/-- **The bios are the ones the driver submits.** -/
theorem deviceSubmits_bios (root : RootDevice) (bio : Bio α) :
    (deviceSubmits root bio).map Issued.bio = fragments (deviceMakeRequest root bio) := by
  unfold deviceSubmits deviceMakeRequest
  by_cases hg : bio.biSector * DEVICE_SECTOR_SIZE + bio.biSize.toUInt64 > root.totalSize.toUInt64
  · rw [if_pos hg, if_pos hg]
    rfl
  · rw [if_neg hg, if_neg hg]
    exact submitLoop_bios _ _ _

/-- A clone and its parts never carry the callback; of an original's parts the first one does. -/
theorem submitLoop_endIo (lhs : List DevList) (before : UInt64) (b : Issued α) (k : Nat)
    (hk : k < (submitLoop lhs before b).length) :
    ((submitLoop lhs before b).map Issued.endIo).getD k false = (decide (k = 0) && b.endIo) := by
  induction lhs generalizing before b k with
  | nil => exact absurd hk (Nat.not_lt_zero k)
  | cons lh rest ih =>
    unfold submitLoop at hk ⊢
    by_cases hpast : b.bio.biSector ≥ lh.devSize + before
    · rw [if_pos hpast] at hk ⊢
      exact ih _ b k hk
    · rw [if_neg hpast] at hk ⊢
      by_cases hhere : b.bio.biSector < lh.devSize + before
      · rw [if_pos hhere] at hk ⊢
        by_cases hlong : b.bio.endSector > lh.devSize + before
        · rw [if_pos hlong] at hk ⊢
          cases hs : bioSplit b.bio (toInt (lh.devSize + before)) with
          | none =>
            rw [hs] at hk
            exact absurd hk (Nat.not_lt_zero k)
          | some p =>
            rw [hs] at hk
            cases k with
            | zero => simp
            | succ k =>
              have hrest := ih (before + lh.devSize) ⟨p.1, false⟩ k (Nat.lt_of_succ_lt_succ hk)
              rw [Bool.and_false] at hrest
              simpa using hrest
        · rw [if_neg hlong] at hk ⊢
          obtain rfl : k = 0 := Nat.lt_one_iff.mp hk
          simp
      · rw [if_neg hhere] at hk ⊢
        exact ih _ b k hk

/-- **The first submitted bio alone calls back.** -/
theorem deviceSubmits_endIo (root : RootDevice) (bio : Bio α) (hpos : deviceSubmits root bio ≠ []) :
    HeadOnly (endIos root bio) := by
  intro k
  unfold endIos deviceSubmits at *
  by_cases hg : bio.biSector * DEVICE_SECTOR_SIZE + bio.biSize.toUInt64 > root.totalSize.toUInt64
  · rw [if_pos hg] at hpos
    exact absurd rfl hpos
  · rw [if_neg hg] at hpos ⊢
    by_cases hk : k < (submitLoop root.totalList 0 (⟨bio, true⟩ : Issued α)).length
    · rw [submitLoop_endIo _ _ _ _ hk, Bool.and_true]
    · have hne : k ≠ 0 := by
        rintro rfl
        exact hk (List.length_pos_iff.mpr hpos)
      rw [List.getD_eq_getElem?_getD, List.getElem?_eq_none, decide_eq_false hne]
      · rfl
      · rw [List.length_map]
        exact not_lt.mp hk

/-- **Completion of a split request.** For every request submitted in two fragments or more, and
every run in which all of them complete. -/
theorem split_completion_iff (members : List BlockDevice) (bio : Bio α)
    (hsplit : 2 ≤ (fragments (deviceMakeRequest (initRoot members) bio)).length) (as : List Act)
    (hall : AllDone (endIos (initRoot members) bio)
      (final (step (endIos (initRoot members) bio)) idle as)) :
    CompletesOnce (endIos (initRoot members) bio) as ↔
      HeadLast (final (step (endIos (initRoot members) bio)) idle as).done := by
  have hlen : 2 ≤ (deviceSubmits (initRoot members) bio).length := by
    rwa [← deviceSubmits_bios, List.length_map] at hsplit
  have hne : deviceSubmits (initRoot members) bio ≠ [] := by
    intro h
    rw [h] at hlen
    exact absurd hlen (by simp)
  have hpos : 0 < (endIos (initRoot members) bio).length := by
    unfold endIos
    rw [List.length_map]
    omega
  exact completesOnce_iff (deviceSubmits_endIo _ _ hne) hpos hall

/-- The fragments of `longRequest` are submitted; the first succeeds, then the second fails. -/
def secondFails : List Act := [.issue, .issue, .complete 0 true, .complete 1 false]

/-- The submitter is told of success while the second fragment is outstanding. -/
theorem split_completion_early :
    2 ≤ (fragments (deviceMakeRequest (initRoot twoMembers) longRequest)).length ∧
      AllDone (endIos (initRoot twoMembers) longRequest)
        (final (step (endIos (initRoot twoMembers) longRequest)) idle secondFails) ∧
      callbacks (endIos (initRoot twoMembers) longRequest) secondFails = [true] ∧
      ¬ CompletesOnce (endIos (initRoot twoMembers) longRequest) secondFails := by
  refine ⟨by decide, by decide, by decide, fun h => ?_⟩
  obtain ⟨ok, hok, herr⟩ := h.once
  have htrue : callbacks (endIos (initRoot twoMembers) longRequest) secondFails = [true] := by
    decide
  obtain rfl : true = ok := List.singleton_inj.mp (htrue.symm.trans hok)
  exact Bool.noConfusion (herr.mpr ⟨1, by decide⟩)

/-- With the first fragment last, and failing, it is told at the end, and of the failure. -/
theorem split_completion_last :
    CompletesOnce (endIos (initRoot twoMembers) longRequest)
      [.issue, .issue, .complete 1 false, .complete 0 false] :=
  (split_completion_iff twoMembers longRequest (by decide)
    [.issue, .issue, .complete 1 false, .complete 0 false] (by decide)).mpr
      ⟨false, by decide, fun _ _ => rfl⟩

end JcmController.Disk
