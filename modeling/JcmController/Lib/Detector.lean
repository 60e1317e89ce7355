import Mathlib.Data.List.Induction

/-!
# Failure detection by timeout

A detector remembers of each server it watches when it last heard it, and whether it has given it
up (`Detector`). A `Watch` says who is watched and what a round learns: first the round hears some
of the servers, then it judges them in their order. A server whose last sign of life is too old is
*suspected*; a suspicion that is not confirmed ends the judging, so that neither that server nor
those behind it are judged in this round.

Results:
* `heardAt_run`: what is remembered of a server is the last time at which it was heard.
* **`down_run_iff`**: a server is given up at the end of a run exactly when it was suspected in the
  last round that judged it.
* `never_down`: a server that no round suspects is not given up.
-/

namespace JcmController.Lib

/-- What is remembered of each server. -/
structure Detector where
  heardAt : Nat → Int
  down : Nat → Bool

/-- Who is watched, and what a round learns: when it heard a server, whether a sign of life is too
old, and whether a suspicion is confirmed. -/
structure Watch (ρ : Type) where
  peers : Nat → Bool
  heard : ρ → Nat → Option Int
  late : ρ → Int → Bool
  confirmed : ρ → Nat → Bool

namespace Watch

variable {ρ : Type} (w : Watch ρ)

/-- The times after the first half of a round. -/
def hear (times : Nat → Int) (r : ρ) (k : Nat) : Int := (w.heard r k).getD (times k)

/-- The server is watched, and its last sign of life is too old. -/
def suspects (times : Nat → Int) (r : ρ) (k : Nat) : Bool := w.peers k && w.late r (times k)

/-- The judging gets past every server up to this one. -/
def judges (times : Nat → Int) (r : ρ) (k : Nat) : Bool :=
  (List.range (k + 1)).all fun j => !w.suspects times r j || w.confirmed r j

/-- A round. -/
def round (d : Detector) (r : ρ) : Detector where
  heardAt := w.hear d.heardAt r
  down := fun k =>
    if w.judges (w.hear d.heardAt r) r k then w.suspects (w.hear d.heardAt r) r k else d.down k

/-- A run. -/
def run (d : Detector) (rs : List ρ) : Detector := rs.foldl w.round d

/-! ## One round -/

variable {w} {d : Detector} {times : Nat → Int} {r : ρ} {k : Nat}

theorem suspects_iff :
    w.suspects times r k = true ↔ w.peers k = true ∧ w.late r (times k) = true :=
  Bool.and_eq_true_iff

theorem judges_iff :
    w.judges times r k = true ↔
      ∀ j ≤ k, w.suspects times r j = true → w.confirmed r j = true := by
  unfold judges
  rw [List.all_eq_true]
  constructor
  · intro hall j hj hs
    have hor := hall j (List.mem_range.mpr (Nat.lt_succ_of_le hj))
    rw [hs] at hor
    exact hor
  · intro hall j hj
    cases hs : w.suspects times r j with
    | false => rfl
    | true => exact hall j (Nat.le_of_lt_succ (List.mem_range.mp hj)) hs

theorem round_judged (hj : w.judges (w.hear d.heardAt r) r k = true) :
    (w.round d r).down k = w.suspects (w.hear d.heardAt r) r k := if_pos hj

theorem round_unjudged (hj : ¬ w.judges (w.hear d.heardAt r) r k = true) :
    (w.round d r).down k = d.down k := if_neg hj

/-! ## Runs -/

/-- A round of a run that has one more at its end. -/
theorem round_of_concat {rs pre post : List ρ} {r r' : ρ}
    (h : rs ++ [r] = pre ++ r' :: post) :
    (pre = rs ∧ r' = r ∧ post = []) ∨ ∃ rest, post = rest ++ [r] ∧ rs = pre ++ r' :: rest := by
  induction post using List.reverseRecOn with
  | nil =>
    obtain ⟨hpre, hr⟩ := List.append_inj' h rfl
    exact Or.inl ⟨hpre.symm, (List.singleton_inj.mp hr).symm, rfl⟩
  | append_singleton rest r'' _ =>
    rw [← List.cons_append, ← List.append_assoc] at h
    obtain ⟨hrs, hr⟩ := List.append_inj' h rfl
    exact Or.inr ⟨rest, congrArg _ hr.symm, hrs⟩

variable (w)

theorem run_concat (d : Detector) (rs : List ρ) (r : ρ) :
    w.run d (rs ++ [r]) = w.round (w.run d rs) r := by
  unfold run
  rw [List.foldl_append]
  rfl

/-- The last time at which these rounds heard the server, or else this one. -/
def lastHeard (times : Nat → Int) (rs : List ρ) (k : Nat) : Int :=
  (rs.filterMap fun r => w.heard r k).getLast?.getD (times k)

theorem lastHeard_concat (times : Nat → Int) (rs : List ρ) (r : ρ) (k : Nat) :
    w.lastHeard times (rs ++ [r]) k = (w.heard r k).getD (w.lastHeard times rs k) := by
  unfold lastHeard
  rw [List.filterMap_append]
  cases hr : w.heard r k with
  | none =>
    rw [List.filterMap_cons, hr, List.filterMap_nil, List.append_nil]
    rfl
  | some t =>
    rw [List.filterMap_cons, hr, List.filterMap_nil, List.getLast?_concat]
    rfl

/-- **What is remembered** of a server is the last time at which it was heard. -/
theorem heardAt_run (d : Detector) (rs : List ρ) :
    (w.run d rs).heardAt = w.lastHeard d.heardAt rs := by
  induction rs using List.reverseRecOn with
  | nil => rfl
  | append_singleton rs r ih =>
    funext k
    rw [run_concat, lastHeard_concat, ← ih]
    rfl

/-- The round judges the server, coming after these rounds. -/
def Judged (times : Nat → Int) (pre : List ρ) (r : ρ) (k : Nat) : Prop :=
  w.judges (w.lastHeard times (pre ++ [r])) r k = true

/-- It suspects the server. -/
def Suspected (times : Nat → Int) (pre : List ρ) (r : ρ) (k : Nat) : Prop :=
  w.suspects (w.lastHeard times (pre ++ [r])) r k = true

/-- None of these rounds judges the server, coming after those. -/
def Unjudged (times : Nat → Int) (pre post : List ρ) (k : Nat) : Prop :=
  ∀ mid r rest, post = mid ++ r :: rest → ¬ w.Judged times (pre ++ mid) r k

theorem unjudged_nil (times : Nat → Int) (pre : List ρ) (k : Nat) :
    w.Unjudged times pre [] k := fun mid r rest h => by
  have hlen := congrArg List.length h
  rw [List.length_append, List.length_cons] at hlen
  cases hlen

theorem unjudged_concat (times : Nat → Int) (pre post : List ρ) (r : ρ) (k : Nat) :
    w.Unjudged times pre (post ++ [r]) k ↔
      w.Unjudged times pre post k ∧ ¬ w.Judged times (pre ++ post) r k := by
  constructor
  · intro hun
    refine ⟨fun mid r' rest h => hun mid r' (rest ++ [r]) ?_, hun post r [] rfl⟩
    rw [h, List.append_assoc]
    rfl
  · rintro ⟨hun, hlast⟩ mid r' rest h
    rcases round_of_concat h with ⟨rfl, rfl, _⟩ | ⟨rest', _, hpost⟩
    · exact hlast
    · exact hun mid r' rest' hpost

/-- The state of a server, told from the last round that judged it. -/
def GivenUp (d : Detector) (rs : List ρ) (k : Nat) : Prop :=
  (∃ pre r post, rs = pre ++ r :: post ∧ w.Judged d.heardAt pre r k ∧
      w.Suspected d.heardAt pre r k ∧ w.Unjudged d.heardAt (pre ++ [r]) post k) ∨
    d.down k = true ∧ w.Unjudged d.heardAt [] rs k

theorem round_times (d : Detector) (rs : List ρ) (r : ρ) :
    w.hear (w.run d rs).heardAt r = w.lastHeard d.heardAt (rs ++ [r]) := by
  funext k
  rw [lastHeard_concat, heardAt_run]
  rfl

/-- **A server is given up** at the end of a run exactly when it was suspected in the last round
that judged it, or was given up before and never judged. -/
theorem down_run_iff (d : Detector) (rs : List ρ) (k : Nat) :
    (w.run d rs).down k = true ↔ w.GivenUp d rs k := by
  induction rs using List.reverseRecOn with
  | nil =>
    constructor
    · exact fun hd => Or.inr ⟨hd, unjudged_nil w _ _ _⟩
    · rintro (⟨pre, r, post, h, _⟩ | ⟨hd, _⟩)
      · exact absurd h (List.append_ne_nil_of_right_ne_nil _ (List.cons_ne_nil _ _)).symm
      · exact hd
  | append_singleton rs r ih =>
    rw [run_concat]
    by_cases hj : w.Judged d.heardAt rs r k
    · rw [round_judged (by rw [round_times]; exact hj), round_times]
      constructor
      · exact fun hs => Or.inl ⟨rs, r, [], rfl, hj, hs, unjudged_nil w _ _ _⟩
      · rintro (⟨pre, r', post, h, _, hs, hun⟩ | ⟨_, hun⟩)
        · rcases round_of_concat h with ⟨rfl, rfl, _⟩ | ⟨rest, rfl, rfl⟩
          · exact hs
          · have hnot := ((unjudged_concat w _ _ _ _ _).mp hun).2
            rw [List.append_assoc] at hnot
            exact absurd hj hnot
        · exact absurd hj ((unjudged_concat w _ _ _ _ _).mp hun).2
    · rw [round_unjudged (by rw [round_times]; exact hj), ih]
      constructor
      · rintro (⟨pre, r', post, rfl, hj', hs, hun⟩ | ⟨hd, hun⟩)
        · refine Or.inl ⟨pre, r', post ++ [r], ?_, hj', hs, ?_⟩
          · rw [List.append_assoc]
            rfl
          · refine (unjudged_concat w _ _ _ _ _).mpr ⟨hun, ?_⟩
            rwa [List.append_assoc]
        · exact Or.inr ⟨hd, (unjudged_concat w _ _ _ _ _).mpr ⟨hun, hj⟩⟩
      · rintro (⟨pre, r', post, h, hj', hs, hun⟩ | ⟨hd, hun⟩)
        · rcases round_of_concat h with ⟨rfl, rfl, _⟩ | ⟨rest, rfl, rfl⟩
          · exact absurd hj' hj
          · exact Or.inl ⟨pre, r', rest, rfl, hj', hs, ((unjudged_concat w _ _ _ _ _).mp hun).1⟩
        · exact Or.inr ⟨hd, ((unjudged_concat w _ _ _ _ _).mp hun).1⟩

/-- A server that no round suspects is not given up. -/
theorem never_down {d : Detector} {rs : List ρ} {k : Nat} (hd : d.down k = false)
    (hs : ∀ pre r post, rs = pre ++ r :: post → ¬ w.Suspected d.heardAt pre r k) :
    (w.run d rs).down k = false := by
  rw [← Bool.not_eq_true, down_run_iff]
  rintro (⟨pre, r, post, h, _, hsus, _⟩ | ⟨hup, _⟩)
  · exact hs pre r post h hsus
  · rw [hd] at hup
    exact Bool.false_ne_true hup

end Watch

end JcmController.Lib
