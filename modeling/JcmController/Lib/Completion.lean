import Mathlib.Data.List.Nodup
import JcmController.Lib.Machine

/-!
# Pieces of work completed in any order

A list of pieces is issued one after the other; a piece that has been issued completes at any
time, once, well or not. `cbs` says which pieces carry a callback: it runs when the piece completes
and is told how.

Results:
* `run_completed`: the callbacks of a run are those of the pieces it completed, in their order.
* `callbacks_head`: where the first piece alone carries one, it runs once in every run that
  completes all pieces.
* **`completesOnce_iff`**: such a run is one whose callback comes last and reports every failure
  exactly when the first piece completes last and fails where any piece does.
-/

namespace JcmController.Lib.Completion

/-- How many pieces have been issued, and which of them have completed, in order and with their
result. -/
structure Outstanding where
  issued : Nat
  done : List (Nat × Bool)
  deriving DecidableEq, Repr

/-- What happens next. -/
inductive Act where
  | issue
  | complete (k : Nat) (ok : Bool)
  deriving DecidableEq, Repr

/-- The callback of a piece. -/
def callback (cbs : List Bool) (p : Nat × Bool) : List Bool :=
  if cbs.getD p.1 false then [p.2] else []

/-- One step. Its events are the callbacks. -/
def step (cbs : List Bool) (s : Outstanding) : Act → Outstanding × List Bool
  | .issue => if s.issued < cbs.length then ({ s with issued := s.issued + 1 }, []) else (s, [])
  | .complete k ok =>
    if k < s.issued ∧ k ∉ s.done.map Prod.fst then
      ({ s with done := s.done ++ [(k, ok)] }, callback cbs (k, ok))
    else (s, [])

/-- Nothing has been issued. -/
def idle : Outstanding := ⟨0, []⟩

/-- The callbacks of a run. -/
def callbacks (cbs : List Bool) (as : List Act) : List Bool :=
  (trace (step cbs) idle as).flatMap Taken.events

/-- Every piece has completed. -/
def AllDone (cbs : List Bool) (s : Outstanding) : Prop := ∀ k < cbs.length, k ∈ s.done.map Prod.fst

instance (cbs : List Bool) (s : Outstanding) : Decidable (AllDone cbs s) :=
  inferInstanceAs (Decidable (∀ k < _, _))

/-- The callback runs once, after every piece has completed, and reports an error exactly when some
piece failed. -/
structure CompletesOnce (cbs : List Bool) (as : List Act) : Prop where
  once : ∃ ok, callbacks cbs as = [ok] ∧
    (ok = false ↔ ∃ k, (k, false) ∈ (final (step cbs) idle as).done)
  after : ∀ t ∈ trace (step cbs) idle as, t.events ≠ [] →
    AllDone cbs (step cbs t.before t.input).1

/-- The first piece completes last, and fails where any piece does. -/
def HeadLast (done : List (Nat × Bool)) : Prop :=
  ∃ ok, done.getLast? = some (0, ok) ∧ ∀ k, (k, false) ∈ done → ok = false

/-- No piece has completed twice, nor before it was issued. -/
structure Sound (cbs : List Bool) (s : Outstanding) : Prop where
  issued : s.issued ≤ cbs.length
  done : ∀ k ∈ s.done.map Prod.fst, k < s.issued
  once : (s.done.map Prod.fst).Nodup

variable {cbs : List Bool}

theorem Sound.unique {s : Outstanding} (h : Sound cbs s) {k : Nat} {ok ok' : Bool}
    (hok : (k, ok) ∈ s.done) (hok' : (k, ok') ∈ s.done) : ok = ok' :=
  congrArg Prod.snd (List.inj_on_of_nodup_map h.once hok hok' rfl)

theorem sound_idle (cbs : List Bool) : Sound cbs idle :=
  ⟨Nat.zero_le _, fun _ hk => absurd hk List.not_mem_nil, List.nodup_nil⟩

/-- **What a step can do**: nothing, issue the next piece, or complete one. -/
theorem step_cases (cbs : List Bool) (s : Outstanding) (a : Act) :
    step cbs s a = (s, []) ∨
      (s.issued < cbs.length ∧ step cbs s a = ({ s with issued := s.issued + 1 }, [])) ∨
      ∃ k ok, k < s.issued ∧ k ∉ s.done.map Prod.fst ∧
        step cbs s a = ({ s with done := s.done ++ [(k, ok)] }, callback cbs (k, ok)) := by
  cases a with
  | issue =>
    by_cases hi : s.issued < cbs.length
    · exact Or.inr (Or.inl ⟨hi, if_pos hi⟩)
    · exact Or.inl (if_neg hi)
  | complete k ok =>
    by_cases hk : k < s.issued ∧ k ∉ s.done.map Prod.fst
    · exact Or.inr (Or.inr ⟨k, ok, hk.1, hk.2, if_pos hk⟩)
    · exact Or.inl (if_neg hk)

theorem step_sound {s : Outstanding} (h : Sound cbs s) (a : Act) : Sound cbs (step cbs s a).1 := by
  rcases step_cases cbs s a with he | ⟨hi, he⟩ | ⟨k, ok, hk, hnew, he⟩
  · rw [he]
    exact h
  · rw [he]
    exact ⟨hi, fun k hk => Nat.lt_succ_of_lt (h.done k hk), h.once⟩
  · rw [he]
    refine ⟨h.issued, fun j hj => ?_, ?_⟩
    · rw [List.map_append] at hj
      rcases List.mem_append.mp hj with hj | hj
      · exact h.done j hj
      · exact List.mem_singleton.mp hj ▸ hk
    · show ((s.done ++ [(k, ok)]).map Prod.fst).Nodup
      rw [List.map_append]
      refine List.nodup_append.mpr ⟨h.once, List.nodup_singleton k, fun a ha b hb hab => ?_⟩
      rw [hab, List.mem_singleton.mp hb] at ha
      exact hnew ha

theorem final_sound {s : Outstanding} (h : Sound cbs s) (as : List Act) :
    Sound cbs (final (step cbs) s as) := by
  have hstep : ∀ s a, Sound cbs s → True → Sound cbs (step cbs s a).1 :=
    fun _ a hs _ => step_sound hs a
  exact final_inv hstep as s h fun _ _ => trivial

/-- What a step completes. -/
theorem step_completed (cbs : List Bool) (s : Outstanding) (a : Act) :
    ∃ new, (step cbs s a).1.done = s.done ++ new ∧
      (step cbs s a).2 = new.flatMap (callback cbs) := by
  rcases step_cases cbs s a with he | ⟨_, he⟩ | ⟨k, ok, _, _, he⟩
  · rw [he]
    exact ⟨[], (List.append_nil _).symm, rfl⟩
  · rw [he]
    exact ⟨[], (List.append_nil _).symm, rfl⟩
  · rw [he]
    exact ⟨[(k, ok)], rfl, (List.append_nil _).symm⟩

/-- **What a run completes**, and the callbacks that run for it. -/
theorem run_completed (cbs : List Bool) (s : Outstanding) (as : List Act) :
    ∃ new, (final (step cbs) s as).done = s.done ++ new ∧
      (trace (step cbs) s as).flatMap Taken.events = new.flatMap (callback cbs) := by
  induction as generalizing s with
  | nil => exact ⟨[], (List.append_nil _).symm, rfl⟩
  | cons a as ih =>
    obtain ⟨new, hdone, hevents⟩ := step_completed cbs s a
    obtain ⟨later, hfinal, hrest⟩ := ih (step cbs s a).1
    refine ⟨new ++ later, ?_, ?_⟩
    · show (final (step cbs) (step cbs s a).1 as).done = _
      rw [hfinal, hdone, List.append_assoc]
    · show (step cbs s a).2 ++ (trace (step cbs) (step cbs s a).1 as).flatMap Taken.events = _
      rw [hevents, hrest, List.flatMap_append]

/-! ## The first piece alone carries a callback -/

/-- Where every piece has completed, none completes after. -/
theorem AllDone.eq_nil {s : Outstanding} (h : AllDone cbs s) {new : List (Nat × Bool)}
    {s' : Outstanding} (hs' : Sound cbs s') (hdone : s'.done = s.done ++ new) : new = [] := by
  cases new with
  | nil => rfl
  | cons p new =>
    have honce := hs'.once
    rw [hdone, List.map_append] at honce
    have hmem : p.1 ∈ s'.done.map Prod.fst := by
      rw [hdone, List.map_append]
      exact List.mem_append_right _ List.mem_cons_self
    have hk : p.1 < cbs.length := Nat.lt_of_lt_of_le (hs'.done _ hmem) hs'.issued
    exact absurd rfl ((List.nodup_append.mp honce).2.2 p.1 (h p.1 hk) p.1 List.mem_cons_self)

section Head

/-- The first piece alone carries a callback. -/
def HeadOnly (cbs : List Bool) : Prop := ∀ k, cbs.getD k false = decide (k = 0)

theorem callback_head (hc : HeadOnly cbs) (p : Nat × Bool) :
    callback cbs p = if p.1 = 0 then [p.2] else [] := by
  unfold callback
  rw [hc]
  exact if_congr decide_eq_true_iff rfl rfl

/-- Of pieces that completed once, the first one among them, its callback ran once. -/
theorem flatMap_callback_head (hc : HeadOnly cbs) {done : List (Nat × Bool)}
    (honce : (done.map Prod.fst).Nodup) {ok : Bool} (hmem : (0, ok) ∈ done) :
    done.flatMap (callback cbs) = [ok] := by
  obtain ⟨pre, post, rfl⟩ := List.append_of_mem hmem
  rw [List.map_append, List.map_cons] at honce
  obtain ⟨-, hpost, hdisj⟩ := List.nodup_append.mp honce
  have hpre : pre.flatMap (callback cbs) = [] := by
    refine List.flatMap_eq_nil_iff.mpr fun p hp => ?_
    rw [callback_head hc, if_neg fun h => hdisj p.1 (List.mem_map_of_mem hp) 0 List.mem_cons_self h]
  have hrest : post.flatMap (callback cbs) = [] := by
    refine List.flatMap_eq_nil_iff.mpr fun p hp => ?_
    have hne : p.1 ≠ 0 := by
      intro h
      have hp' : p.1 ∈ post.map Prod.fst := List.mem_map_of_mem hp
      exact (List.nodup_cons.mp hpost).1 (h ▸ hp')
    rw [callback_head hc, if_neg hne]
  rw [List.flatMap_append, List.flatMap_cons, hpre, hrest, callback_head hc, if_pos rfl]
  rfl

/-- **The callback runs once** in every run that completes all pieces. -/
theorem callbacks_head (hc : HeadOnly cbs) (hpos : 0 < cbs.length) {as : List Act}
    (hall : AllDone cbs (final (step cbs) idle as)) :
    ∃ ok, (0, ok) ∈ (final (step cbs) idle as).done ∧ callbacks cbs as = [ok] := by
  obtain ⟨⟨k, ok⟩, hmem, rfl⟩ := List.mem_map.mp (hall 0 hpos)
  obtain ⟨new, hdone, hevents⟩ := run_completed cbs idle as
  have honce := (final_sound (sound_idle cbs) as).once
  rw [hdone] at honce hmem
  refine ⟨ok, hdone ▸ hmem, ?_⟩
  unfold callbacks
  rw [hevents]
  exact flatMap_callback_head hc honce hmem

/-- Where the callback runs, the first piece completes. -/
theorem step_head (hc : HeadOnly cbs) {s : Outstanding} {a : Act} (h : (step cbs s a).2 ≠ []) :
    ∃ ok, (step cbs s a).1.done = s.done ++ [(0, ok)] := by
  rcases step_cases cbs s a with he | ⟨_, he⟩ | ⟨k, ok, _, _, he⟩
  · rw [he] at h
    exact absurd rfl h
  · rw [he] at h
    exact absurd rfl h
  · rw [he] at h ⊢
    simp only [callback_head hc] at h
    by_cases hk : k = 0
    · exact ⟨ok, hk ▸ rfl⟩
    · rw [if_neg hk] at h
      exact absurd rfl h

/-- **When the callback is right**: the first piece completes last, and fails where any does. -/
theorem completesOnce_iff (hc : HeadOnly cbs) (hpos : 0 < cbs.length) {as : List Act}
    (hall : AllDone cbs (final (step cbs) idle as)) :
    CompletesOnce cbs as ↔ HeadLast (final (step cbs) idle as).done := by
  obtain ⟨ok, hmem, hcalls⟩ := callbacks_head hc hpos hall
  have hsound := final_sound (sound_idle cbs) as
  constructor
  · rintro ⟨⟨ok', hcalls', herr⟩, hafter⟩
    obtain rfl : ok = ok' := List.singleton_inj.mp (hcalls.symm.trans hcalls')
    -- the step in which the callback runs is the last that completes anything
    have hin : ok ∈ callbacks cbs as := hcalls ▸ List.mem_singleton_self ok
    obtain ⟨t, ht, hok⟩ := List.mem_flatMap.mp hin
    obtain ⟨pre, post, hsplit⟩ := List.append_of_mem ht
    obtain ⟨hevents, rest, -, hfinal⟩ := trace_split hsplit
    have hne : t.events ≠ [] := List.ne_nil_of_mem hok
    obtain ⟨new, hdone, -⟩ := run_completed cbs (step cbs t.before t.input).1 rest
    obtain ⟨ok', hhead⟩ := step_head hc (hevents ▸ hne)
    have hnil := (hafter t ht hne).eq_nil (final_sound (sound_idle cbs) as) (hfinal ▸ hdone)
    rw [hnil, List.append_nil, hhead, ← hfinal] at hdone
    have hlast : (final (step cbs) idle as).done.getLast? = some (0, ok') := by
      rw [hdone]
      exact List.getLast?_concat
    obtain rfl : ok = ok' := hsound.unique hmem (List.mem_of_getLast? hlast)
    exact ⟨ok, hlast, fun k hk => herr.mpr ⟨k, hk⟩⟩
  · rintro ⟨ok', hlast, herr⟩
    obtain rfl : ok = ok' := hsound.unique hmem (List.mem_of_getLast? hlast)
    refine ⟨⟨ok, hcalls, fun h => ⟨0, h ▸ hmem⟩, fun ⟨k, hk⟩ => herr k hk⟩, fun t ht hne => ?_⟩
    obtain ⟨pre, post, hsplit⟩ := List.append_of_mem ht
    obtain ⟨hevents, rest, -, hfinal⟩ := trace_split hsplit
    obtain ⟨new, hdone, -⟩ := run_completed cbs (step cbs t.before t.input).1 rest
    obtain ⟨ok', hhead⟩ := step_head hc (hevents ▸ hne)
    rw [← hfinal] at hdone
    have hnil : new = [] := by
      by_contra hnew
      -- the first piece would have completed twice
      have hmem' : (0, ok) ∈ new := by
        rw [hdone, List.getLast?_append_of_ne_nil _ hnew] at hlast
        exact List.mem_of_getLast? hlast
      have honce := hsound.once
      rw [hdone, hhead, List.map_append] at honce
      refine (List.nodup_append.mp honce).2.2 0 ?_ 0 (List.mem_map.mpr ⟨_, hmem', rfl⟩) rfl
      rw [List.map_append]
      exact List.mem_append_right _ List.mem_cons_self
    rw [hnil, List.append_nil] at hdone
    intro k hk
    rw [← hdone]
    exact hall k hk

end Head

end JcmController.Lib.Completion
