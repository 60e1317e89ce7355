import JcmController.Backup.Converge
import JcmController.Backup.Drain

/-!
# The backup catches up

When no `vrd_make_request` is in progress the thread is left with what is in the queue. `lag` counts
the steps it has to take at most before nothing is left: from where it is to where it takes an entry
out, and what every entry needs. It does not matter how its waits end: where an entry is left the
bit is set, which is what `EventFlag` says of the sleeping thread's model.

Results:
* `threadStep_lag`: every step of the thread takes from the lag.
* `move_wakes`: a step of the ramdisk and its backup is a run of the sleeping thread's model, in
  which nobody sleeps.
* **`backup_catches_up`**: after every safe run that leaves no request in progress, the thread's own
  steps, with its I/O completing and its pages filled, end with the queue empty and with every
  sector that was written on the backup device.
-/

namespace JcmController.Backup

open JcmController.Lib JcmController.Lib.ListHead JcmController.Lib.LockedQueue

variable {ι ν P : Type}

/-! ## The lag -/

/-- The steps from the place of the thread to where it takes an entry out, or has done with the one
in its hands and looks at the queue again. -/
def ThreadPc.distance (bio : ν → Clone) : ThreadPc ν → Nat
  | .err | .exited => 0
  | .picking => 4
  | .entered => 5
  | .loop => 6
  | .start | .check => 7
  | .woken | .freeing _ => 8
  | .waiting | .waitingIo _ => 9
  | .empty => 10
  | .filling _ _ _ todo => todo.length + 10
  | .deleted q => (bio q).biIoVec.length + 11
  | .deleting _ ss => ss.length + 1

/-- Nothing is left to do. -/
def State.CaughtUp (s : State ι ν) : Prop := s.thread.idle = true ∧ s.pending = 0

instance (s : State ι ν) : Decidable s.CaughtUp := inferInstanceAs (Decidable (_ ∧ _))

def State.lag (s : State ι ν) : Nat :=
  if s.CaughtUp then 0 else s.thread.distance s.bio + s.pending

def System.lag (s : System ι ν P) : Nat := s.backup.lag

theorem caughtUp_of_lag {s : State ι ν} (halive : s.thread.ended = false) (h : s.lag = 0) :
    s.CaughtUp := by
  by_contra hnot
  have hzero : s.thread.distance s.bio = 0 := by
    rw [State.lag, if_neg hnot] at h
    omega
  cases hpc : s.thread with
  | err | exited =>
    rw [hpc] at halive
    cases halive
  | _ =>
    rw [hpc] at hzero
    cases hzero

/-- The thread goes on and the queue stays what it is. -/
theorem lag_threadAt {s t : State ι ν} {pc pc' : ThreadPc ν} (hnot : ¬ s.CaughtUp)
    (hpc : s.thread = pc) (hbio : t.bio = s.bio) (henq : t.enqueued = s.enqueued)
    (htaken : t.taken = s.taken) (hdist : pc'.distance s.bio < pc.distance s.bio) :
    (t.threadAt pc').lag ≤ s.lag - 1 := by
  have hpend : (t.threadAt pc').pending = s.pending := by
    show ((t.enqueued.drop t.taken.length).map _).sum = _
    rw [henq, htaken]
    rfl
  have hle : (t.threadAt pc').lag ≤ pc'.distance s.bio + s.pending := by
    unfold State.lag
    split_ifs
    · exact Nat.zero_le _
    · rw [hpend]
      show pc'.distance t.bio + _ ≤ _
      rw [hbio]
  have hbefore : s.lag = pc.distance s.bio + s.pending := by
    rw [State.lag, if_neg hnot, hpc]
  rw [hbefore]
  omega

/-! ## A step of the thread -/

section Steps

variable [DecidableEq ν]

theorem pending_eq_zero_iff {Good : Clone → Prop} {s : State ι ν} {xs : List ν}
    (hi : Inv Good s.view xs) : s.pending = 0 ↔ s.mem.next s.queue = s.queue := by
  have horder : s.enqueued = s.taken ++ xs.map s.bio := hi.order
  have hle : s.taken.length ≤ s.enqueued.length := by
    rw [horder, List.length_append]
    exact Nat.le_add_right _ _
  rw [pending_eq_zero, empty_iff hi]
  omega

/-- **Where nothing is left, nothing comes.** -/
theorem threadStep_caughtUp {Good : Clone → Prop} {s : State ι ν} {xs : List ν}
    (hi : Inv Good s.view xs) (h : s.CaughtUp) (o : Outcome) : (threadStep s o).1.CaughtUp := by
  obtain ⟨hidle, hpend⟩ := h
  cases hpc : s.thread with
  | err | exited =>
    simp only [threadStep, hpc]
    exact ⟨hidle, hpend⟩
  | start =>
    rw [threadStep_edge (Or.inl hpc)]
    refine ⟨?_, hpend⟩
    show ThreadPc.idle (if s.shouldStop then .exited else .loop) = true
    split <;> rfl
  | check =>
    rw [threadStep_edge (Or.inr hpc)]
    refine ⟨?_, hpend⟩
    show ThreadPc.idle (if s.shouldStop then .exited else .loop) = true
    split <;> rfl
  | loop =>
    simp only [threadStep, hpc]
    split
    · exact ⟨rfl, hpend⟩
    · exact ⟨hidle, hpend⟩
  | entered =>
    simp only [threadStep, hpc, if_pos ((pending_eq_zero_iff hi).mp hpend)]
    exact ⟨rfl, hpend⟩
  | empty | woken =>
    simp only [threadStep, hpc]
    exact ⟨rfl, hpend⟩
  | waiting =>
    simp only [threadStep, hpc]
    refine ⟨?_, hpend⟩
    show ThreadPc.idle (if s.bestioCondition ≠ 0 ∨ o.expired then .woken else .waiting) = true
    split <;> rfl
  | _ =>
    rw [hpc] at hidle
    cases hidle

/-- **Every step of the thread takes from the lag.** -/
theorem threadStep_lag {Good : Clone → Prop} {s : State ι ν} {xs : List ν}
    (hi : Inv Good s.view xs) (haway : ∀ k, (s.submitter k).away = true)
    (hset : s.thread = .waiting → s.pending ≠ 0 → s.bestioCondition ≠ 0)
    (hstop : s.shouldStop = false) (halive : s.thread.ended = false) {o : Outcome}
    (ho : o.complete = true) : (threadStep s o).1.lag ≤ s.lag - 1 := by
  by_cases hcaught : s.CaughtUp
  · rw [State.lag, if_pos (threadStep_caughtUp hi hcaught o)]
    exact Nat.zero_le _
  have hleft : s.thread.idle = true → s.pending ≠ 0 := fun hidle hpend => hcaught ⟨hidle, hpend⟩
  cases hpc : s.thread with
  | err | exited =>
    rw [hpc] at halive
    cases halive
  | start =>
    rw [threadStep_edge (Or.inl hpc), hstop]
    exact lag_threadAt hcaught hpc rfl rfl rfl (Nat.lt_succ_self 6)
  | check =>
    rw [threadStep_edge (Or.inr hpc), hstop]
    exact lag_threadAt hcaught hpc rfl rfl rfl (Nat.lt_succ_self 6)
  | loop =>
    rw [threadStep_enters hpc (thread_enters hi haway hpc)]
    exact lag_threadAt hcaught hpc rfl rfl rfl (Nat.lt_succ_self 5)
  | entered =>
    have hmore : ¬ s.mem.next s.queue = s.queue := by
      rw [← pending_eq_zero_iff hi]
      exact hleft (by rw [hpc]; rfl)
    simp only [threadStep, hpc, if_neg hmore]
    exact lag_threadAt hcaught hpc rfl rfl rfl (Nat.lt_succ_self 4)
  | empty =>
    simp only [threadStep, hpc]
    exact lag_threadAt hcaught hpc rfl rfl rfl (Nat.lt_succ_self 9)
  | waiting =>
    have hbit := hset hpc (hleft (by rw [hpc]; rfl))
    have hwaits : s.thread.waits = true := by
      rw [hpc]
      rfl
    rw [threadStep_waits hwaits (Or.inl hbit)]
    exact lag_threadAt hcaught hpc rfl rfl rfl (Nat.lt_succ_self 8)
  | woken =>
    simp only [threadStep, hpc]
    exact lag_threadAt hcaught hpc rfl rfl rfl (Nat.lt_succ_self 7)
  | picking =>
    simp only [threadStep, hpc]
    exact lag_threadAt hcaught hpc rfl rfl rfl (show 2 + 1 < 4 by decide)
  | deleting q ss =>
    obtain ⟨hss, hpend⟩ := pending_unlinked hi hpc
    rcases ss with _ | ⟨x, _ | ⟨y, ss⟩⟩
    · exact absurd rfl hss
    · rw [threadStep_unlinked hpc]
      -- the entry that is taken out pays for the steps that its pages need
      have hafter : (State.threadAt { s with
          mem := s.mem.store x
          taken := s.taken ++ [s.bio q] } (.deleted q)).lag = (s.bio q).biIoVec.length + 11 +
            ((s.enqueued.drop (s.taken ++ [s.bio q]).length).map
              fun c => c.biIoVec.length + 20).sum := if_neg fun h => Bool.false_ne_true h.1
      have hbefore : s.lag = 2 + s.pending := by
        rw [State.lag, if_neg hcaught, hpc]
        rfl
      rw [hafter, hbefore, hpend]
      omega
    · simp only [threadStep, hpc]
      exact lag_threadAt hcaught hpc rfl rfl rfl (Nat.lt_succ_self _)
  | deleted q =>
    rw [threadStep_deleted hpc]
    exact lag_threadAt hcaught hpc rfl rfl rfl (Nat.lt_succ_self _)
  | filling q c done todo =>
    cases todo with
    | nil =>
      rw [threadStep_submits hpc]
      exact lag_threadAt hcaught hpc rfl rfl rfl (Nat.lt_succ_self 9)
    | cons v todo =>
      simp only [threadStep, hpc]
      cases fillPage v o with
      | ok page => exact lag_threadAt hcaught hpc rfl rfl rfl (Nat.lt_succ_self (todo.length + 10))
      | error msg =>
        exact lag_threadAt hcaught hpc rfl rfl rfl (show 8 < todo.length + 1 + 10 by omega)
  | waitingIo q =>
    simp only [threadStep, hpc, ho]
    exact lag_threadAt hcaught hpc rfl rfl rfl (Nat.lt_succ_self 8)
  | freeing q =>
    simp only [threadStep, hpc]
    exact lag_threadAt hcaught hpc rfl rfl rfl (Nat.lt_succ_self 7)

end Steps

/-! ## Runs in which nobody sleeps -/

section Runs

variable [DecidableEq ι] [DecidableEq ν]

/-- Nobody sleeps, and nobody has a wake-up to make. -/
def Sleeper.up (s : State ι ν) : Sleeper ι ν := ⟨s, .awake, fun _ => false⟩

/-- A step of the thread: a look at the bit that ends the wait is one test of it or two. -/
theorem thread_wakes (s : State ι ν) (o : Outcome) : ∃ acts : List (WakeAct ι ν P),
      final wakeStep (Sleeper.up s) acts = Sleeper.up (threadStep s o).1 := by
  by_cases hwaits : s.thread.waits = true
  · have hstep : ∀ w, wakeStep (⟨s, w, fun _ => false⟩ : Sleeper ι ν)
        (.step (.thread o) : WakeAct ι ν P) = (waitEvent ⟨s, w, fun _ => false⟩ o, []) :=
      fun w => if_pos hwaits
    by_cases hcond : s.bestioCondition ≠ 0
    · refine ⟨[.step (.thread o)], ?_⟩
      show (wakeStep (Sleeper.up s) _).1 = _
      rw [Sleeper.up, hstep]
      simp only [waitEvent, if_pos hcond]
      rfl
    · by_cases hexp : o.expired = true
      · refine ⟨[.step (.thread o), .step (.thread o)], ?_⟩
        have hqueued : waitEvent (⟨s, .awake, fun _ => false⟩ : Sleeper ι ν) o =
            ⟨s, .queued, fun _ => false⟩ := if_neg hcond
        show (wakeStep (wakeStep (Sleeper.up s) _).1 _).1 = _
        rw [Sleeper.up, hstep]
        simp only [hqueued]
        rw [hstep]
        simp only [waitEvent, if_pos (Or.inr hexp : s.bestioCondition ≠ 0 ∨ o.expired = true)]
        rfl
      · refine ⟨[], ?_⟩
        have hsame : (threadStep s o).1 = s := by
          cases hpc : s.thread with
          | waiting =>
            simp only [threadStep, hpc, if_neg (not_or.mpr ⟨hcond, hexp⟩)]
            rw [← hpc]
            rfl
          | _ =>
            rw [hpc] at hwaits
            cases hwaits
        rw [hsame]
        rfl
  · refine ⟨[.step (.thread o)], ?_⟩
    show (if s.thread.waits = true then (waitEvent (Sleeper.up s) o, [])
      else ({ Sleeper.up s with base := (threadStep s o).1 }, (threadStep s o).2)).1 = _
    rw [if_neg hwaits]
    rfl

/-- A call of the hook. -/
theorem call_wakes (s : State ι ν) (k : ι) (bio : Bio P) (junk : Nat → BioVec UInt64) :
    final wakeStep (Sleeper.up s) [.step (.call k bio junk)] =
      Sleeper.up (bestioBackupBio s k bio junk) := rfl

/-- A step of a submitter, with its wake-up. -/
theorem submitter_wakes (s : State ι ν) (k : ι) (node : ν) :
    final wakeStep (Sleeper.up s) [.step (.submitter k node), (.wakeUp k : WakeAct ι ν P)] =
      Sleeper.up (submitterStep s k node) := by
  have hstep : (wakeStep (Sleeper.up s) (.step (.submitter k node) : WakeAct ι ν P)).1 =
      ⟨submitterStep s k node, .awake, (Sleeper.up s).announces k⟩ := rfl
  have hothers : Function.update ((Sleeper.up s).announces k) k false = fun _ => false := by
    unfold Sleeper.announces
    split
    · rw [Function.update_idem]
      exact Function.update_eq_self k _
    · exact Function.update_eq_self k _
  show (wakeStep (wakeStep (Sleeper.up s) _).1 (.wakeUp k)).1 = _
  rw [hstep]
  by_cases hw : (Sleeper.up s).announces k k = true
  · simp only [wakeStep, if_pos hw, hothers]
    rfl
  · have hnone : (Sleeper.up s).announces k = fun _ => false := by
      rw [← hothers, ← Bool.eq_false_iff.mpr hw, Function.update_eq_self]
    simp only [wakeStep, hnone]
    rfl

/-- What a step of the ramdisk and its backup is to the backup. -/
theorem move_backup (s : System ι ν P) (m : Move ι ν P) :
    (move s m).1.backup = s.backup ∨
      (∃ k, ∃ bio : Bio P, ∃ junk, (move s m).1.backup = bestioBackupBio s.backup k bio junk) ∨
      (∃ k node, (move s m).1.backup = submitterStep s.backup k node) ∨
      ∃ o, (move s m).1.backup = (threadStep s.backup o).1 := by
  cases m with
  | request k bio junk =>
    have hcall : (vrdMakeRequest s k bio.val junk).backup = s.backup ∨
        (vrdMakeRequest s k bio.val junk).backup = bestioBackupBio s.backup k bio.val junk := by
      unfold vrdMakeRequest
      repeat' split
      all_goals first
        | exact Or.inl rfl
        | exact Or.inr rfl
    exact hcall.imp_right fun heq => Or.inl ⟨k, bio.val, junk, heq⟩
  | hook k node => exact Or.inr (Or.inr (Or.inl ⟨k, node, hookStep_backup s k node⟩))
  | copy k page =>
    refine Or.inl ?_
    show (copyStep s k page).backup = s.backup
    unfold copyStep
    repeat' split
    all_goals rfl
  | thread o => exact Or.inr (Or.inr (Or.inr ⟨_, rfl⟩))

/-- **A step of the ramdisk and its backup** is a run of the sleeping thread's model. -/
theorem move_wakes (s : System ι ν P) (m : Move ι ν P) : ∃ acts : List (WakeAct ι ν P),
    final wakeStep (Sleeper.up s.backup) acts = Sleeper.up (move s m).1.backup := by
  rcases move_backup s m with heq | ⟨k, bio, junk, heq⟩ | ⟨k, node, heq⟩ | ⟨o, heq⟩ <;> rw [heq]
  · exact ⟨[], rfl⟩
  · exact ⟨_, call_wakes _ k bio junk⟩
  · exact ⟨_, submitter_wakes _ k node⟩
  · exact thread_wakes _ o

omit [DecidableEq ν] in
theorem bestioBackupBio_stop (s : State ι ν) (k : ι) (bio : Bio P) (junk : Nat → BioVec UInt64) :
    (bestioBackupBio s k bio junk).shouldStop = s.shouldStop := by
  unfold bestioBackupBio
  repeat' split
  all_goals rfl

theorem submitterStep_stop (s : State ι ν) (k : ι) (node : ν) :
    (submitterStep s k node).shouldStop = s.shouldStop := by
  unfold submitterStep
  repeat' split
  all_goals rfl

/-- What holds of every state of a run: nobody tells the thread to end, and the bit is set or about
to be set where an entry is left. -/
structure Watched (b : Boot ν) (s : State ι ν) : Prop where
  stop : s.shouldStop = false
  alive : s.thread.ended = false
  rested : Rested b (Sleeper.up s)

theorem move_watched {b : Boot ν} {s : System ι ν P} (h : Watched b s.backup) (m : Move ι ν P) :
    Watched b (move s m).1.backup := by
  have hstep : ∀ (t : Sleeper ι ν) (a : WakeAct ι ν P), Rested b t → True →
      Rested b (wakeStep t a).1 := fun t a ht _ => wakeStep_rested ht a
  obtain ⟨acts, hacts⟩ := move_wakes s m
  have hrested : Rested b (Sleeper.up (move s m).1.backup) := by
    rw [← hacts]
    exact final_inv hstep acts _ h.rested fun _ _ => trivial
  obtain ⟨hstop, halive⟩ : (move s m).1.backup.shouldStop = false ∧
      (move s m).1.backup.thread.ended = false := by
    rcases move_backup s m with heq | ⟨k, bio, junk, heq⟩ | ⟨k, node, heq⟩ | ⟨o, heq⟩ <;> rw [heq]
    · exact ⟨h.stop, h.alive⟩
    · rw [bestioBackupBio_stop, (bestioBackupBio_frame _ k bio junk).thread]
      exact ⟨h.stop, h.alive⟩
    · rw [submitterStep_stop, (submitterStep_frame _ k node).thread]
      exact ⟨h.stop, h.alive⟩
    · exact threadStep_alive h.stop h.alive o
  exact ⟨hstop, halive, hrested⟩

theorem final_watched {b : Boot ν} (hrunning : b.running = true) (size : UInt64)
    (memory : UInt64 → UInt8) (device : Nat → UInt8) (ms : List (Move ι ν P)) :
    Watched b (final move (started b size memory device) ms).backup := by
  have hstep : ∀ (s : System ι ν P) (m : Move ι ν P), Watched b s.backup → True →
      Watched b (move s m).1.backup := fun _ m h _ => move_watched h m
  have hthread : (backupInit (ι := ι) b).thread = .start := if_pos hrunning
  refine final_inv hstep ms _ ⟨rfl, ?_, rested_backupInit b⟩ fun _ _ => trivial
  show (backupInit (ι := ι) b).thread.ended = false
  rw [hthread]
  rfl

/-! ## The thread alone -/

/-- No request is in progress. -/
structure Resting (b : Boot ν) (s : System ι ν P) : Prop where
  tied : Tied b s
  upToDate : (s.mirror b.data).UpToDate
  watched : Watched b s.backup
  rest : ∀ k, s.req k = .rest

omit [DecidableEq ι] in
/-- No submitter is in the hook then. -/
theorem Resting.submitter {b : Boot ν} {s : System ι ν P} (h : Resting b s) (k : ι) :
    s.backup.submitter k = .rest := by
  have hjoined := h.tied.joined k
  rw [h.rest k] at hjoined
  generalize s.backup.submitter k = pc at hjoined ⊢
  cases hjoined
  rfl

omit [DecidableEq ι] in
/-- The bit is set where an entry is left. -/
theorem Resting.bit {b : Boot ν} {s : System ι ν P} (h : Resting b s)
    (hpc : s.backup.thread = .waiting) (hpend : s.backup.pending ≠ 0) :
    s.backup.bestioCondition ≠ 0 := by
  intro hzero
  have hwaits : (Sleeper.up s.backup).view.consumer ≠ none := by
    show s.backup.thread.stage .awake ≠ none
    rw [hpc]
    exact Option.some_ne_none _
  have hwork : s.backup.taken.length < s.backup.enqueued.length :=
    Nat.lt_of_not_le (mt pending_eq_zero.mpr hpend)
  obtain ⟨k, hk⟩ := h.watched.rested.inv.announced hwaits hwork (not_not.mpr hzero)
  have hpub : (s.backup.submitter k).published = true := hk
  rw [h.submitter k] at hpub
  cases hpub

omit [DecidableEq ι] [DecidableEq ν] in
theorem tooEarly_of_rest {s : System ι ν P} (h : ∀ k, s.req k = .rest) : ¬ TooEarly s := by
  rintro ⟨m, _, k, i, hi, _⟩
  rw [h k] at hi
  cases hi

omit [DecidableEq ι] in
/-- Where nothing is left, the state is quiet. -/
theorem Resting.quiet {b : Boot ν} {s : System ι ν P} (h : Resting b s)
    (hcaught : s.backup.CaughtUp) : s.Quiet := by
  obtain ⟨xs, hi⟩ := h.tied.inv
  exact ⟨(pending_eq_zero_iff hi).mp hcaught.2, hcaught.1, h.rest⟩

/-- It is a step of the thread, in which its I/O completes and its page is filled. -/
def Fills (s : System ι ν P) : Move ι ν P → Prop
  | .request _ _ _ | .hook _ _ | .copy _ _ => False
  | .thread o => o.complete = true ∧ ¬ FillFails s.backup { o with memory := s.memory }

omit [DecidableEq ι] [DecidableEq ν] in
instance (s : System ι ν P) : (m : Move ι ν P) → Decidable (Fills s m)
  | .request _ _ _ | .hook _ _ | .copy _ _ => inferInstanceAs (Decidable False)
  | .thread o =>
    inferInstanceAs (Decidable (_ ∧ ¬ FillFails s.backup { o with memory := s.memory }))

omit [DecidableEq ι] [DecidableEq ν] in
theorem Fills.thread {s : System ι ν P} {m : Move ι ν P} (h : Fills s m) : ∃ o, m = .thread o ∧
    o.complete = true ∧ ¬ FillFails s.backup { o with memory := s.memory } := by
  cases m with
  | thread o => exact ⟨o, rfl, h⟩
  | _ => exact False.elim h

theorem resting_step {b : Boot ν} {s : System ι ν P} {m : Move ι ν P} (h : Resting b s)
    (hm : Fills s m) : Resting b (move s m).1 := by
  obtain ⟨o, rfl, _, hfill⟩ := hm.thread
  have hsafe : Safe s (.thread o : Move ι ν P) := ⟨hfill, tooEarly_of_rest h.rest⟩
  obtain ⟨htied, hmirror⟩ := move_tied h.tied hsafe
  exact ⟨htied, hmirror.upToDate h.upToDate, move_watched h.watched _, h.rest⟩

theorem resting_lag {b : Boot ν} {s : System ι ν P} {m : Move ι ν P} (h : Resting b s)
    (hm : Fills s m) : (move s m).1.lag ≤ s.lag - 1 := by
  obtain ⟨o, rfl, ho, _⟩ := hm.thread
  obtain ⟨xs, hi⟩ := h.tied.inv
  have haway : ∀ k, (s.backup.submitter k).away = true := by
    intro k
    rw [h.submitter k]
    rfl
  exact threadStep_lag hi haway h.bit h.watched.stop h.watched.alive
    (o := { o with memory := s.memory }) ho

/-- **The backup catches up.** After every run whose steps are all safe and that leaves no request
in progress, the thread's own steps, in which its I/O completes and every page is filled, end in a
quiet state after `lag` of them at most, however its waits end. The device agrees with the ramdisk
on every sector written then. -/
theorem backup_catches_up (b : Boot ν) (hrunning : b.running = true) (size : UInt64)
    (memory : UInt64 → UInt8) (device : Nat → UInt8) (ms : List (Move ι ν P))
    (hsafe : ∀ t ∈ trace move (started b size memory device) ms, Safe t.before t.input)
    (hrest : ∀ k, (final move (started b size memory device) ms).req k = .rest)
    (os : List Outcome)
    (hfills : ∀ t ∈ trace move (final move (started b size memory device) ms)
      (os.map (Move.thread : Outcome → Move ι ν P)), Fills t.before t.input)
    (hlen : (final move (started b size memory device) ms).lag ≤ os.length) :
    (final move (started b size memory device) (ms ++ os.map Move.thread)).Quiet ∧
      (final move (started b size memory device) (ms ++ os.map Move.thread)).Converged := by
  have hstep : ∀ (s : System ι ν P) (m : Move ι ν P), Tied b s ∧ (s.mirror b.data).UpToDate →
      Safe s m → Tied b (move s m).1 ∧ ((move s m).1.mirror b.data).UpToDate := by
    rintro s m ⟨h, hup⟩ hm
    obtain ⟨htied, hmirror⟩ := move_tied h hm
    exact ⟨htied, hmirror.upToDate hup⟩
  have hstart : ((started b size memory device : System ι ν P).mirror b.data).UpToDate :=
    .start (Set.eq_empty_of_forall_notMem fun x ⟨e, he, _⟩ => absurd he List.not_mem_nil)
  obtain ⟨htied, hup⟩ := final_inv hstep ms _ ⟨started_tied hrunning size memory device, hstart⟩
    hsafe
  have hresting : Resting b (final move (started b size memory device) ms) :=
    ⟨htied, hup, final_watched hrunning size memory device ms, hrest⟩
  obtain ⟨hend, hzero⟩ := final_rests (fun _ _ h hm => resting_step h hm)
    (fun _ _ h hm => resting_lag h hm) _ _ hresting hfills (by rwa [List.length_map])
  rw [final_append]
  have hquiet := hend.quiet (caughtUp_of_lag hend.watched.alive hzero)
  exact ⟨hquiet, converged_of_quiet hend.tied hend.upToDate hquiet⟩

/-- The write of one sector is over, and its clone is in the queue. -/
theorem backup_catches_up_oneSector :
    ¬ (endOf (hooked ++ copied)).Quiet ∧
      (endOf (hooked ++ copied ++ (List.replicate 30 allGood).map Move.thread)).written =
        [(4096, 512)] ∧
      (endOf (hooked ++ copied ++ (List.replicate 30 allGood).map Move.thread)).Converged := by
  refine ⟨by decide +kernel, by decide +kernel, (backup_catches_up someBoot rfl 1048576 (fun _ => 0)
    (fun _ => 0) (hooked ++ copied) ?_ ?_ (List.replicate 30 allGood) ?_ ?_).2⟩
  · decide +kernel
  · decide +kernel
  · decide +kernel
  · decide +kernel

end Runs

end JcmController.Backup
