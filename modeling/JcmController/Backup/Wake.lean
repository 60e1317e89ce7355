import JcmController.Backup.Lost
import JcmController.Lib.EventFlag

/-!
# The thread asleep

In `Backup.Model` the thread that waits looks at the condition at any time. Here it sleeps:
`wait_event_interruptible_timeout` tests the condition, puts the thread into the wait queue, tests
it again, and sleeps until it is woken, interrupted or out of time. After `test_and_set_bit` a
submitter that found the bit clear still has `wake_up_interruptible` to call.

* `Sleeper` is the state of the model with how far the thread is in waiting and the submitters that
  have the wake-up to make; `wakeStep` is a step of it.
* `expired` of an `Outcome` is a signal or the timeout. A woken thread tests again, whoever woke it;
  `kthread_stop` wakes it too.
* `view` is what the parties share as an `EventFlag`: the bit is the flag.

Results:
* `wake_base`: what a run leaves, but for the sleep, is what a run of the model leaves.
* `wakeStep_view`: the refinement.
* **`no_lost_wakeup`**: in every run, a thread that sleeps while there is an entry in the queue will
  be woken: a submitter that has put its entry there has not finished its call.
-/

namespace JcmController.Backup

open JcmController.Lib JcmController.Lib.ListHead JcmController.Lib.LockedQueue
open JcmController.Lib.EventFlag (Waiting)

variable {ι ν P : Type}

/-! ## Sleeping -/

/-- The state of the model, how far the thread is in `wait_event_interruptible_timeout`, and which
submitters have found the bit clear and not called `wake_up_interruptible` yet. -/
structure Sleeper (ι ν : Type) where
  base : State ι ν
  sleep : Waiting
  waking : ι → Bool

/-- What happens next: a step of the model, or a submitter's `wake_up_interruptible`. -/
inductive WakeAct (ι ν P : Type) where
  | step (a : Act ι ν P)
  | wakeUp (k : ι)

/-- The thread is in `wait_event_interruptible_timeout`. -/
def ThreadPc.waits : ThreadPc ν → Bool
  | .waiting => true
  | _ => false

section Steps

variable [DecidableEq ι] [DecidableEq ν]

omit [DecidableEq ι] in
/-- The thread leaves `wait_event_interruptible_timeout`. -/
def Sleeper.leave (s : Sleeper ι ν) (o : Outcome) : Sleeper ι ν :=
  { s with base := (threadStep s.base o).1, sleep := .awake }

omit [DecidableEq ι] in
/-- `wait_event_interruptible_timeout` -/
def waitEvent (s : Sleeper ι ν) (o : Outcome) : Sleeper ι ν :=
  match s.sleep with
  | .awake => if s.base.bestioCondition ≠ 0 then s.leave o else { s with sleep := .queued }
  | .queued =>
    if s.base.bestioCondition ≠ 0 ∨ o.expired then s.leave o else { s with sleep := .asleep }
  | .asleep => if o.expired then s.leave o else s

/-- `test_and_set_bit(0x01, &backup.bestio_condition)`, and whether a wake-up follows. -/
def Sleeper.announces (s : Sleeper ι ν) (k : ι) : ι → Bool :=
  match s.base.submitter k with
  | .left => Function.update s.waking k (decide (s.base.bestioCondition &&& 2 = 0))
  | _ => s.waking

/-- One step. A submitter that has a wake-up to make does nothing else. -/
def wakeStep (s : Sleeper ι ν) : WakeAct ι ν P → Sleeper ι ν × List String
  | .wakeUp k =>
    if s.waking k then
      ({ s with sleep := .awake, waking := Function.update s.waking k false }, [])
    else (s, [])
  | .step (.call k bio junk) =>
    if s.waking k then (s, []) else ({ s with base := bestioBackupBio s.base k bio junk }, [])
  | .step (.submitter k node) =>
    if s.waking k then (s, [])
    else ({ s with base := submitterStep s.base k node, waking := s.announces k }, [])
  | .step (.thread o) =>
    if s.base.thread.waits then (waitEvent s o, [])
    else ({ s with base := (threadStep s.base o).1 }, (threadStep s.base o).2)
  | .step .exit =>
    ({ s with
      base := exitStep s.base
      sleep := if s.base.exit = .notCalled then .awake else s.sleep }, [])

/-- The state these steps lead to from `backup_init`. -/
def wakeRun (b : Boot ν) (acts : List (WakeAct ι ν P)) : Sleeper ι ν :=
  final wakeStep ⟨backupInit b, .awake, fun _ => false⟩ acts

/-! ## The runs are those of the model -/

omit [DecidableEq ι] in
theorem waitEvent_base (s : Sleeper ι ν) (o : Outcome) :
    (waitEvent s o).base = s.base ∨ (waitEvent s o).base = (threadStep s.base o).1 := by
  unfold waitEvent
  repeat' split
  all_goals first
    | exact Or.inl rfl
    | exact Or.inr rfl

/-- A step is one of the model, or leaves the state of the model as it is. -/
theorem wakeStep_base (s : Sleeper ι ν) (a : WakeAct ι ν P) :
    (wakeStep s a).1.base = s.base ∨
      ∃ a' : Act ι ν P, (wakeStep s a).1.base = (step s.base a').1 := by
  cases a with
  | wakeUp k =>
    refine Or.inl ?_
    by_cases hw : s.waking k = true
    · simp only [wakeStep, if_pos hw]
    · simp only [wakeStep, if_neg hw]
  | step a =>
    cases a with
    | call k bio junk =>
      unfold wakeStep
      by_cases hw : s.waking k = true
      · exact Or.inl (by simp only [if_pos hw])
      · exact Or.inr ⟨.call k bio junk, by simp only [if_neg hw, step]⟩
    | submitter k node =>
      unfold wakeStep
      by_cases hw : s.waking k = true
      · exact Or.inl (by simp only [if_pos hw])
      · exact Or.inr ⟨.submitter k node, by simp only [if_neg hw, step]⟩
    | thread o =>
      by_cases hw : s.base.thread.waits = true
      · have heq : (wakeStep s (.step (.thread o) : WakeAct ι ν P)).1 = waitEvent s o := by
          simp only [wakeStep, if_pos hw]
        rw [heq]
        exact (waitEvent_base s o).imp_right fun h => ⟨.thread o, h⟩
      · exact Or.inr ⟨.thread o, by simp only [wakeStep, if_neg hw, step]⟩
    | exit => exact Or.inr ⟨.exit, rfl⟩

/-- **The runs are those of the model.** -/
theorem wake_base (b : Boot ν) (acts : List (WakeAct ι ν P)) :
    ∃ acts' : List (Act ι ν P), (wakeRun b acts).base = runFrom b acts' := by
  induction acts using List.reverseRecOn with
  | nil => exact ⟨[], rfl⟩
  | append_singleton acts a ih =>
    obtain ⟨acts', hbase⟩ := ih
    have hlast : wakeRun b (acts ++ [a]) = (wakeStep (wakeRun b acts) a).1 :=
      final_concat wakeStep _ acts a
    rw [hlast]
    rcases wakeStep_base (wakeRun b acts) a with hsame | ⟨a', hstep⟩
    · exact ⟨acts', hsame.trans hbase⟩
    · refine ⟨acts' ++ [a'], ?_⟩
      rw [hstep, hbase]
      exact (final_concat step _ acts' a').symm

end Steps

/-! ## As an event flag -/

/-- How far the thread is in waiting, from the moment it found the queue empty. -/
def ThreadPc.stage (sleep : Waiting) : ThreadPc ν → Option Waiting
  | .empty => some .awake
  | .waiting => some sleep
  | _ => none

/-- The submitter has put its entry into the queue, and has the bit to set. -/
def SubmitterPc.published : SubmitterPc ν → Bool
  | .added | .left => true
  | _ => false

/-- The flag, the work and the parties. -/
def Sleeper.view (s : Sleeper ι ν) : EventFlag.State ι where
  work := s.base.taken.length < s.base.enqueued.length
  flag := s.base.bestioCondition ≠ 0
  consumer := s.base.thread.stage s.sleep
  published k := (s.base.submitter k).published = true
  waking k := s.waking k = true

/-- The bit is the only one, and a thread that does not wait does not sleep. -/
structure Sleeper.Tidy (s : Sleeper ι ν) : Prop where
  condition : s.base.bestioCondition = 0 ∨ s.base.bestioCondition = 2
  awake : s.base.thread.waits = false → s.sleep = .awake

/-! ## The submitters -/

/-- What a submitter does to the flag and the work. -/
inductive Submits (s s' : State ι ν) (k : ι) : Prop
  /-- It puts its entry into the queue. -/
  | publish (hcond : s'.bestioCondition = s.bestioCondition)
      (hp : (s'.submitter k).published = true)
  /-- It sets the bit. -/
  | announce (hleft : s.submitter k = .left)
      (hcond : s'.bestioCondition = s.bestioCondition ||| 2)
  /-- Neither. -/
  | idle (hnot : s.submitter k ≠ .left) (hcond : s'.bestioCondition = s.bestioCondition)
      (henq : s'.enqueued = s.enqueued)
      (hpub : ∀ q, (s.submitter q).published = true → (s'.submitter q).published = true)

section Submitters

variable [DecidableEq ι] [DecidableEq ν]

omit [DecidableEq ν] in
/-- A submitter that has nothing to announce goes on. -/
theorem published_at {s t : State ι ν} {k : ι} {pc : SubmitterPc ν}
    (hsame : t.submitter = s.submitter) (hpc : (s.submitter k).published = false) (q : ι)
    (hq : (s.submitter q).published = true) : ((t.at k pc).submitter q).published = true := by
  have hne : q ≠ k := by
    rintro rfl
    rw [hpc] at hq
    cases hq
  rwa [at_submitter_ne t hne, hsame]

omit [DecidableEq ι] [DecidableEq ν] in
theorem not_left {s : State ι ν} {k : ι} {pc : SubmitterPc ν} (hpc : s.submitter k = pc)
    (hpub : pc.published = false) : s.submitter k ≠ .left := by
  intro hleft
  rw [← hpc, hleft] at hpub
  cases hpub

omit [DecidableEq ν] in
/-- A submitter on its way to the queue changes nothing of this. -/
theorem Submits.goes {s t s' : State ι ν} {k : ι} {pc pc' : SubmitterPc ν} (hs' : s' = t.at k pc')
    (hpc : s.submitter k = pc) (hpub : pc.published = false) (hsub : t.submitter = s.submitter)
    (hcond : t.bestioCondition = s.bestioCondition) (henq : t.enqueued = s.enqueued) :
    Submits s s' k := by
  subst hs'
  exact .idle (not_left hpc hpub) hcond henq (published_at hsub (by rw [hpc]; exact hpub))

/-- **A step of a submitter** is one of these. -/
theorem submitterStep_submits (s : State ι ν) (k : ι) (node : ν) :
    Submits s (submitterStep s k node) k := by
  have hidle : ∀ {pc : SubmitterPc ν}, s.submitter k = pc → pc.published = false →
      submitterStep s k node = s → Submits s (submitterStep s k node) k := by
    intro pc hpc hpub heq
    rw [heq]
    exact .idle (not_left hpc hpub) rfl rfl fun _ => id
  cases hpc : s.submitter k with
  | rest | oops => exact hidle hpc rfl (by simp only [submitterStep, hpc])
  | cloned c =>
    by_cases hu : s.used node = true
    · exact hidle hpc rfl (by simp only [submitterStep, hpc, if_pos hu])
    · have heq : submitterStep s k node = State.at { s with
          used := Function.update s.used node true
          bio := Function.update s.bio node c } k (.allocated node) := by
        simp only [submitterStep, hpc, if_neg hu]
      exact .goes heq hpc rfl rfl rfl rfl
  | allocated q =>
    by_cases hsem : 0 < s.qSemMutex
    · have heq : submitterStep s k node =
          State.at { s with qSemMutex := s.qSemMutex - 1 } k (.entered q) := by
        simp only [submitterStep, hpc, if_pos hsem]
      exact .goes heq hpc rfl rfl rfl rfl
    · exact hidle hpc rfl (by simp only [submitterStep, hpc, if_neg hsem])
  | entered q =>
    have heq : submitterStep s k node = s.at k (.adding q (listAddTail s.mem q s.queue)) := by
      simp only [submitterStep, hpc]
    exact .goes heq hpc rfl rfl rfl rfl
  | adding q ss =>
    rcases ss with _ | ⟨x, _ | ⟨y, ss⟩⟩
    · exact hidle hpc rfl (by simp only [submitterStep, hpc])
    · have heq : submitterStep s k node = State.at { s with
          mem := s.mem.store x
          enqueued := s.enqueued ++ [s.bio q] } k .added := by
        simp only [submitterStep, hpc]
      rw [heq]
      refine .publish rfl ?_
      rw [at_submitter_self]
      rfl
    · have heq : submitterStep s k node =
          State.at { s with mem := s.mem.store x } k (.adding q (y :: ss)) := by
        simp only [submitterStep, hpc]
      exact .goes heq hpc rfl rfl rfl rfl
  | added =>
    have heq : submitterStep s k node =
        State.at { s with qSemMutex := s.qSemMutex + 1 } k .left := by
      simp only [submitterStep, hpc]
    rw [heq]
    refine .idle (fun h => by cases hpc.symm.trans h) rfl rfl fun q hq => ?_
    by_cases hqk : q = k
    · rw [hqk, at_submitter_self]
      rfl
    · rwa [at_submitter_ne _ hqk]
  | left =>
    have heq : submitterStep s k node =
        State.at { s with bestioCondition := s.bestioCondition ||| 2 } k .rest := by
      simp only [submitterStep, hpc]
    rw [heq]
    exact .announce hpc rfl

omit [DecidableEq ν] in
/-- A call of the hook does none of it. -/
theorem bestioBackupBio_submits (s : State ι ν) (k : ι) (bio : Bio P)
    (junk : Nat → BioVec UInt64) :
    (bestioBackupBio s k bio junk).bestioCondition = s.bestioCondition ∧
      ∀ q, (s.submitter q).published = true →
        ((bestioBackupBio s k bio junk).submitter q).published = true := by
  unfold bestioBackupBio
  cases hpc : s.submitter k with
  | rest =>
    have hpub : (s.submitter k).published = false := by
      rw [hpc]
      rfl
    by_cases hw : s.hook ∧ bio.IsWrite
    · simp only [if_pos hw]
      cases cloneBio s.data junk bio with
      | some c => exact ⟨rfl, published_at rfl hpub⟩
      | none => exact ⟨rfl, published_at rfl hpub⟩
    · simp only [if_neg hw]
      exact ⟨trivial, fun _ => id⟩
  | _ => exact ⟨rfl, fun _ => id⟩

end Submitters

/-! ## The thread -/

/-- What the thread does to the flag and the work while it does not wait. -/
inductive Serves (s s' : State ι ν) : Prop
  /-- It is not on its way to wait. -/
  | run (hstage : ∀ sleep, s'.thread.stage sleep = none)
  /-- It finds the queue empty. -/
  | commit (hpc : s.thread = .entered) (hempty : s.mem.next s.queue = s.queue)
      (hpc' : s'.thread = .empty) (htaken : s'.taken = s.taken)
  /-- It goes to wait. -/
  | wait (hpc : s.thread = .empty) (hpc' : s'.thread = .waiting)
      (hcond : s'.bestioCondition = s.bestioCondition) (htaken : s'.taken = s.taken)

section Thread

variable [DecidableEq ν]

/-- **A step of the thread** outside `wait_event_interruptible_timeout` is one of these. -/
theorem threadStep_serves (s : State ι ν) (o : Outcome) (hwaits : s.thread.waits = false) :
    Serves s (threadStep s o).1 := by
  cases hpc : s.thread with
  | err | exited =>
    simp only [threadStep, hpc]
    exact .run fun _ => by rw [hpc]; rfl
  | start | check =>
    simp only [threadStep, hpc]
    refine .run fun _ => ?_
    show ThreadPc.stage _ (if s.shouldStop then .exited else .loop) = none
    split <;> rfl
  | loop =>
    simp only [threadStep, hpc]
    split
    · exact .run fun _ => rfl
    · exact .run fun _ => by rw [hpc]; rfl
  | entered =>
    simp only [threadStep, hpc]
    by_cases hempty : s.mem.next s.queue = s.queue
    · rw [if_pos hempty]
      exact .commit hpc hempty rfl rfl
    · rw [if_neg hempty]
      exact .run fun _ => rfl
  | empty =>
    simp only [threadStep, hpc]
    exact .wait hpc rfl rfl rfl
  | waiting =>
    rw [hpc] at hwaits
    cases hwaits
  | woken | picking | deleted q | freeing q =>
    simp only [threadStep, hpc]
    exact .run fun _ => rfl
  | deleting q ss =>
    rcases ss with _ | ⟨x, _ | ⟨y, ss⟩⟩
    · simp only [threadStep, hpc]
      exact .run fun _ => by rw [hpc]; rfl
    · rw [threadStep_unlinked hpc]
      exact .run fun _ => rfl
    · simp only [threadStep, hpc]
      exact .run fun _ => rfl
  | filling q c done todo =>
    cases todo with
    | nil =>
      rw [threadStep_submits hpc]
      exact .run fun _ => rfl
    | cons v todo =>
      simp only [threadStep, hpc]
      cases fillPage v o with
      | ok page => exact .run fun _ => rfl
      | error msg => exact .run fun _ => rfl
  | waitingIo q =>
    simp only [threadStep, hpc]
    refine .run fun _ => ?_
    show ThreadPc.stage _ (if o.complete then .freeing q else .waitingIo q) = none
    split <;> rfl

/-- In `wait_event_interruptible_timeout` it looks at the condition. -/
theorem threadStep_waits {s : State ι ν} (hwaits : s.thread.waits = true) {o : Outcome}
    (hleave : s.bestioCondition ≠ 0 ∨ o.expired = true) :
    (threadStep s o).1 = s.threadAt .woken := by
  cases hpc : s.thread with
  | waiting => simp only [threadStep, hpc, if_pos hleave]
  | _ =>
    rw [hpc] at hwaits
    cases hwaits

/-- `wait_event_interruptible_timeout`: the thread is out of it, or waits on. -/
theorem waitEvent_cases {s : Sleeper ι ν} (hwaits : s.base.thread.waits = true) (o : Outcome) :
    waitEvent s o = { s with base := s.base.threadAt .woken, sleep := .awake } ∨
      (∃ w, waitEvent s o = { s with sleep := w }) ∧ s.base.bestioCondition = 0 ∨
        waitEvent s o = s := by
  have hleaves : s.base.bestioCondition ≠ 0 ∨ o.expired = true →
      s.leave o = { s with base := s.base.threadAt .woken, sleep := .awake } := by
    intro h
    rw [Sleeper.leave, threadStep_waits hwaits h]
  unfold waitEvent
  cases s.sleep with
  | awake =>
    by_cases hcond : s.base.bestioCondition ≠ 0
    · simp only [if_pos hcond]
      exact Or.inl (hleaves (Or.inl hcond))
    · simp only [if_neg hcond]
      exact Or.inr (Or.inl ⟨⟨_, rfl⟩, not_not.mp hcond⟩)
  | queued =>
    by_cases hcond : s.base.bestioCondition ≠ 0 ∨ o.expired = true
    · simp only [if_pos hcond]
      exact Or.inl (hleaves hcond)
    · simp only [if_neg hcond]
      exact Or.inr (Or.inl ⟨⟨_, rfl⟩, not_not.mp (not_or.mp hcond).1⟩)
  | asleep =>
    by_cases hexp : o.expired = true
    · simp only [if_pos hexp]
      exact Or.inl (hleaves (Or.inr hexp))
    · simp only [if_neg hexp]
      exact Or.inr (Or.inr trivial)

end Thread

/-! ## The refinement -/

/-- Only these steps touch the condition. -/
theorem exitStep_condition [DecidableEq ν] (s : State ι ν) :
    (exitStep s).bestioCondition = s.bestioCondition := by
  unfold exitStep
  repeat' split
  all_goals rfl

theorem threadStep_condition [DecidableEq ν] {s : State ι ν} (o : Outcome)
    (h : s.bestioCondition = 0 ∨ s.bestioCondition = 2) :
    (threadStep s o).1.bestioCondition = 0 ∨ (threadStep s o).1.bestioCondition = 2 := by
  have hclear : s.bestioCondition &&& ~~~2 = 0 := by
    rcases h with h | h <;> rw [h] <;> rfl
  unfold threadStep
  repeat' split
  all_goals first
    | exact h
    | exact Or.inl hclear

section Refine

variable [DecidableEq ι] [DecidableEq ν]

theorem submitterStep_condition {s : State ι ν} {k : ι} {node : ν}
    (h : s.bestioCondition = 0 ∨ s.bestioCondition = 2) :
    (submitterStep s k node).bestioCondition = 0 ∨
      (submitterStep s k node).bestioCondition = 2 := by
  rcases submitterStep_submits s k node with ⟨hcond, _⟩ | ⟨_, hcond⟩ | ⟨_, hcond, _, _⟩
  · rwa [hcond]
  · rw [hcond]
    rcases h with h | h <;> rw [h] <;> exact Or.inr rfl
  · rwa [hcond]

theorem wakeStep_tidy {s : Sleeper ι ν} (h : s.Tidy) (a : WakeAct ι ν P) :
    (wakeStep s a).1.Tidy := by
  cases a with
  | wakeUp k =>
    by_cases hw : s.waking k = true
    · simp only [wakeStep, if_pos hw]
      exact ⟨h.condition, fun _ => rfl⟩
    · simp only [wakeStep, if_neg hw]
      exact h
  | step a =>
    cases a with
    | call k bio junk =>
      by_cases hw : s.waking k = true
      · simp only [wakeStep, if_pos hw]
        exact h
      · simp only [wakeStep, if_neg hw]
        refine ⟨?_, fun hwaits => h.awake ?_⟩
        · rw [(bestioBackupBio_submits s.base k bio junk).1]
          exact h.condition
        · rwa [← (bestioBackupBio_frame s.base k bio junk).thread]
    | submitter k node =>
      by_cases hw : s.waking k = true
      · simp only [wakeStep, if_pos hw]
        exact h
      · simp only [wakeStep, if_neg hw]
        refine ⟨submitterStep_condition h.condition, fun hwaits => h.awake ?_⟩
        rwa [← (submitterStep_frame s.base k node).thread]
    | thread o =>
      by_cases hw : s.base.thread.waits = true
      · simp only [wakeStep, if_pos hw]
        rcases waitEvent_cases hw o with heq | ⟨⟨w, heq⟩, _⟩ | heq
        · rw [heq]
          exact ⟨h.condition, fun _ => rfl⟩
        · rw [heq]
          exact ⟨h.condition, fun hnot => absurd hw (by rw [hnot]; exact Bool.false_ne_true)⟩
        · rw [heq]
          exact h
      · simp only [wakeStep, if_neg hw]
        exact ⟨threadStep_condition o h.condition, fun _ => h.awake (Bool.eq_false_iff.mpr hw)⟩
    | exit =>
      refine ⟨?_, fun hwaits => ?_⟩
      · show (exitStep s.base).bestioCondition = 0 ∨ (exitStep s.base).bestioCondition = 2
        rw [exitStep_condition]
        exact h.condition
      · have hthread : s.base.thread.waits = false := by
          rw [← (exitStep_frame s.base).thread]
          exact hwaits
        show (if s.base.exit = .notCalled then .awake else s.sleep) = .awake
        rw [h.awake hthread, ite_self]

omit [DecidableEq ι] in
/-- What waits is alive, and the queue is as `LockedQueue` has it. -/
theorem Kept.empty_iff {b : Boot ν} {s : State ι ν} (h : Kept b s)
    (hthread : s.thread.ended = false) :
    s.mem.next s.queue = s.queue ↔ s.taken.length = s.enqueued.length := by
  obtain ⟨xs, hi⟩ := h.1.inv (h.2.not_clearing hthread)
  exact Backup.empty_iff hi

omit [DecidableEq ι] in
/-- A step of the thread outside `wait_event_interruptible_timeout`. -/
theorem serves_view {b : Boot ν} {s : Sleeper ι ν} (hk : Kept b s.base) (ht : s.Tidy)
    (hwaits : s.base.thread.waits = false) (o : Outcome) :
    EventFlag.Step s.view (Sleeper.view { s with base := (threadStep s.base o).1 }) := by
  have hframe := threadStep_frame s.base o
  rcases threadStep_serves s.base o hwaits with hstage | ⟨hpc, hempty, hpc', htaken⟩ |
    ⟨hpc, hpc', hcond, htaken⟩
  · exact .run (hstage s.sleep)
  · refine .commit ?_ (congrArg (ThreadPc.stage s.sleep) hpc')
    show ¬ (threadStep s.base o).1.taken.length < (threadStep s.base o).1.enqueued.length
    rw [htaken, hframe.enqueued, (hk.empty_iff (by rw [hpc]; rfl)).mp hempty]
    exact lt_irrefl _
  · refine .idle ?_ ?_ ?_ (fun q hq => ?_) fun _ => id
    · show (threadStep s.base o).1.taken.length < (threadStep s.base o).1.enqueued.length → _
      rw [htaken, hframe.enqueued]
      exact id
    · show (threadStep s.base o).1.bestioCondition ≠ 0 ↔ s.base.bestioCondition ≠ 0
      rw [hcond]
    · show (threadStep s.base o).1.thread.stage s.sleep = s.base.thread.stage s.sleep
      rw [hpc, hpc', ht.awake hwaits]
      rfl
    · show ((threadStep s.base o).1.submitter q).published = true
      rw [hframe.submitter]
      exact hq

omit [DecidableEq ι] in
/-- A step of the thread in it. -/
theorem waitEvent_view {s : Sleeper ι ν} (hwaits : s.base.thread.waits = true) (o : Outcome) :
    EventFlag.Step s.view (waitEvent s o).view := by
  rcases waitEvent_cases hwaits o with heq | ⟨⟨w, heq⟩, hcond⟩ | heq
  · rw [heq]
    exact .run rfl
  · rw [heq]
    refine .test id (not_not.mpr hcond) Iff.rfl (fun hnone => ?_) fun _ => id
    have hsome : ThreadPc.stage s.sleep s.base.thread = some s.sleep := by
      cases hpc : s.base.thread with
      | waiting => rfl
      | _ =>
        rw [hpc] at hwaits
        cases hwaits
    cases hsome.symm.trans hnone
  · rw [heq]
    exact .idle id Iff.rfl rfl (fun _ => id) fun _ => id

/-- A step of a submitter that has no wake-up to make. -/
theorem submits_view {s : Sleeper ι ν} (ht : s.Tidy) {k : ι} (hw : ¬ s.waking k = true)
    (node : ν) : EventFlag.Step s.view
      (Sleeper.view { s with base := submitterStep s.base k node, waking := s.announces k }) := by
  have hframe := submitterStep_frame s.base k node
  have hconsumer : (submitterStep s.base k node).thread.stage s.sleep =
      s.base.thread.stage s.sleep := by
    rw [hframe.thread]
  have hkeep : ∀ q, s.waking q = true → s.announces k q = true := by
    intro q hq
    unfold Sleeper.announces
    cases s.base.submitter k with
    | left =>
      refine (Function.update_of_ne ?_ _ _).trans hq
      rintro rfl
      exact hw hq
    | _ => exact hq
  rcases submitterStep_submits s.base k node with ⟨hcond, hp⟩ | ⟨hleft, hcond⟩ |
    ⟨hnot, hcond, henq, hpub⟩
  · refine .publish k ?_ hconsumer hp hkeep
    show (submitterStep s.base k node).bestioCondition ≠ 0 ↔ s.base.bestioCondition ≠ 0
    rw [hcond]
  · refine .announce k ?_ hconsumer (fun hclear => ?_) hkeep
    · show (submitterStep s.base k node).bestioCondition ≠ 0
      rw [hcond]
      rcases ht.condition with h | h <;> rw [h] <;> decide
    · show s.announces k k = true
      have hzero : s.base.bestioCondition = 0 := not_not.mp hclear
      simp only [Sleeper.announces, hleft, Function.update_self, hzero]
      rfl
  · refine .idle ?_ ?_ hconsumer hpub hkeep
    · show (submitterStep s.base k node).taken.length <
        (submitterStep s.base k node).enqueued.length → _
      rw [hframe.taken, henq]
      exact id
    · show (submitterStep s.base k node).bestioCondition ≠ 0 ↔ s.base.bestioCondition ≠ 0
      rw [hcond]

/-- **The refinement**: every step is one of the flag's. -/
theorem wakeStep_view {b : Boot ν} {s : Sleeper ι ν} (hk : Kept b s.base) (ht : s.Tidy)
    (a : WakeAct ι ν P) : EventFlag.Step s.view (wakeStep s a).1.view := by
  have hsame : EventFlag.Step s.view s.view :=
    .idle id Iff.rfl rfl (fun _ => id) fun _ => id
  have hwoken : s.base.thread.stage .awake = (s.base.thread.stage s.sleep).map fun _ => .awake := by
    cases s.base.thread <;> rfl
  cases a with
  | wakeUp k =>
    by_cases hw : s.waking k = true
    · simp only [wakeStep, if_pos hw]
      exact .wake id Iff.rfl hwoken fun _ => id
    · simp only [wakeStep, if_neg hw]
      exact hsame
  | step a =>
    cases a with
    | call k bio junk =>
      by_cases hw : s.waking k = true
      · simp only [wakeStep, if_pos hw]
        exact hsame
      · simp only [wakeStep, if_neg hw]
        have hframe := bestioBackupBio_frame s.base k bio junk
        obtain ⟨hcond, hpub⟩ := bestioBackupBio_submits s.base k bio junk
        refine .idle ?_ ?_ ?_ hpub fun _ => id
        · show (bestioBackupBio s.base k bio junk).taken.length <
            (bestioBackupBio s.base k bio junk).enqueued.length → _
          rw [hframe.taken, (bestioBackupBio_same s.base k bio junk).2]
          exact id
        · show (bestioBackupBio s.base k bio junk).bestioCondition ≠ 0 ↔ _
          rw [hcond]
          exact Iff.rfl
        · show (bestioBackupBio s.base k bio junk).thread.stage s.sleep = _
          rw [hframe.thread]
          rfl
    | submitter k node =>
      by_cases hw : s.waking k = true
      · simp only [wakeStep, if_pos hw]
        exact hsame
      · simp only [wakeStep, if_neg hw]
        exact submits_view ht hw node
    | thread o =>
      by_cases hw : s.base.thread.waits = true
      · simp only [wakeStep, if_pos hw]
        exact waitEvent_view hw o
      · simp only [wakeStep, if_neg hw]
        exact serves_view hk ht (Bool.eq_false_iff.mpr hw) o
    | exit =>
      have hframe := exitStep_frame s.base
      have hwork : (exitStep s.base).taken.length < (exitStep s.base).enqueued.length →
          s.base.taken.length < s.base.enqueued.length := by
        rw [hframe.taken, hframe.enqueued]
        exact id
      have hflag : (exitStep s.base).bestioCondition ≠ 0 ↔ s.base.bestioCondition ≠ 0 := by
        rw [exitStep_condition]
      have hpub : ∀ q, (s.base.submitter q).published = true →
          ((exitStep s.base).submitter q).published = true := by
        rw [hframe.submitter]
        exact fun _ => id
      by_cases hnot : s.base.exit = .notCalled
      · refine .wake hwork hflag ?_ hpub
        show (exitStep s.base).thread.stage
          (if s.base.exit = .notCalled then .awake else s.sleep) = _
        rw [if_pos hnot, hframe.thread]
        exact hwoken
      · refine .idle hwork hflag ?_ hpub fun _ => id
        show (exitStep s.base).thread.stage
          (if s.base.exit = .notCalled then .awake else s.sleep) = _
        rw [if_neg hnot, hframe.thread]
        rfl

/-! ## No wake-up is lost -/

/-- What holds of every state. -/
structure Rested (b : Boot ν) (s : Sleeper ι ν) : Prop where
  kept : Kept b s.base
  tidy : s.Tidy
  inv : EventFlag.Inv s.view

theorem wakeStep_rested {b : Boot ν} {s : Sleeper ι ν} (h : Rested b s) (a : WakeAct ι ν P) :
    Rested b (wakeStep s a).1 := by
  refine ⟨?_, wakeStep_tidy h.tidy a, (wakeStep_view h.kept h.tidy a).inv h.inv⟩
  rcases wakeStep_base s a with hsame | ⟨a', hstep⟩
  · rw [hsame]
    exact h.kept
  · rw [hstep]
    exact step_kept h.kept a'

omit [DecidableEq ι] in
theorem rested_backupInit (b : Boot ν) :
    Rested b (⟨backupInit b, .awake, fun _ => false⟩ : Sleeper ι ν) := by
  refine ⟨⟨ordered_backupInit b _, accounts_backupInit b⟩, ⟨Or.inl rfl, fun _ => rfl⟩, ?_⟩
  exact ⟨fun _ hwork => absurd hwork (Nat.lt_irrefl 0), fun _ hflag => absurd rfl hflag⟩

theorem rested_wakeRun (b : Boot ν) (acts : List (WakeAct ι ν P)) : Rested b (wakeRun b acts) := by
  have hstep : ∀ (s : Sleeper ι ν) (a : WakeAct ι ν P), Rested b s → True →
      Rested b (wakeStep s a).1 := fun s a h _ => wakeStep_rested h a
  exact final_inv hstep acts _ (rested_backupInit b) fun _ _ => trivial

/-- **No wake-up is lost.** Where the thread sleeps and there is an entry in the queue, a submitter
has put its entry there and has still to set the bit, or has set it and has still to call
`wake_up_interruptible`. -/
theorem no_lost_wakeup (b : Boot ν) (acts : List (WakeAct ι ν P))
    (hsleep : (wakeRun b acts).sleep = .asleep)
    (hentry : (wakeRun b acts).base.mem.next b.queue ≠ b.queue) :
    ∃ k, ((wakeRun b acts).base.submitter k).published = true ∨
      (wakeRun b acts).waking k = true := by
  have hr := rested_wakeRun b acts
  have hwaits : (wakeRun b acts).base.thread = .waiting := by
    cases hpc : (wakeRun b acts).base.thread with
    | waiting => rfl
    | _ =>
      have hawake := hr.tidy.awake (by rw [hpc]; rfl)
      rw [hsleep] at hawake
      cases hawake
  have hlen := hr.kept.empty_iff (by rw [hwaits]; rfl)
  rw [hr.kept.1.head] at hlen
  have hle := hr.kept.2.taken.length_le
  refine hr.inv.wakes ?_ ?_
  · show ThreadPc.stage _ (wakeRun b acts).base.thread = _
    rw [hwaits, hsleep]
    rfl
  · exact lt_of_le_of_ne hle fun h => hentry (hlen.mpr h)

/-- The thread goes to sleep, and a submitter puts an entry into the queue and has the bit to
set. -/
def toSleep : List (WakeAct Bool Nat Unit) :=
  List.replicate 6 (.step (.thread allGood)) ++
    .step (hookCall false 1) :: List.replicate 7 (.step (.submitter false 1))

theorem no_lost_wakeup_toSleep :
    (wakeRun someBoot toSleep).sleep = .asleep ∧
      (wakeRun someBoot toSleep).base.mem.next someBoot.queue ≠ someBoot.queue ∧
      ∃ k, ((wakeRun someBoot toSleep).base.submitter k).published = true ∨
        (wakeRun someBoot toSleep).waking k = true :=
  ⟨by decide +kernel, by decide +kernel,
    no_lost_wakeup someBoot toSleep (by decide +kernel) (by decide +kernel)⟩

end Refine

end JcmController.Backup
