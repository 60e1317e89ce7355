import JcmController.Backup.Wake

/-!
# The thread empties the queue

Once no submitter has to do with the queue, the thread is left with what is in it. `rank` counts
the steps it has to take at most: from where it is, what every entry of the queue needs, and one
more turn of the loop where the bit is set.

Results:
* `threadStep_rank`, `waitEvent_rank`: every step of the thread takes from the rank.
* **`queue_drains`**: without the timeout, a signal or `kthread_stop`, and with its I/O completing,
  the thread takes everything out of the queue and goes to sleep, within `rank` steps.
-/

namespace JcmController.Backup

open JcmController.Lib JcmController.Lib.ListHead JcmController.Lib.LockedQueue
open JcmController.Lib.EventFlag (Waiting)

variable {ι ν P : Type}

/-! ## The rank -/

/-- The steps from the place of the thread to where it sleeps, if the queue is empty there. -/
def ThreadPc.rank (sleep : Waiting) (bio : ν → Clone) : ThreadPc ν → Nat
  | .err | .exited => 0
  | .waiting =>
    match sleep with
    | .asleep => 0
    | .queued => 1
    | .awake => 2
  | .empty => 3
  | .picking => 4
  | .entered => 5
  | .loop => 6
  | .start | .check => 7
  | .woken | .freeing _ => 8
  | .waitingIo _ => 9
  | .filling _ _ _ todo => todo.length + 10
  | .deleted q => (bio q).biIoVec.length + 11
  | .deleting _ ss => ss.length + 1

/-- A set bit costs the thread another turn, unless it is about to clear it. -/
def ThreadPc.toll (condition : UInt64) : ThreadPc ν → Nat
  | .woken => 0
  | _ => if condition = 0 then 0 else 9

/-- What the entries in the queue need. -/
def State.pending (s : State ι ν) : Nat :=
  ((s.enqueued.drop s.taken.length).map fun c => c.biIoVec.length + 20).sum

theorem pending_eq_zero {s : State ι ν} : s.pending = 0 ↔ s.enqueued.length ≤ s.taken.length := by
  unfold State.pending
  rw [List.sum_eq_zero_iff_forall_eq_nat, ← List.drop_eq_nil_iff, List.eq_nil_iff_forall_not_mem]
  refine ⟨fun h c hc => ?_, fun h n hn => ?_⟩
  · exact Nat.succ_ne_zero _ (h _ (List.mem_map_of_mem hc))
  · obtain ⟨c, hc, _⟩ := List.mem_map.mp hn
    exact absurd hc (h c)

def State.rank (s : State ι ν) (sleep : Waiting) : Nat :=
  s.thread.rank sleep s.bio + s.thread.toll s.bestioCondition + s.pending

def Sleeper.rank (s : Sleeper ι ν) : Nat := s.base.rank s.sleep

/-- The submitter is not between its `down` and the end of its call. -/
def SubmitterPc.away : SubmitterPc ν → Bool
  | .rest | .cloned _ | .allocated _ | .oops => true
  | _ => false

theorem SubmitterPc.of_away {pc : SubmitterPc ν} (h : pc.away = true) :
    pc.party.inside = false ∧ pc.published = false := by
  cases pc <;> first | exact ⟨rfl, rfl⟩ | cases h

/-- The thread goes on and the queue stays what it is. -/
theorem rank_threadAt {s t : State ι ν} {pc pc' : ThreadPc ν} {sleep sleep' : Waiting}
    (hpc : s.thread = pc) (hbio : t.bio = s.bio) (henq : t.enqueued = s.enqueued)
    (htaken : t.taken = s.taken) (htoll : pc'.toll t.bestioCondition ≤ pc.toll s.bestioCondition)
    (hrank : pc'.rank sleep' s.bio < pc.rank sleep s.bio) :
    (t.threadAt pc').rank sleep' < s.rank sleep := by
  have hleft : (t.threadAt pc').rank sleep' =
      pc'.rank sleep' s.bio + pc'.toll t.bestioCondition + s.pending := by
    unfold State.rank State.pending
    show pc'.rank sleep' t.bio + pc'.toll t.bestioCondition +
      ((t.enqueued.drop t.taken.length).map _).sum = _
    rw [hbio, henq, htaken]
  rw [hleft, State.rank, hpc]
  omega

/-! ## A step -/

section Steps

variable [DecidableEq ν]

theorem ThreadMove.alive {s s' : State ι ν} {o : Outcome} (h : ThreadMove s o s')
    (hstop : s.shouldStop = false) (halive : s.thread.ended = false) :
    s'.thread.ended = false := by
  cases h with
  | idle _ _ _ _ hended _ _ => exact hended.trans halive
  | take | submit | drop => rfl
  | stop _ hstop' =>
    rw [hstop] at hstop'
    cases hstop'

/-- Only `backup_exit` tells the thread to end. -/
theorem threadStep_alive {s : State ι ν} (hstop : s.shouldStop = false)
    (halive : s.thread.ended = false) (o : Outcome) :
    (threadStep s o).1.shouldStop = false ∧ (threadStep s o).1.thread.ended = false := by
  constructor
  · unfold threadStep
    repeat' split
    all_goals exact hstop
  · exact (threadStep_move s o).alive hstop halive

/-- The semaphore is free where no submitter is inside. -/
theorem thread_enters {Good : Clone → Prop} {s : State ι ν} {xs : List ν}
    (hi : Inv Good s.view xs) (haway : ∀ k, (s.submitter k).away = true) (hpc : s.thread = .loop) :
    0 < s.qSemMutex := by
  rcases hi.guarded.excl with ⟨hone, _⟩ | ⟨_, p, hin, _⟩
  · exact Nat.lt_of_lt_of_eq Nat.zero_lt_one hone.symm
  · exfalso
    cases p with
    | none =>
      have hout : (s.thread.party).inside = false := by
        rw [hpc]
        rfl
      exact Bool.false_ne_true (hout.symm.trans hin)
    | some k =>
      have hout := (SubmitterPc.of_away (haway k)).1
      exact Bool.false_ne_true (hout.symm.trans hin)

/-- The store that takes an entry out: what is left is what was left without it. -/
theorem pending_unlinked {Good : Clone → Prop} {s : State ι ν} {xs : List ν} {q : ν}
    {ss : List (Store ν)} (hi : Inv Good s.view xs) (hpc : s.thread = .deleting q ss) :
    ss ≠ [] ∧ s.pending = (s.bio q).biIoVec.length + 20 +
      ((s.enqueued.drop (s.taken ++ [s.bio q]).length).map fun c => c.biIoVec.length + 20).sum := by
  have hloc : s.view.loc none = ⟨true, none, some (.unlink q ss)⟩ :=
    congrArg ThreadPc.party hpc
  obtain ⟨ys, rfl, hpend⟩ := hi.memAt hloc
  have horder : s.enqueued = s.taken ++ (s.bio q :: ys.map s.bio) := hi.order
  refine ⟨hpend.stores, ?_⟩
  have hsplit : s.enqueued = (s.taken ++ [s.bio q]) ++ ys.map s.bio := by
    rw [horder, List.append_assoc]
    rfl
  have hafter : s.enqueued.drop (s.taken ++ [s.bio q]).length = ys.map s.bio := by
    rw [hsplit, List.drop_left]
  rw [State.pending, hafter, horder, List.drop_left, List.map_cons, List.sum_cons]

/-- **Every step of the thread** outside `wait_event_interruptible_timeout` takes from the rank. -/
theorem threadStep_rank {Good : Clone → Prop} {s : State ι ν} {xs : List ν}
    (hi : Inv Good s.view xs) (haway : ∀ k, (s.submitter k).away = true)
    (hcond : s.bestioCondition = 0 ∨ s.bestioCondition = 2) (hstop : s.shouldStop = false)
    (halive : s.thread.ended = false) (hwaits : s.thread.waits = false) {o : Outcome}
    (ho : o.complete = true) : (threadStep s o).1.rank .awake < s.rank .awake := by
  cases hpc : s.thread with
  | err | exited =>
    rw [hpc] at halive
    cases halive
  | waiting =>
    rw [hpc] at hwaits
    cases hwaits
  | start =>
    rw [threadStep_edge (Or.inl hpc), hstop]
    exact rank_threadAt hpc rfl rfl rfl le_rfl (Nat.lt_succ_self 6)
  | check =>
    rw [threadStep_edge (Or.inr hpc), hstop]
    exact rank_threadAt hpc rfl rfl rfl le_rfl (Nat.lt_succ_self 6)
  | loop =>
    rw [threadStep_enters hpc (thread_enters hi haway hpc)]
    exact rank_threadAt hpc rfl rfl rfl le_rfl (Nat.lt_succ_self 5)
  | entered =>
    simp only [threadStep, hpc]
    by_cases hempty : s.mem.next s.queue = s.queue
    · rw [if_pos hempty]
      exact rank_threadAt hpc rfl rfl rfl le_rfl (show 3 < 5 by decide)
    · rw [if_neg hempty]
      exact rank_threadAt hpc rfl rfl rfl le_rfl (show 4 < 5 by decide)
  | empty =>
    simp only [threadStep, hpc]
    exact rank_threadAt hpc rfl rfl rfl le_rfl (Nat.lt_succ_self 2)
  | woken =>
    simp only [threadStep, hpc]
    refine rank_threadAt hpc rfl rfl rfl ?_ (Nat.lt_succ_self 7)
    -- the bit is cleared, so there is no toll to pay any more
    have hclear : s.bestioCondition &&& ~~~2 = 0 := by
      rcases hcond with h | h <;> rw [h] <;> rfl
    show (if s.bestioCondition &&& ~~~2 = 0 then 0 else 9) ≤ 0
    rw [if_pos hclear]
  | picking =>
    simp only [threadStep, hpc]
    exact rank_threadAt hpc rfl rfl rfl le_rfl (show 2 + 1 < 4 by decide)
  | deleting q ss =>
    obtain ⟨hss, hpend⟩ := pending_unlinked hi hpc
    rcases ss with _ | ⟨x, _ | ⟨y, ss⟩⟩
    · exact absurd rfl hss
    · rw [threadStep_unlinked hpc]
      have hleft : (State.threadAt { s with
          mem := s.mem.store x
          taken := s.taken ++ [s.bio q] } (.deleted q)).rank .awake =
          (s.bio q).biIoVec.length + 11 + (ThreadPc.deleted q).toll s.bestioCondition +
            ((s.enqueued.drop (s.taken ++ [s.bio q]).length).map
              fun c => c.biIoVec.length + 20).sum := rfl
      have hright : s.rank .awake =
          2 + (ThreadPc.deleted q).toll s.bestioCondition + s.pending := by
        rw [State.rank, hpc]
        rfl
      rw [hleft, hright, hpend]
      omega
    · simp only [threadStep, hpc]
      exact rank_threadAt hpc rfl rfl rfl le_rfl (Nat.lt_succ_self _)
  | deleted q =>
    rw [threadStep_deleted hpc]
    exact rank_threadAt hpc rfl rfl rfl le_rfl (Nat.lt_succ_self _)
  | filling q c done todo =>
    cases todo with
    | nil =>
      rw [threadStep_submits hpc]
      exact rank_threadAt hpc rfl rfl rfl le_rfl (Nat.lt_succ_self 9)
    | cons v todo =>
      simp only [threadStep, hpc]
      cases fillPage v o with
      | ok page =>
        exact rank_threadAt hpc rfl rfl rfl le_rfl (Nat.lt_succ_self (todo.length + 10))
      | error msg =>
        exact rank_threadAt hpc rfl rfl rfl le_rfl (show 8 < todo.length + 1 + 10 by omega)
  | waitingIo q =>
    simp only [threadStep, hpc, ho]
    exact rank_threadAt hpc rfl rfl rfl le_rfl (Nat.lt_succ_self 8)
  | freeing q =>
    simp only [threadStep, hpc]
    exact rank_threadAt hpc rfl rfl rfl le_rfl (Nat.lt_succ_self 7)

/-- **Every step in `wait_event_interruptible_timeout`** does, too, up to its sleep. -/
theorem waitEvent_rank {s : Sleeper ι ν} (hwaits : s.base.thread.waits = true)
    (hinv : EventFlag.Inv s.view) (haway : ∀ k, (s.base.submitter k).away = true)
    (hnone : ∀ k, s.waking k = false) {o : Outcome} (ho : o.expired = false) :
    (waitEvent s o).rank ≤ s.rank - 1 := by
  have hpc : s.base.thread = .waiting := by
    cases hpc : s.base.thread with
    | waiting => rfl
    | _ =>
      rw [hpc] at hwaits
      cases hwaits
  have hleaves : ∀ (w : Waiting), s.sleep = w → 0 < ThreadPc.rank w s.base.bio .waiting →
      s.base.bestioCondition ≠ 0 → (s.leave o).rank ≤ s.rank - 1 := by
    intro w hw hpos hcond
    have htoll : ThreadPc.toll s.base.bestioCondition (.waiting : ThreadPc ν) = 9 := if_neg hcond
    have hrank : s.rank = ThreadPc.rank w s.base.bio .waiting + 9 + s.base.pending := by
      rw [Sleeper.rank, State.rank, hpc, hw, htoll]
    have hwoken : (s.leave o).rank = 8 + 0 + s.base.pending := by
      rw [Sleeper.leave, threadStep_waits hwaits (Or.inl hcond)]
      rfl
    rw [hwoken, hrank]
    omega
  have hgoes : ∀ {w w' : Waiting}, s.sleep = w →
      ThreadPc.rank w' s.base.bio .waiting < ThreadPc.rank w s.base.bio .waiting →
        (Sleeper.rank { s with sleep := w' }) ≤ s.rank - 1 := by
    intro w w' hw hlt
    have hafter : Sleeper.rank { s with sleep := w' } = ThreadPc.rank w' s.base.bio .waiting +
        ThreadPc.toll s.base.bestioCondition (.waiting : ThreadPc ν) + s.base.pending := by
      unfold Sleeper.rank State.rank
      rw [hpc]
    rw [hafter, Sleeper.rank, State.rank, hpc, hw]
    omega
  unfold waitEvent
  cases hw : s.sleep with
  | awake =>
    by_cases hcond : s.base.bestioCondition ≠ 0
    · simp only [if_pos hcond]
      exact hleaves _ hw (show 0 < 2 by decide) hcond
    · simp only [if_neg hcond]
      exact hgoes hw (show 1 < 2 by decide)
  | queued =>
    by_cases hcond : s.base.bestioCondition ≠ 0
    · simp only [if_pos (Or.inl hcond : _ ∨ o.expired = true)]
      exact hleaves _ hw (show 0 < 1 by decide) hcond
    · have hstays : ¬ (s.base.bestioCondition ≠ 0 ∨ o.expired = true) := by
        rw [ho]
        exact not_or.mpr ⟨hcond, Bool.false_ne_true⟩
      simp only [if_neg hstays]
      exact hgoes hw (show 0 < 1 by decide)
  | asleep =>
    have hstays : ¬ o.expired = true := by
      rw [ho]
      exact Bool.false_ne_true
    simp only [if_neg hstays]
    -- nobody is left to wake it, so there is nothing to do
    have hzero : s.rank = 0 := by
      have hsleep : s.view.consumer = some .asleep := by
        show s.base.thread.stage s.sleep = _
        rw [hpc, hw]
        rfl
      have hcond : s.base.bestioCondition = 0 := by
        by_contra hset
        obtain ⟨k, hk⟩ := hinv.woken hsleep hset
        exact Bool.false_ne_true ((hnone k).symm.trans hk)
      have hwork : ¬ s.base.taken.length < s.base.enqueued.length := by
        intro hwork
        obtain ⟨k, hk | hk⟩ := hinv.wakes hsleep hwork
        · have hout := (SubmitterPc.of_away (haway k)).2
          exact Bool.false_ne_true (hout.symm.trans hk)
        · exact Bool.false_ne_true ((hnone k).symm.trans hk)
      have hpend : s.base.pending = 0 := pending_eq_zero.mpr (Nat.le_of_not_lt hwork)
      have htoll : ThreadPc.toll s.base.bestioCondition (.waiting : ThreadPc ν) = 0 := if_pos hcond
      rw [Sleeper.rank, State.rank, hpc, hw, hpend, htoll]
      rfl
    rw [hzero]

end Steps

/-! ## To the end -/

section Runs

variable [DecidableEq ι] [DecidableEq ν]

/-- No submitter has to do with the queue, and the thread is alive. -/
structure Settled (b : Boot ν) (s : Sleeper ι ν) : Prop where
  rested : Rested b s
  away : ∀ k, (s.base.submitter k).away = true
  none : ∀ k, s.waking k = false
  stop : s.base.shouldStop = false
  alive : s.base.thread.ended = false

/-- A step of the thread, in this outcome. -/
def threadAct (o : Outcome) : WakeAct ι ν P := .step (.thread o)

/-- It leaves the submitters alone. -/
theorem settled_threadAct {b : Boot ν} {s : Sleeper ι ν} (h : Settled b s) (o : Outcome) :
    Settled b (wakeStep s (threadAct o : WakeAct ι ν P)).1 := by
  have hframe := threadStep_frame s.base o
  obtain ⟨hstop, halive⟩ := threadStep_alive h.stop h.alive o
  have hrested := wakeStep_rested h.rested (threadAct o : WakeAct ι ν P)
  by_cases hw : s.base.thread.waits = true
  · have heq : (wakeStep s (threadAct o : WakeAct ι ν P)).1 = waitEvent s o := by
      simp only [wakeStep, threadAct, if_pos hw]
    rw [heq] at hrested ⊢
    rcases waitEvent_cases hw o with heq | ⟨⟨w, heq⟩, _⟩ | heq <;> rw [heq] at hrested ⊢
    · exact ⟨hrested, h.away, h.none, h.stop, rfl⟩
    · exact ⟨hrested, h.away, h.none, h.stop, h.alive⟩
    · exact h
  · have heq : (wakeStep s (threadAct o : WakeAct ι ν P)).1 =
        { s with base := (threadStep s.base o).1 } := by
      simp only [wakeStep, threadAct, if_neg hw]
    rw [heq] at hrested ⊢
    exact ⟨hrested, fun k => hframe.submitter ▸ h.away k, h.none, hstop, halive⟩

/-- It takes from the rank. -/
theorem rank_threadAct {b : Boot ν} {s : Sleeper ι ν} (h : Settled b s) {o : Outcome}
    (ho : o.expired = false ∧ o.complete = true) :
    (wakeStep s (threadAct o : WakeAct ι ν P)).1.rank ≤ s.rank - 1 := by
  by_cases hw : s.base.thread.waits = true
  · have heq : (wakeStep s (threadAct o : WakeAct ι ν P)).1 = waitEvent s o := by
      simp only [wakeStep, threadAct, if_pos hw]
    rw [heq]
    exact waitEvent_rank hw h.rested.inv h.away h.none ho.1
  · have heq : (wakeStep s (threadAct o : WakeAct ι ν P)).1 =
        { s with base := (threadStep s.base o).1 } := by
      simp only [wakeStep, threadAct, if_neg hw]
    have hwaits := Bool.eq_false_iff.mpr hw
    obtain ⟨xs, hi⟩ := h.rested.kept.1.inv (h.rested.kept.2.not_clearing h.alive)
    have hlt := threadStep_rank hi h.away h.rested.tidy.condition h.stop h.alive hwaits ho.2
    rw [heq]
    unfold Sleeper.rank
    rw [h.rested.tidy.awake hwaits]
    exact Nat.le_sub_one_of_lt hlt

omit [DecidableEq ι] [DecidableEq ν] in
/-- Where none is left the thread sleeps. -/
theorem asleep_of_rank {s : Sleeper ι ν} (halive : s.base.thread.ended = false)
    (hrank : s.rank = 0) : s.base.thread = .waiting ∧ s.sleep = .asleep ∧ s.base.pending = 0 := by
  unfold Sleeper.rank State.rank at hrank
  have hzero : s.base.thread.rank s.sleep s.base.bio = 0 := by omega
  have hpend : s.base.pending = 0 := by omega
  cases hpc : s.base.thread with
  | waiting =>
    rw [hpc] at hzero
    cases hw : s.sleep with
    | asleep => exact ⟨rfl, rfl, hpend⟩
    | _ =>
      rw [hw] at hzero
      cases hzero
  | err | exited =>
    rw [hpc] at halive
    cases halive
  | _ =>
    rw [hpc] at hzero
    cases hzero

/-- **The thread empties the queue.** When no submitter is between its `down` and the end of its
call and nobody has told the thread to end, its own steps, with no timeout and no signal and the
I/O completing, take out everything that entered, whatever pages they get. It ends asleep, after
`rank` steps at most. -/
theorem queue_drains (b : Boot ν) (acts : List (WakeAct ι ν P)) (os : List Outcome)
    (haway : ∀ k, ((wakeRun b acts).base.submitter k).away = true)
    (hnone : ∀ k, (wakeRun b acts).waking k = false)
    (hstop : (wakeRun b acts).base.shouldStop = false)
    (halive : (wakeRun b acts).base.thread.ended = false)
    (hos : ∀ o ∈ os, o.expired = false ∧ o.complete = true)
    (hlen : (wakeRun b acts).rank ≤ os.length) :
    (wakeRun b (acts ++ os.map threadAct)).base.taken =
        (wakeRun b (acts ++ os.map threadAct)).base.enqueued ∧
      (wakeRun b (acts ++ os.map threadAct)).base.mem.next b.queue = b.queue ∧
      (wakeRun b (acts ++ os.map threadAct)).sleep = .asleep := by
  have hsettled : Settled b (wakeRun b acts) :=
    ⟨rested_wakeRun b acts, haway, hnone, hstop, halive⟩
  have hall : ∀ t ∈ trace wakeStep (wakeRun b acts) (os.map (threadAct : Outcome → WakeAct ι ν P)),
      ∃ o, t.input = threadAct o ∧ o.expired = false ∧ o.complete = true := by
    intro t ht
    obtain ⟨o, ho, heq⟩ := List.mem_map.mp (input_mem_of_mem_trace ht)
    exact ⟨o, heq.symm, hos o ho⟩
  have hinv : ∀ (s : Sleeper ι ν) (a : WakeAct ι ν P), Settled b s →
      (∃ o, a = threadAct o ∧ o.expired = false ∧ o.complete = true) →
        Settled b (wakeStep s a).1 := by
    rintro s a hs ⟨o, rfl, _⟩
    exact settled_threadAct hs o
  have hrank : ∀ (s : Sleeper ι ν) (a : WakeAct ι ν P), Settled b s →
      (∃ o, a = threadAct o ∧ o.expired = false ∧ o.complete = true) →
        (wakeStep s a).1.rank ≤ s.rank - 1 := by
    rintro s a hs ⟨o, rfl, ho⟩
    exact rank_threadAct hs ho
  have hrun : wakeRun b (acts ++ os.map threadAct) =
      final wakeStep (wakeRun b acts) (os.map threadAct) := final_append wakeStep _ acts _
  obtain ⟨hend, hzero⟩ := final_rests hinv hrank _ _ hsettled hall (by rwa [List.length_map])
  rw [← hrun] at hend hzero
  obtain ⟨hpc, hsleep, hpend⟩ := asleep_of_rank hend.alive hzero
  have htaken := hend.rested.kept.2.taken.eq_of_length_le (pending_eq_zero.mp hpend)
  refine ⟨htaken, ?_, hsleep⟩
  have hempty := (hend.rested.kept.empty_iff hend.alive).mpr (congrArg List.length htaken)
  rwa [hend.rested.kept.1.head] at hempty

/-- One write is in the queue and the thread has not begun. -/
def oneQueued : List (WakeAct Bool Nat Unit) :=
  .step (hookCall false 1) :: List.replicate 9 (.step (.submitter false 1)) ++ [.wakeUp false]

theorem queue_drains_oneQueued :
    (wakeRun someBoot oneQueued).base.taken ≠ (wakeRun someBoot oneQueued).base.enqueued ∧
      (wakeRun someBoot (oneQueued ++ (List.replicate 40 allGood).map threadAct)).base.taken =
        (wakeRun someBoot (oneQueued ++ (List.replicate 40 allGood).map threadAct)).base.enqueued ∧
      (wakeRun someBoot (oneQueued ++ (List.replicate 40 allGood).map threadAct)).base.mem.next
        someBoot.queue = someBoot.queue ∧
      (wakeRun someBoot (oneQueued ++ (List.replicate 40 allGood).map threadAct)).sleep =
        .asleep := by
  refine ⟨by decide +kernel, queue_drains someBoot oneQueued (List.replicate 40 allGood) ?_ ?_ ?_ ?_
    (fun o ho => ?_) ?_⟩
  · decide +kernel
  · decide +kernel
  · decide +kernel
  · decide +kernel
  · rw [List.eq_of_mem_replicate ho]
    exact ⟨rfl, rfl⟩
  · decide +kernel

end Runs

end JcmController.Backup
