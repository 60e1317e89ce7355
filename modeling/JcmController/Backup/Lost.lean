import JcmController.Backup.Queue

/-!
# The writes the backup loses

Every bio that entered the queue is in one of five places: submitted, in the thread's hands, in the
queue, dropped by `bestio_q_bio`, or left in the queue when the thread ended. `Lost` compares the
histories; three steps bring it about (`Loses`) and none undoes it.

Results:
* `threadStep_move`: what a step of the thread does to the bio in its hands.
* `step_lost`: a write is lost at these three steps only.
* **`backup_kept_iff`**: once `backup_exit` has returned, everything that entered the queue was
  submitted, and nothing else left it, exactly where the run has none of these steps.
* `backup_lost`: a page that is not allocated loses a write, and so does the end of the thread.
-/

namespace JcmController.Backup

open JcmController.Lib JcmController.Lib.ListHead JcmController.Lib.LockedQueue

variable {ι ν P : Type}

/-! ## What is lost -/

/-- The bio the thread has taken out and not yet submitted or dropped. -/
def ThreadPc.hand (bio : ν → Clone) : ThreadPc ν → List Clone
  | .deleted q => [bio q]
  | .filling _ c _ _ => [c]
  | _ => []

theorem ThreadPc.hand_length (bio bio' : ν → Clone) (pc : ThreadPc ν) :
    (pc.hand bio).length = (pc.hand bio').length := by
  cases pc <;> rfl

theorem ThreadPc.hand_of_ended {bio : ν → Clone} {pc : ThreadPc ν} (h : pc.ended = true) :
    pc.hand bio = [] := by
  cases pc <;> first | rfl | cases h

/-- Everything that entered the queue was submitted, and what left it, left it to be submitted. -/
def State.NoneLost (s : State ι ν) : Prop :=
  s.submitted.map Prod.fst = s.enqueued ∧
    ∀ c ∈ s.taken ++ s.cleared, c ∈ s.submitted.map Prod.fst

instance (s : State ι ν) : Decidable s.NoneLost := inferInstanceAs (Decidable (_ ∧ _))

/-- The thread has taken out a bio that it did not submit, or has ended before it took one out. -/
def State.Lost (s : State ι ν) : Prop :=
  s.submitted.length + (s.thread.hand s.bio).length ≠ s.taken.length ∨
    s.thread.ended = true ∧ s.taken.length ≠ s.enqueued.length

/-- A page of the bio is not filled. -/
def FillFails (s : State ι ν) (o : Outcome) : Prop :=
  ∃ q c done v todo, s.thread = .filling q c done (v :: todo) ∧
    ∃ msg, fillPage v o = .error msg

/-- The thread ends with a bio in the queue. -/
def StopsEarly (s : State ι ν) : Prop :=
  s.shouldStop = true ∧ (s.thread = .start ∨ s.thread = .check) ∧ s.mem.next s.queue ≠ s.queue

/-- A bio enters the queue after the thread has ended. -/
def LinksLate (s : State ι ν) (k : ι) : Prop :=
  s.thread.ended = true ∧ ∃ q x, s.submitter k = .adding q [x]

/-- The steps that lose a bio. -/
def Loses (s : State ι ν) : Act ι ν P → Prop
  | .call _ _ _ => False
  | .submitter k _ => LinksLate s k
  | .thread o => FillFails s o ∨ StopsEarly s
  | .exit => False

theorem lost_congr {s s' : State ι ν} (hsubmitted : s'.submitted = s.submitted)
    (hthread : s'.thread.ended = s.thread.ended)
    (hhand : (s'.thread.hand s'.bio).length = (s.thread.hand s.bio).length)
    (htaken : s'.taken = s.taken) (henqueued : s'.enqueued = s.enqueued) :
    s'.Lost ↔ s.Lost := by
  unfold State.Lost
  rw [hsubmitted, hthread, hhand, htaken, henqueued]

/-- A place from which no step of the thread loses a bio. -/
def ThreadPc.safe : ThreadPc ν → Bool
  | .start | .check | .filling _ _ _ (_ :: _) => false
  | _ => true

theorem not_fillFails {s : State ι ν} {o : Outcome} {pc : ThreadPc ν} (hpc : s.thread = pc)
    (h : pc.safe = true) : ¬ FillFails s o := by
  rintro ⟨q, c, done, v, todo, hfill, _⟩
  rw [hpc.symm.trans hfill] at h
  cases h

theorem not_stopsEarly {s : State ι ν} {pc : ThreadPc ν} (hpc : s.thread = pc)
    (h : pc.safe = true) : ¬ StopsEarly s := by
  rintro ⟨_, hstart | hcheck, _⟩
  · rw [hpc.symm.trans hstart] at h
    cases h
  · rw [hpc.symm.trans hcheck] at h
    cases h

theorem not_fillFails_of_edge {s : State ι ν} {o : Outcome}
    (hpc : s.thread = .start ∨ s.thread = .check) : ¬ FillFails s o := by
  rintro ⟨q, c, done, v, todo, hfill, _⟩
  rcases hpc with hpc | hpc <;> cases hpc.symm.trans hfill

/-! ## A step of the thread -/

section Steps

variable [DecidableEq ν]

/-- What a step of the thread does to the bio in its hands: nothing, or it takes one out, submits
it, drops it, or is its last. -/
inductive ThreadMove (s : State ι ν) (o : Outcome) : State ι ν → Prop
  | idle (s' : State ι ν) (hsubmitted : s'.submitted = s.submitted) (htaken : s'.taken = s.taken)
      (hhand : s'.thread.hand s.bio = s.thread.hand s.bio)
      (hended : s'.thread.ended = s.thread.ended) (hfill : ¬ FillFails s o)
      (hstop : ¬ StopsEarly s) : ThreadMove s o s'
  | take (q : ν) (x : Store ν) (hpc : s.thread = .deleting q [x]) :
      ThreadMove s o (State.threadAt { s with
        mem := s.mem.store x
        taken := s.taken ++ [s.bio q] } (.deleted q))
  | submit (q : ν) (c : Clone) (done : List (BioVec (List UInt8)))
      (hpc : s.thread = .filling q c done []) :
      ThreadMove s o (State.threadAt { s with
        submitted := s.submitted ++ [(c, c.filled done)] } (.waitingIo q))
  | drop (q : ν) (hhand : ∃ c, s.thread.hand s.bio = [c]) (hended : s.thread.ended = false)
      (hfill : FillFails s o) : ThreadMove s o (s.threadAt (.freeing q))
  | stop (hpc : s.thread = .start ∨ s.thread = .check) (hstop : s.shouldStop = true) :
      ThreadMove s o (s.threadAt .exited)

/-- A step within these places leaves the bio in the thread's hands alone. -/
theorem ThreadMove.idle_of {s s' : State ι ν} {o : Outcome} {pc pc' : ThreadPc ν}
    (hpc : s.thread = pc) (hpc' : s'.thread = pc') (hsubmitted : s'.submitted = s.submitted)
    (htaken : s'.taken = s.taken) (hhand : pc'.hand s.bio = pc.hand s.bio)
    (hended : pc'.ended = pc.ended) (hsafe : pc.safe = true) : ThreadMove s o s' :=
  .idle s' hsubmitted htaken (by rw [hpc, hpc', hhand]) (by rw [hpc, hpc', hended])
    (not_fillFails hpc hsafe) (not_stopsEarly hpc hsafe)

/-- At the top and the bottom of the loop the thread ends where it is told to. -/
theorem threadStep_should_stop {s : State ι ν} (o : Outcome)
    (hpc : s.thread = .start ∨ s.thread = .check) : ThreadMove s o (threadStep s o).1 := by
  rw [threadStep_edge hpc]
  by_cases hstop : s.shouldStop = true
  · rw [if_pos hstop]
    exact .stop hpc hstop
  · rw [if_neg hstop]
    refine .idle _ rfl rfl ?_ ?_ ?_ fun h => hstop h.1
    · rcases hpc with hpc | hpc <;> rw [hpc] <;> rfl
    · rcases hpc with hpc | hpc <;> rw [hpc] <;> rfl
    · exact not_fillFails_of_edge hpc

/-- **A step of the thread** is one of these. -/
theorem threadStep_move (s : State ι ν) (o : Outcome) : ThreadMove s o (threadStep s o).1 := by
  cases hpc : s.thread with
  | start => exact threadStep_should_stop o (Or.inl hpc)
  | check => exact threadStep_should_stop o (Or.inr hpc)
  | loop =>
    by_cases hsem : 0 < s.qSemMutex
    · rw [threadStep_enters hpc hsem]
      exact .idle_of hpc rfl rfl rfl rfl rfl rfl
    · simp only [threadStep, hpc, if_neg hsem]
      exact .idle_of hpc hpc rfl rfl rfl rfl rfl
  | entered =>
    simp only [threadStep, hpc]
    by_cases hempty : s.mem.next s.queue = s.queue
    · rw [if_pos hempty]
      exact .idle_of hpc rfl rfl rfl rfl rfl rfl
    · rw [if_neg hempty]
      exact .idle_of hpc rfl rfl rfl rfl rfl rfl
  | waiting =>
    simp only [threadStep, hpc]
    by_cases hwake : s.bestioCondition ≠ 0 ∨ o.expired = true
    · rw [if_pos hwake]
      exact .idle_of hpc rfl rfl rfl rfl rfl rfl
    · rw [if_neg hwake]
      exact .idle_of hpc rfl rfl rfl rfl rfl rfl
  | waitingIo q =>
    simp only [threadStep, hpc]
    by_cases hdone : o.complete = true
    · rw [if_pos hdone]
      exact .idle_of hpc rfl rfl rfl rfl rfl rfl
    · rw [if_neg hdone]
      exact .idle_of hpc rfl rfl rfl rfl rfl rfl
  | deleting q ss =>
    rcases ss with _ | ⟨x, _ | ⟨y, ss⟩⟩
    · simp only [threadStep, hpc]
      exact .idle_of hpc hpc rfl rfl rfl rfl rfl
    · rw [threadStep_unlinked hpc]
      exact .take q x hpc
    · simp only [threadStep, hpc]
      exact .idle_of hpc rfl rfl rfl rfl rfl rfl
  | filling q c done todo =>
    cases todo with
    | nil =>
      rw [threadStep_submits hpc]
      exact .submit q c done hpc
    | cons v todo =>
      cases hfill : fillPage v o with
      | ok page =>
        rw [threadStep_fills hpc hfill]
        refine .idle _ rfl rfl (by rw [hpc]; rfl) (by rw [hpc]; rfl) ?_ ?_
        · rintro ⟨q', c', done', v', todo', hpc', msg, hmsg⟩
          cases hpc.symm.trans hpc'
          cases hfill.symm.trans hmsg
        · rintro ⟨_, h | h, _⟩ <;> cases hpc.symm.trans h
      | error msg =>
        simp only [threadStep, hpc, hfill]
        exact .drop q ⟨c, by rw [hpc]; rfl⟩ (by rw [hpc]; rfl)
          ⟨q, c, done, v, todo, hpc, msg, hfill⟩
  | err | exited =>
    simp only [threadStep, hpc]
    exact .idle_of hpc hpc rfl rfl rfl rfl rfl
  | empty | woken | picking | deleted q | freeing q =>
    simp only [threadStep, hpc]
    exact .idle_of hpc rfl rfl rfl rfl rfl rfl

/-! ## The accounts -/

/-- Where `backup_clear_queue` is while it finds the queue empty. -/
def ExitPc.Idle (queue : ν) : ExitPc ν → Prop
  | .reading pos | .testing pos _ => pos = queue
  | .deleting _ _ _ | .freeing _ _ => False
  | _ => True

/-- The histories follow each other; `backup_clear_queue` begins when the thread has ended, and
takes nothing out where nothing is lost. -/
structure Accounts (s : State ι ν) : Prop where
  submitted : (s.submitted.map Prod.fst ++ s.thread.hand s.bio).Sublist s.taken
  taken : s.taken <+: s.enqueued
  alive : s.thread.ended = false → s.exit = .notCalled ∨ s.exit = .stopping
  calm : ¬ s.Lost → s.cleared = [] ∧ s.exit.Idle s.queue

omit [DecidableEq ν] in
theorem Accounts.submitted_le {s : State ι ν} (h : Accounts s) :
    s.submitted.length + (s.thread.hand s.bio).length ≤ s.taken.length := by
  have hle := h.submitted.length_le
  rwa [List.length_append, List.length_map] at hle

omit [DecidableEq ν] in
theorem Accounts.not_clearing {s : State ι ν} (h : Accounts s) (hthread : s.thread.ended = false) :
    s.exit.clearing = false := by
  rcases h.alive hthread with hexit | hexit <;> rw [hexit] <;> rfl

omit [DecidableEq ν] in
/-- Once the thread has ended, nothing is lost where everything was submitted. -/
theorem Accounts.noneLost_iff {s : State ι ν} (ha : Accounts s) (hended : s.thread.ended = true) :
    s.NoneLost ↔ ¬ s.Lost := by
  have hsub := ha.submitted
  have htaken := ha.taken.length_le
  rw [ThreadPc.hand_of_ended hended, List.append_nil] at hsub
  constructor
  · rintro ⟨heq, _⟩
    have hlen := congrArg List.length heq
    have hle := hsub.length_le
    rw [List.length_map] at hlen hle
    unfold State.Lost
    rw [ThreadPc.hand_of_ended hended, List.length_nil]
    omega
  · intro hlost
    have hlen : s.submitted.length = s.taken.length := by
      by_contra hne
      refine hlost (Or.inl ?_)
      rwa [ThreadPc.hand_of_ended hended]
    have hlen' : s.taken.length = s.enqueued.length := by
      by_contra hne
      exact hlost (Or.inr ⟨hended, hne⟩)
    have heq : s.submitted.map Prod.fst = s.taken :=
      hsub.eq_of_length ((List.length_map Prod.fst).trans hlen)
    refine ⟨heq.trans (ha.taken.eq_of_length hlen'), fun c hc => ?_⟩
    rwa [(ha.calm hlost).1, List.append_nil, ← heq] at hc

/-- The queue is empty where everything that entered was taken out. -/
theorem empty_iff {Good : Clone → Prop} {s : State ι ν} {xs : List ν} (h : Inv Good s.view xs) :
    s.mem.next s.queue = s.queue ↔ s.taken.length = s.enqueued.length := by
  obtain ⟨hwalk, hhead, horder⟩ := h.contents
  have hlen : s.enqueued.length = s.taken.length + xs.length := by
    have hcongr := congrArg List.length horder
    rwa [List.length_append, List.length_map] at hcongr
  rw [show s.mem.next s.queue = s.queue ↔ xs = [] from walk_nil_iff hwalk hhead,
    ← List.length_eq_zero_iff]
  omega

/-- What a step of the thread loses. -/
theorem ThreadMove.lost {s s' : State ι ν} {o : Outcome} (h : ThreadMove s o s')
    (hframe : ThreadFrame s s') (ha : Accounts s)
    (hempty : s.thread.ended = false →
      (s.mem.next s.queue = s.queue ↔ s.taken.length = s.enqueued.length)) :
    s'.Lost ↔ s.Lost ∨ FillFails s o ∨ StopsEarly s := by
  have hle := ha.submitted_le
  cases h with
  | idle _ hsubmitted htaken hhand hended hfill hstop =>
    have hlen : (s'.thread.hand s'.bio).length = (s.thread.hand s.bio).length := by
      rw [hframe.bio, hhand]
    rw [lost_congr hsubmitted hended hlen htaken hframe.enqueued,
      or_iff_left (not_or.mpr ⟨hfill, hstop⟩)]
  | take q x hpc =>
    rw [or_iff_left (not_or.mpr ⟨not_fillFails hpc rfl, not_stopsEarly hpc rfl⟩)]
    simp [State.Lost, State.threadAt, hpc, ThreadPc.hand, ThreadPc.ended]
  | submit q c done hpc =>
    rw [or_iff_left (not_or.mpr ⟨not_fillFails hpc rfl, not_stopsEarly hpc rfl⟩)]
    simp [State.Lost, State.threadAt, hpc, ThreadPc.hand, ThreadPc.ended]
  | drop q hhand hended hfill =>
    refine iff_of_true (Or.inl ?_) (Or.inr (Or.inl hfill))
    obtain ⟨c, hc⟩ := hhand
    rw [hc] at hle
    have hlt : s.submitted.length < s.taken.length := hle
    exact Nat.ne_of_lt hlt
  | stop hpc hstop =>
    have hended : s.thread.ended = false := by rcases hpc with hpc | hpc <;> rw [hpc] <;> rfl
    have hhand : s.thread.hand s.bio = [] := by rcases hpc with hpc | hpc <;> rw [hpc] <;> rfl
    have hearly : StopsEarly s ↔ s.taken.length ≠ s.enqueued.length := by
      rw [ne_eq, ← hempty hended]
      exact ⟨fun h => h.2.2, fun h => ⟨hstop, hpc, h⟩⟩
    rw [hearly, or_iff_right (not_fillFails_of_edge hpc)]
    show _ ∨ _ ↔ (_ ∨ _) ∨ _
    rw [hended, hhand, or_iff_left (fun h : false = true ∧ _ => Bool.false_ne_true h.1)]
    exact or_congr Iff.rfl ⟨fun h => h.2, fun h => ⟨rfl, h⟩⟩

theorem ThreadMove.accounts {s s' : State ι ν} {o : Outcome} (h : ThreadMove s o s')
    (hframe : ThreadFrame s s') (ha : Accounts s) :
    (s'.submitted.map Prod.fst ++ s'.thread.hand s'.bio).Sublist s'.taken ∧
      (s'.thread.ended = false → s.thread.ended = false) := by
  have hsub := ha.submitted
  cases h with
  | idle _ hsubmitted htaken hhand hended hfill hstop =>
    rw [hsubmitted, htaken, hframe.bio, hhand, hended]
    exact ⟨hsub, id⟩
  | take q x hpc =>
    rw [hpc] at hsub ⊢
    refine ⟨?_, fun _ => rfl⟩
    rw [show ThreadPc.hand s.bio (.deleting q [x]) = [] from rfl, List.append_nil] at hsub
    exact hsub.append (List.Sublist.refl [s.bio q])
  | submit q c done hpc =>
    rw [hpc] at hsub ⊢
    refine ⟨?_, fun _ => rfl⟩
    show ((s.submitted ++ [(c, c.filled done)]).map Prod.fst ++ []).Sublist s.taken
    rw [List.append_nil, List.map_append]
    exact hsub
  | drop q hhand hended hfill =>
    refine ⟨?_, fun _ => hended⟩
    show (s.submitted.map Prod.fst ++ []).Sublist s.taken
    rw [List.append_nil]
    exact (List.sublist_append_left _ _).trans hsub
  | stop hpc hstop =>
    refine ⟨?_, fun h => by cases h⟩
    show (s.submitted.map Prod.fst ++ []).Sublist s.taken
    rw [List.append_nil]
    exact (List.sublist_append_left _ _).trans hsub

/-! ## A step of the others -/

/-- A bio enters at a submitter's last store. -/
theorem submitterStep_enqueued [DecidableEq ι] (s : State ι ν) (k : ι) (node : ν) :
    (∃ q x, s.submitter k = .adding q [x] ∧
      (submitterStep s k node).enqueued = s.enqueued ++ [s.bio q]) ∨
    (∀ q x, s.submitter k ≠ .adding q [x]) ∧
      (submitterStep s k node).enqueued = s.enqueued := by
  cases hpc : s.submitter k with
  | rest | oops => exact Or.inr ⟨fun _ _ h => (by cases h), by simp only [submitterStep, hpc]⟩
  | added | left | entered q =>
    refine Or.inr ⟨fun _ _ h => (by cases h), ?_⟩
    simp only [submitterStep, hpc]
    rfl
  | cloned c =>
    refine Or.inr ⟨fun _ _ h => (by cases h), ?_⟩
    simp only [submitterStep, hpc]
    split <;> rfl
  | allocated q =>
    refine Or.inr ⟨fun _ _ h => (by cases h), ?_⟩
    simp only [submitterStep, hpc]
    split <;> rfl
  | adding q ss =>
    rcases ss with _ | ⟨x, _ | ⟨y, ss⟩⟩
    · refine Or.inr ⟨fun _ _ h => (by cases h), ?_⟩
      simp only [submitterStep, hpc]
    · refine Or.inl ⟨q, x, rfl, ?_⟩
      simp only [submitterStep, hpc]
      rfl
    · refine Or.inr ⟨fun _ _ h => (by cases h), ?_⟩
      simp only [submitterStep, hpc]
      rfl

/-- `kmalloc` gives no node that is in use. -/
theorem submitterStep_bio [DecidableEq ι] {s : State ι ν} {k : ι} {node q : ν}
    (hq : s.used q = true) : (submitterStep s k node).bio q = s.bio q := by
  unfold submitterStep
  repeat' split
  all_goals first
    | rfl
    | exact Function.update_of_ne (by rintro rfl; exact absurd hq ‹_›) _ _

theorem submitterStep_lost [DecidableEq ι] {s : State ι ν} {k : ι} {node : ν}
    (ha : Accounts s) : (submitterStep s k node).Lost ↔ s.Lost ∨ LinksLate s k := by
  have hframe := submitterStep_frame s k node
  have hhand : ((submitterStep s k node).thread.hand (submitterStep s k node).bio).length =
      (s.thread.hand s.bio).length := by
    rw [hframe.thread]
    exact ThreadPc.hand_length _ _ _
  rcases submitterStep_enqueued s k node with ⟨q, x, hpc, henq⟩ | ⟨hpc, henq⟩
  · have hlate : LinksLate s k ↔ s.thread.ended = true := ⟨fun h => h.1, fun h => ⟨h, q, x, hpc⟩⟩
    have hne : s.taken.length ≠ (s.enqueued ++ [s.bio q]).length := by
      have hle := ha.taken.length_le
      rw [List.length_append, List.length_singleton]
      omega
    unfold State.Lost
    rw [hlate, hhand, hframe.submitted, hframe.taken, hframe.thread, henq, and_iff_left hne,
      or_assoc, or_iff_right_of_imp And.left]
  · rw [lost_congr hframe.submitted (by rw [hframe.thread]) hhand hframe.taken henq]
    exact (or_iff_left fun ⟨_, q, x, h⟩ => hpc q x h).symm

theorem submitterStep_hand [DecidableEq ι] {Good : Clone → Prop} {s : State ι ν} {k : ι} {node : ν}
    (ha : Accounts s) (hinv : s.exit.clearing = false → ∃ xs, Inv Good s.view xs) :
    s.thread.hand (submitterStep s k node).bio = s.thread.hand s.bio := by
  cases hpc : s.thread with
  | deleted q =>
    obtain ⟨xs, hi⟩ := hinv (ha.not_clearing (by rw [hpc]; rfl))
    have hown : (Local.own ∘ s.view.loc) none = some q :=
      congrArg (fun pc : ThreadPc ν => pc.party.own) hpc
    have hused : s.used q = true := hi.owns.own_used none q hown
    exact congrArg (fun c => [c]) (submitterStep_bio hused)
  | _ => rfl

omit [DecidableEq ν] in
/-- Nothing that is lost comes back: a party that leaves the rest alone keeps the accounts. -/
theorem Accounts.keep {s s' : State ι ν} (ha : Accounts s) (hqueue : s'.queue = s.queue)
    (hexit : s'.exit = s.exit) (hcleared : s'.cleared = s.cleared)
    (hlost : s.Lost → s'.Lost)
    (hsubmitted : (s'.submitted.map Prod.fst ++ s'.thread.hand s'.bio).Sublist s'.taken)
    (htaken : s'.taken <+: s'.enqueued)
    (hended : s'.thread.ended = false → s.thread.ended = false) : Accounts s' := by
  refine ⟨hsubmitted, htaken, fun h => ?_, fun h => ?_⟩
  · rw [hexit]
    exact ha.alive (hended h)
  · rw [hqueue, hexit, hcleared]
    exact ha.calm (mt hlost h)

/-- `backup_exit` loses nothing itself. -/
theorem exitStep_lost (s : State ι ν) : (exitStep s).Lost ↔ s.Lost := by
  have hframe := exitStep_frame s
  exact lost_congr hframe.submitted (by rw [hframe.thread])
    (by rw [hframe.thread, hframe.bio]) hframe.taken hframe.enqueued

theorem exitStep_alive {s : State ι ν} (ha : Accounts s) (hthread : s.thread.ended = false) :
    (exitStep s).exit = .notCalled ∨ (exitStep s).exit = .stopping := by
  rcases ha.alive hthread with hexit | hexit
  · cases hpc : s.thread with
    | err =>
      rw [hpc] at hthread
      cases hthread
    | _ => exact Or.inr (by simp only [exitStep, hexit, hpc])
  · cases hpc : s.thread with
    | exited =>
      rw [hpc] at hthread
      cases hthread
    | _ => exact Or.inr (by simp only [exitStep, hexit, hpc])

/-- **`backup_clear_queue` finds the queue empty** where nothing is lost. -/
theorem exitStep_calm {s : State ι ν} (ha : Accounts s) (hlost : ¬ s.Lost)
    (hempty : s.exit = .stopped →
      (s.mem.next s.queue = s.queue ↔ s.taken.length = s.enqueued.length)) :
    (exitStep s).cleared = [] ∧ (exitStep s).exit.Idle s.queue := by
  obtain ⟨hcleared, hidle⟩ := ha.calm hlost
  cases hpc : s.exit with
  | notCalled =>
    simp only [exitStep, hpc]
    split <;> exact ⟨hcleared, trivial⟩
  | stopping =>
    simp only [exitStep, hpc]
    split
    · exact ⟨hcleared, trivial⟩
    · exact ⟨hcleared, by rw [hpc]; trivial⟩
  | stopped =>
    have hended : s.thread.ended = true := by
      by_contra hthread
      rcases ha.alive (Bool.eq_false_iff.mpr hthread) with hexit | hexit <;>
        cases hpc.symm.trans hexit
    have hlen : s.taken.length = s.enqueued.length := by
      by_contra hne
      exact hlost (Or.inr ⟨hended, hne⟩)
    simp only [exitStep, hpc]
    exact ⟨hcleared, (hempty hpc).mpr hlen⟩
  | reading pos =>
    rw [hpc] at hidle
    simp only [exitStep, hpc]
    exact ⟨hcleared, hidle⟩
  | testing pos q =>
    rw [hpc] at hidle
    simp only [exitStep, hpc, if_pos (show pos = s.queue from hidle)]
    exact ⟨hcleared, trivial⟩
  | deleting pos q ss | freeing pos q =>
    rw [hpc] at hidle
    exact hidle.elim
  | freeingQueue | putting =>
    simp only [exitStep, hpc]
    exact ⟨hcleared, trivial⟩
  | returned =>
    simp only [exitStep, hpc]
    exact ⟨hcleared, trivial⟩

theorem exitStep_accounts {Good : Clone → Prop} {s : State ι ν} (ha : Accounts s)
    (hinv : s.exit.clearing = false → ∃ xs, Inv Good s.view xs) : Accounts (exitStep s) := by
  have hframe := exitStep_frame s
  refine ⟨?_, ?_, fun h => exitStep_alive ha (hframe.thread ▸ h), fun h => ?_⟩
  · rw [hframe.submitted, hframe.thread, hframe.taken, hframe.bio]
    exact ha.submitted
  · rw [hframe.taken, hframe.enqueued]
    exact ha.taken
  · rw [hframe.queue]
    refine exitStep_calm ha (mt (exitStep_lost s).mpr h) fun hexit => ?_
    obtain ⟨xs, hi⟩ := hinv (by rw [hexit]; rfl)
    exact empty_iff hi

/-- A step of the thread takes out what is first in the queue. -/
theorem threadStep_taken {Good : Clone → Prop} {s : State ι ν} {o : Outcome} (ha : Accounts s)
    (hinv : s.exit.clearing = false → ∃ xs, Inv Good s.view xs) :
    (threadStep s o).1.taken <+: (threadStep s o).1.enqueued := by
  cases hthread : s.thread.ended with
  | true =>
    have hsame : (threadStep s o).1 = s := by
      cases hpc : s.thread with
      | err | exited => simp only [threadStep, hpc]
      | _ =>
        rw [hpc] at hthread
        cases hthread
    rw [hsame]
    exact ha.taken
  | false =>
    classical
    obtain ⟨xs, hi⟩ := hinv (ha.not_clearing hthread)
    obtain ⟨xs', hi'⟩ : ∃ xs', Inv Good (threadStep s o).1.view xs' := by
      rcases threadStep_view s o with hview | hview
      · exact ⟨xs, hview ▸ hi⟩
      · exact hview.inv hi
    exact ⟨_, hi'.order.symm⟩

theorem threadStep_accounts {Good : Clone → Prop} {s : State ι ν} {o : Outcome} (ha : Accounts s)
    (hinv : s.exit.clearing = false → ∃ xs, Inv Good s.view xs)
    (hlost : s.Lost → (threadStep s o).1.Lost) : Accounts (threadStep s o).1 := by
  have hframe := threadStep_frame s o
  obtain ⟨hsubmitted, hended⟩ := (threadStep_move s o).accounts hframe ha
  exact ha.keep hframe.queue hframe.exit hframe.cleared hlost hsubmitted
    (threadStep_taken ha hinv) hended

omit [DecidableEq ν] in
/-- What a submitter does leaves the thread's accounts alone. -/
theorem SubmitterFrame.accounts {s s' : State ι ν} (hframe : SubmitterFrame s s')
    (ha : Accounts s) (hlost : s.Lost → s'.Lost)
    (hhand : s.thread.hand s'.bio = s.thread.hand s.bio) (henq : s.enqueued <+: s'.enqueued) :
    Accounts s' := by
  refine ha.keep hframe.queue hframe.exit hframe.cleared hlost ?_ ?_ ?_
  · rw [hframe.submitted, hframe.thread, hframe.taken, hhand]
    exact ha.submitted
  · rw [hframe.taken]
    exact ha.taken.trans henq
  · rw [hframe.thread]
    exact id

theorem submitterStep_accounts [DecidableEq ι] {Good : Clone → Prop} {s : State ι ν} {k : ι}
    {node : ν} (ha : Accounts s) (hinv : s.exit.clearing = false → ∃ xs, Inv Good s.view xs) :
    Accounts (submitterStep s k node) := by
  refine (submitterStep_frame s k node).accounts ha
    (fun h => (submitterStep_lost ha).mpr (Or.inl h)) (submitterStep_hand ha hinv) ?_
  rcases submitterStep_enqueued s k node with ⟨_, _, _, henq⟩ | ⟨_, henq⟩
  · exact henq ▸ List.prefix_append _ _
  · exact henq ▸ List.prefix_rfl

omit [DecidableEq ν] in
/-- A call of the hook has no part in the accounts. -/
theorem bestioBackupBio_same [DecidableEq ι] (s : State ι ν) (k : ι) (bio : Bio P)
    (junk : Nat → BioVec UInt64) :
    (bestioBackupBio s k bio junk).bio = s.bio ∧
      (bestioBackupBio s k bio junk).enqueued = s.enqueued := by
  have hview := bestioBackupBio_view s k bio junk
  exact ⟨congrArg Shared.val hview, congrArg Shared.entered hview⟩

omit [DecidableEq ν] in
theorem bestioBackupBio_lost [DecidableEq ι] (s : State ι ν) (k : ι) (bio : Bio P)
    (junk : Nat → BioVec UInt64) : (bestioBackupBio s k bio junk).Lost ↔ s.Lost := by
  have hframe := bestioBackupBio_frame s k bio junk
  obtain ⟨hbio, henq⟩ := bestioBackupBio_same s k bio junk
  exact lost_congr hframe.submitted (by rw [hframe.thread]) (by rw [hframe.thread, hbio])
    hframe.taken henq

/-! ## Every step -/

variable [DecidableEq ι]

/-- **What a step loses.** -/
theorem step_lost {Good : Clone → Prop} {s : State ι ν} (ha : Accounts s)
    (hinv : s.exit.clearing = false → ∃ xs, Inv Good s.view xs) (a : Act ι ν P) :
    (step s a).1.Lost ↔ s.Lost ∨ Loses s a := by
  cases a with
  | call k bio junk => exact (bestioBackupBio_lost s k bio junk).trans (or_iff_left id).symm
  | submitter k node => exact submitterStep_lost ha
  | thread o =>
    refine (threadStep_move s o).lost (threadStep_frame s o) ha fun hthread => ?_
    obtain ⟨xs, hi⟩ := hinv (ha.not_clearing hthread)
    exact empty_iff hi
  | exit => exact (exitStep_lost s).trans (or_iff_left id).symm

theorem step_accounts {Good : Clone → Prop} {s : State ι ν} (ha : Accounts s)
    (hinv : s.exit.clearing = false → ∃ xs, Inv Good s.view xs) (a : Act ι ν P) :
    Accounts (step s a).1 := by
  have hlost : s.Lost → (step s a).1.Lost := fun h => (step_lost ha hinv a).mpr (Or.inl h)
  cases a with
  | call k bio junk =>
    obtain ⟨hbio, henq⟩ := bestioBackupBio_same s k bio junk
    exact (bestioBackupBio_frame s k bio junk).accounts ha hlost (by rw [hbio])
      (henq ▸ List.prefix_rfl)
  | submitter k node => exact submitterStep_accounts ha hinv
  | thread o => exact threadStep_accounts ha hinv hlost
  | exit => exact exitStep_accounts ha hinv

/-- The queue, and the accounts of what went through it. -/
def Kept (b : Boot ν) (s : State ι ν) : Prop := Ordered b (fun _ => True) s ∧ Accounts s

theorem step_kept {b : Boot ν} {s : State ι ν} (h : Kept b s) (a : Act ι ν P) :
    Kept b (step s a).1 :=
  ⟨step_ordered h.1 fun _ _ _ _ _ _ _ => trivial, step_accounts h.2 h.1.inv a⟩

omit [DecidableEq ι] in
theorem hand_backupInit (b : Boot ν) :
    (backupInit (ι := ι) b).thread.hand (backupInit (ι := ι) b).bio = [] := by
  show ThreadPc.hand b.bio (if b.running then .start else .err) = []
  split <;> rfl

omit [DecidableEq ι] in
theorem accounts_backupInit (b : Boot ν) : Accounts (backupInit (ι := ι) b) := by
  refine ⟨?_, List.prefix_rfl, fun _ => Or.inl rfl, fun _ => ⟨rfl, trivial⟩⟩
  rw [hand_backupInit]
  exact List.Sublist.refl []

omit [DecidableEq ι] in
theorem not_lost_backupInit (b : Boot ν) : ¬ (backupInit (ι := ι) b).Lost := by
  rintro (h | h)
  · rw [hand_backupInit] at h
    exact h rfl
  · exact h.2 rfl

/-- **Once `backup_exit` has returned**, everything that entered the queue was submitted, and left
it to be submitted, exactly where in the run no page failed to be filled, the thread did not end
with a bio in the queue, and none entered after its end. -/
theorem backup_kept_iff (b : Boot ν) (acts : List (Act ι ν P))
    (hreturned : (runFrom b acts).exit = .returned) :
    (runFrom b acts).NoneLost ↔
      ∀ t ∈ trace step (backupInit b) acts, ¬ Loses t.before t.input := by
  have hinv : ∀ (s : State ι ν) (a : Act ι ν P), Kept b s → Kept b (step s a).1 :=
    fun s a h => step_kept h a
  have hstep : ∀ (s : State ι ν) (a : Act ι ν P), Kept b s →
      ((step s a).1.Lost ↔ s.Lost ∨ Loses s a) := fun s a h => step_lost h.2 h.1.inv a
  have hstart : Kept b (backupInit (ι := ι) b) := ⟨ordered_backupInit b _, accounts_backupInit b⟩
  have hlost := final_iff_exists hinv hstep acts _ hstart
  rw [or_iff_right (not_lost_backupInit b)] at hlost
  have hkept : Kept b (runFrom b acts) :=
    final_inv (C := fun _ _ => True) (fun s a h _ => hinv s a h) acts _ hstart fun _ _ => trivial
  have hended : (runFrom b acts).thread.ended = true := by
    by_contra hthread
    rcases hkept.2.alive (Bool.eq_false_iff.mpr hthread) with h | h <;>
      cases hreturned.symm.trans h
  rw [hkept.2.noneLost_iff hended, show (runFrom b acts).Lost ↔ _ from hlost]
  exact ⟨fun h t ht hl => h ⟨t, ht, hl⟩, fun h ⟨t, ht, hl⟩ => h t ht hl⟩

end Steps

/-! ## Three runs -/

/-- The hook is called with one write, the thread takes so many steps, and `backup_exit` is called
and returns. -/
def oneWrite (o : Outcome) (turns : Nat) : List (Act Bool Nat Unit) :=
  hookCall false 1 :: List.replicate 9 (.submitter false 1) ++
    List.replicate turns (.thread o) ++ [.exit, .thread o] ++ List.replicate 11 .exit

theorem backup_kept_oneWrite :
    (runFrom someBoot (oneWrite allGood 11)).submitted.length = 1 ∧
      (runFrom someBoot (oneWrite allGood 11)).NoneLost ∧
      ∀ t ∈ trace step (backupInit someBoot) (oneWrite allGood 11), ¬ Loses t.before t.input :=
  ⟨by decide +kernel, by decide +kernel,
    (backup_kept_iff someBoot (oneWrite allGood 11) (by decide +kernel)).mp (by decide +kernel)⟩

/-- **The write is lost** where `alloc_page` fails, and where `backup_exit` is called before the
thread has run. -/
theorem backup_lost :
    ((runFrom someBoot (oneWrite { allGood with page := false } 9)).exit = .returned ∧
      ¬ (runFrom someBoot (oneWrite { allGood with page := false } 9)).NoneLost) ∧
    (runFrom someBoot (oneWrite allGood 0)).exit = .returned ∧
      ¬ (runFrom someBoot (oneWrite allGood 0)).NoneLost := by
  refine ⟨⟨?_, ?_⟩, ?_, ?_⟩ <;> decide +kernel

end JcmController.Backup
