import JcmController.Backup.Model

/-!
# The order of the backup queue

The submitters and the thread are the parties of a `LockedQueue`: `view` is what they share as such
a queue, and until `backup_clear_queue` every step is one of its steps or leaves it as it is.

Results:
* `step_view`: the refinement.
* **`backup_order`**: until `backup_clear_queue`, the bios that entered the queue are those the
  thread has taken and then those in it, in their order, and all of them are clones of writes.
-/

namespace JcmController.Backup

open JcmController.Lib JcmController.Lib.ListHead JcmController.Lib.LockedQueue

variable {ι ν P : Type}

/-! ## The parties -/

/-- A submitter as a party: the lock, its node, its stores. -/
def SubmitterPc.party : SubmitterPc ν → Local ν
  | .rest | .cloned _ | .left | .oops => ⟨false, none, none⟩
  | .allocated q => ⟨false, some q, none⟩
  | .entered q => ⟨true, some q, none⟩
  | .adding q ss => ⟨true, some q, some (.link q ss)⟩
  | .added => ⟨true, none, none⟩

/-- The thread as a party. -/
def ThreadPc.party : ThreadPc ν → Local ν
  | .entered | .empty => ⟨true, none, none⟩
  | .picking => ⟨true, none, some .found⟩
  | .deleting q ss => ⟨true, none, some (.unlink q ss)⟩
  | .deleted q => ⟨true, some q, none⟩
  | .filling q _ _ _ | .waitingIo q | .freeing q => ⟨false, some q, none⟩
  | .err | .start | .loop | .waiting | .woken | .check | .exited => ⟨false, none, none⟩

/-- All of them; the thread is `none`. -/
def parties (submitter : ι → SubmitterPc ν) (thread : ThreadPc ν) : Option ι → Local ν
  | some k => (submitter k).party
  | none => thread.party

/-- The queue and its parties. -/
def State.view (s : State ι ν) : Shared (Option ι) ν Clone where
  count := s.qSemMutex
  links := s.mem
  head := s.queue
  used := s.used
  val := s.bio
  entered := s.enqueued
  left := s.taken
  loc := parties s.submitter s.thread

/-! ## A step of one party in the queue -/

section Steps

variable [DecidableEq ι]

theorem parties_submitter (submitter : ι → SubmitterPc ν) (thread : ThreadPc ν) (k : ι)
    (pc : SubmitterPc ν) :
    parties (Function.update submitter k pc) thread =
      Function.update (parties submitter thread) (some k) pc.party := by
  funext p
  cases p with
  | none => rfl
  | some k' =>
    by_cases hk : k' = k
    · subst hk
      rw [Function.update_self]
      exact congrArg SubmitterPc.party (Function.update_self k' pc submitter)
    · rw [Function.update_of_ne fun h => hk (Option.some.inj h)]
      exact congrArg SubmitterPc.party (Function.update_of_ne hk pc submitter)

theorem parties_thread (submitter : ι → SubmitterPc ν) (thread pc : ThreadPc ν) :
    parties submitter pc = Function.update (parties submitter thread) none pc.party := by
  funext p
  cases p <;> rfl

/-- A submitter goes on to `pc`. -/
theorem view_at (s : State ι ν) (k : ι) (pc : SubmitterPc ν) :
    (s.at k pc).view = s.view.at (some k) pc.party := by
  unfold State.view State.at Shared.at
  rw [parties_submitter]

/-- The thread goes on to `pc`. -/
theorem view_threadAt (s : State ι ν) (pc : ThreadPc ν) :
    (s.threadAt pc).view = s.view.at none pc.party := by
  unfold State.view State.threadAt Shared.at
  rw [parties_thread s.submitter s.thread pc]

theorem view_at_same {s : State ι ν} {k : ι} {pc : SubmitterPc ν}
    (h : pc.party = (s.submitter k).party) : (s.at k pc).view = s.view := by
  have hloc : Function.update s.view.loc (some k) pc.party = s.view.loc :=
    Function.update_eq_self_iff.mpr h
  rw [view_at, Shared.at, hloc]

theorem view_threadAt_same {s : State ι ν} {pc : ThreadPc ν} (h : pc.party = s.thread.party) :
    (s.threadAt pc).view = s.view := by
  have hloc : Function.update s.view.loc none pc.party = s.view.loc :=
    Function.update_eq_self_iff.mpr h
  rw [view_threadAt, Shared.at, hloc]

variable [DecidableEq ν]

/-! ## What each party leaves alone -/

/-- What a submitter does not touch. -/
structure SubmitterFrame (s s' : State ι ν) : Prop where
  data : s'.data = s.data
  queue : s'.queue = s.queue
  thread : s'.thread = s.thread
  exit : s'.exit = s.exit
  taken : s'.taken = s.taken
  submitted : s'.submitted = s.submitted
  cleared : s'.cleared = s.cleared

/-- What the thread does not touch. -/
structure ThreadFrame (s s' : State ι ν) : Prop where
  data : s'.data = s.data
  queue : s'.queue = s.queue
  bio : s'.bio = s.bio
  submitter : s'.submitter = s.submitter
  exit : s'.exit = s.exit
  enqueued : s'.enqueued = s.enqueued
  cleared : s'.cleared = s.cleared

/-- What the caller of `backup_exit` does not touch. -/
structure ExitFrame (s s' : State ι ν) : Prop where
  data : s'.data = s.data
  queue : s'.queue = s.queue
  bio : s'.bio = s.bio
  submitter : s'.submitter = s.submitter
  thread : s'.thread = s.thread
  enqueued : s'.enqueued = s.enqueued
  taken : s'.taken = s.taken
  submitted : s'.submitted = s.submitted

omit [DecidableEq ν] in
theorem bestioBackupBio_frame (s : State ι ν) (k : ι) (bio : Bio P)
    (junk : Nat → BioVec UInt64) : SubmitterFrame s (bestioBackupBio s k bio junk) := by
  unfold bestioBackupBio
  repeat' split
  all_goals exact ⟨rfl, rfl, rfl, rfl, rfl, rfl, rfl⟩

theorem submitterStep_frame (s : State ι ν) (k : ι) (node : ν) :
    SubmitterFrame s (submitterStep s k node) := by
  unfold submitterStep
  repeat' split
  all_goals exact ⟨rfl, rfl, rfl, rfl, rfl, rfl, rfl⟩

omit [DecidableEq ι] in
theorem threadStep_frame (s : State ι ν) (o : Outcome) : ThreadFrame s (threadStep s o).1 := by
  unfold threadStep
  repeat' split
  all_goals exact ⟨rfl, rfl, rfl, rfl, rfl, rfl, rfl⟩

omit [DecidableEq ι] in
theorem exitStep_frame (s : State ι ν) : ExitFrame s (exitStep s) := by
  unfold exitStep
  repeat' split
  all_goals exact ⟨rfl, rfl, rfl, rfl, rfl, rfl, rfl, rfl⟩

theorem step_queue (s : State ι ν) (a : Act ι ν P) :
    (step s a).1.data = s.data ∧ (step s a).1.queue = s.queue := by
  cases a with
  | call k bio junk =>
    exact ⟨(bestioBackupBio_frame s k bio junk).data, (bestioBackupBio_frame s k bio junk).queue⟩
  | submitter k node =>
    exact ⟨(submitterStep_frame s k node).data, (submitterStep_frame s k node).queue⟩
  | thread o => exact ⟨(threadStep_frame s o).data, (threadStep_frame s o).queue⟩
  | exit => exact ⟨(exitStep_frame s).data, (exitStep_frame s).queue⟩

omit [DecidableEq ι] in
theorem exitStep_clearing {s : State ι ν} (h : (exitStep s).exit.clearing = false) :
    s.exit.clearing = false := by
  cases hpc : s.exit with
  | notCalled | stopping | stopped => rfl
  | testing pos q =>
    simp only [exitStep, hpc] at h
    split at h <;> cases h
  | deleting pos q ss =>
    rcases ss with _ | ⟨x, _ | ⟨y, ss⟩⟩ <;> simp only [exitStep, hpc] at h <;> cases h
  | _ =>
    simp only [exitStep, hpc] at h
    cases h

/-- `backup_clear_queue` does not end. -/
theorem step_clearing {s : State ι ν} {a : Act ι ν P}
    (h : (step s a).1.exit.clearing = false) : s.exit.clearing = false := by
  cases a with
  | call k bio junk => exact (bestioBackupBio_frame s k bio junk).exit ▸ h
  | submitter k node => exact (submitterStep_frame s k node).exit ▸ h
  | thread o => exact (threadStep_frame s o).exit ▸ h
  | exit => exact exitStep_clearing h

/-! ## The refinement -/

omit [DecidableEq ν] in
theorem bestioBackupBio_view (s : State ι ν) (k : ι) (bio : Bio P) (junk : Nat → BioVec UInt64) :
    (bestioBackupBio s k bio junk).view = s.view := by
  unfold bestioBackupBio
  cases hpc : s.submitter k with
  | rest =>
    by_cases hw : s.hook ∧ bio.IsWrite
    · simp only [if_pos hw]
      cases cloneBio s.data junk bio with
      | some c => exact view_at_same (congrArg SubmitterPc.party hpc).symm
      | none => exact view_at_same (congrArg SubmitterPc.party hpc).symm
    · simp only [if_neg hw]
  | _ => rfl

theorem submitterStep_view {Good : Clone → Prop} (s : State ι ν) (k : ι) (node : ν)
    (hgood : ∀ c, s.submitter k = .cloned c → Good c) :
    (submitterStep s k node).view = s.view ∨ Step Good s.view (submitterStep s k node).view := by
  have hparty : ∀ {pc : SubmitterPc ν}, s.submitter k = pc → s.view.loc (some k) = pc.party :=
    fun h => congrArg SubmitterPc.party h
  cases hpc : s.submitter k with
  | rest | oops => exact Or.inl (by simp only [submitterStep, hpc])
  | cloned c =>
    by_cases hu : s.used node = true
    · exact Or.inl (by simp only [submitterStep, hpc, if_pos hu])
    · refine Or.inr ?_
      simp only [submitterStep, hpc, if_neg hu, view_at]
      exact Step.alloc (some k) node c (hparty hpc) (Bool.eq_false_iff.mpr hu) (hgood c hpc)
  | allocated q =>
    by_cases hsem : 0 < s.qSemMutex
    · refine Or.inr ?_
      simp only [submitterStep, hpc, if_pos hsem, view_at]
      exact Step.down (some k) (some q) (hparty hpc) hsem
    · exact Or.inl (by simp only [submitterStep, hpc, if_neg hsem])
  | entered q =>
    refine Or.inr ?_
    simp only [submitterStep, hpc, view_at]
    exact Step.link (some k) q (hparty hpc)
  | adding q ss =>
    match ss, hpc with
    | [], hpc => exact Or.inl (by simp only [submitterStep, hpc])
    | [x], hpc =>
      refine Or.inr ?_
      simp only [submitterStep, hpc, view_at]
      exact Step.linked (some k) q x (hparty hpc)
    | x :: y :: ss, hpc =>
      refine Or.inr ?_
      simp only [submitterStep, hpc, view_at]
      exact Step.linkStore (some k) q x (y :: ss) (hparty hpc) (List.cons_ne_nil y ss)
  | added =>
    refine Or.inr ?_
    simp only [submitterStep, hpc, view_at]
    exact Step.up (some k) none (hparty hpc)
  | left =>
    refine Or.inl ?_
    simp only [submitterStep, hpc]
    exact view_at_same (s := { s with bestioCondition := s.bestioCondition ||| 2 })
      (congrArg SubmitterPc.party hpc).symm

theorem threadStep_view {Good : Clone → Prop} (s : State ι ν) (o : Outcome) :
    (threadStep s o).1.view = s.view ∨ Step Good s.view (threadStep s o).1.view := by
  have hparty : ∀ {pc : ThreadPc ν}, s.thread = pc → s.view.loc none = pc.party :=
    fun h => congrArg ThreadPc.party h
  have hsame : ∀ {pc pc' : ThreadPc ν}, s.thread = pc → pc'.party = pc.party →
      (s.threadAt pc').view = s.view :=
    fun h hpc' => view_threadAt_same (hpc'.trans (congrArg ThreadPc.party h).symm)
  cases hpc : s.thread with
  | err | exited => exact Or.inl (by simp only [threadStep, hpc])
  | start =>
    rw [threadStep_edge (Or.inl hpc)]
    exact Or.inl (hsame hpc (by split <;> rfl))
  | check =>
    rw [threadStep_edge (Or.inr hpc)]
    exact Or.inl (hsame hpc (by split <;> rfl))
  | loop =>
    by_cases hsem : 0 < s.qSemMutex
    · rw [threadStep_enters hpc hsem, view_threadAt]
      exact Or.inr (Step.down none none (hparty hpc) hsem)
    · exact Or.inl (by simp only [threadStep, hpc, if_neg hsem])
  | entered =>
    by_cases hempty : s.mem.next s.queue = s.queue
    · refine Or.inl ?_
      simp only [threadStep, hpc, if_pos hempty]
      exact hsame hpc rfl
    · refine Or.inr ?_
      simp only [threadStep, hpc, if_neg hempty, view_threadAt]
      exact Step.found none (hparty hpc) hempty
  | empty =>
    have heq : (threadStep s o).1 =
        State.threadAt { s with qSemMutex := s.qSemMutex + 1 } .waiting := by
      simp only [threadStep, hpc]
    rw [heq, view_threadAt]
    exact Or.inr (Step.up none none (hparty hpc))
  | waiting =>
    refine Or.inl ?_
    simp only [threadStep, hpc]
    exact hsame hpc (by split <;> rfl)
  | woken =>
    refine Or.inl ?_
    simp only [threadStep, hpc]
    exact hsame hpc rfl
  | picking =>
    refine Or.inr ?_
    simp only [threadStep, hpc, view_threadAt]
    exact Step.unlink none (hparty hpc)
  | deleting q ss =>
    rcases ss with _ | ⟨x, _ | ⟨y, ss⟩⟩
    · exact Or.inl (by simp only [threadStep, hpc])
    · rw [threadStep_unlinked hpc, view_threadAt]
      exact Or.inr (Step.unlinked none q x (hparty hpc))
    · have heq : (threadStep s o).1 =
          State.threadAt { s with mem := s.mem.store x } (.deleting q (y :: ss)) := by
        simp only [threadStep, hpc]
      rw [heq, view_threadAt]
      exact Or.inr (Step.unlinkStore none q x (y :: ss) (hparty hpc) (List.cons_ne_nil y ss))
  | deleted q =>
    rw [threadStep_deleted hpc, view_threadAt]
    exact Or.inr (Step.up none (some q) (hparty hpc))
  | filling q bio done todo =>
    refine Or.inl ?_
    cases todo with
    | nil =>
      rw [threadStep_submits hpc]
      exact hsame hpc rfl
    | cons v todo =>
      simp only [threadStep, hpc]
      cases fillPage v o with
      | ok page => exact hsame hpc rfl
      | error msg => exact hsame hpc rfl
  | waitingIo q =>
    refine Or.inl ?_
    simp only [threadStep, hpc]
    exact hsame hpc (by split <;> rfl)
  | freeing q =>
    have heq : (threadStep s o).1 =
        State.threadAt { s with used := Function.update s.used q false } .check := by
      simp only [threadStep, hpc]
    rw [heq, view_threadAt]
    exact Or.inr (Step.free none q (hparty hpc))

omit [DecidableEq ι] in
theorem exitStep_view {s : State ι ν} (h : s.exit.clearing = false) :
    (exitStep s).view = s.view := by
  cases hpc : s.exit with
  | notCalled | stopping =>
    simp only [exitStep, hpc]
    split <;> rfl
  | stopped => simp only [exitStep, hpc]; rfl
  | _ =>
    rw [hpc] at h
    cases h

/-- **The refinement**: until `backup_clear_queue` every step is one of the queue's, or leaves it
as it is. -/
theorem step_view {Good : Clone → Prop} {s : State ι ν} (hclear : s.exit.clearing = false)
    (hcloned : ∀ k c, s.submitter k = .cloned c → Good c) (a : Act ι ν P) :
    (step s a).1.view = s.view ∨ Step Good s.view (step s a).1.view := by
  cases a with
  | call k bio junk => exact Or.inl (bestioBackupBio_view s k bio junk)
  | submitter k node => exact submitterStep_view s k node (hcloned k)
  | thread o => exact threadStep_view s o
  | exit => exact Or.inl (exitStep_view hclear)

/-! ## The clones on their way -/

omit [DecidableEq ν] in
theorem cloned_of_at {s : State ι ν} {k k' : ι} {pc : SubmitterPc ν} {c : Clone}
    (hpc : ∀ c, pc ≠ .cloned c) (h : (s.at k pc).submitter k' = .cloned c) :
    s.submitter k' = .cloned c := by
  by_cases hk : k' = k
  · rw [hk, at_submitter_self] at h
    exact absurd h (hpc c)
  · rwa [at_submitter_ne s hk] at h

theorem submitterStep_cloned {s : State ι ν} {k k' : ι} {node : ν} {c : Clone}
    (h : (submitterStep s k node).submitter k' = .cloned c) : s.submitter k' = .cloned c := by
  unfold submitterStep at h
  repeat' split at h
  all_goals first
    | exact h
    | exact cloned_of_at (fun _ hpc => by cases hpc) h

omit [DecidableEq ν] in
/-- The hook clones the writes it is called with. -/
theorem bestioBackupBio_cloned {s : State ι ν} {k k' : ι} {bio : Bio P}
    {junk : Nat → BioVec UInt64} {c : Clone}
    (h : (bestioBackupBio s k bio junk).submitter k' = .cloned c) :
    s.submitter k' = .cloned c ∨ bio.IsWrite ∧ cloneBio s.data junk bio = some c := by
  unfold bestioBackupBio at h
  cases hpc : s.submitter k with
  | rest =>
    simp only [hpc] at h
    by_cases hw : s.hook ∧ bio.IsWrite
    · rw [if_pos hw] at h
      cases hc : cloneBio s.data junk bio with
      | none =>
        rw [hc] at h
        exact Or.inl (cloned_of_at (fun _ hpc => by cases hpc) h)
      | some c' =>
        simp only [hc] at h
        by_cases hk : k' = k
        · rw [hk, at_submitter_self] at h
          cases h
          exact Or.inr ⟨hw.2, rfl⟩
        · rw [at_submitter_ne s hk] at h
          exact Or.inl h
    · rw [if_neg hw] at h
      exact Or.inl h
  | _ =>
    simp only [hpc] at h
    exact Or.inl h

/-! ## The invariant -/

/-- The queue and its parties until `backup_clear_queue`, and the clones on their way to it. -/
structure Ordered (b : Boot ν) (Good : Clone → Prop) (s : State ι ν) : Prop where
  data : s.data = b.data
  head : s.queue = b.queue
  cloned : ∀ k c, s.submitter k = .cloned c → Good c
  inv : s.exit.clearing = false → ∃ xs, Inv Good s.view xs

omit [DecidableEq ι] in
theorem ordered_backupInit (b : Boot ν) (Good : Clone → Prop) :
    Ordered b Good (backupInit (ι := ι) b) := by
  refine ⟨rfl, rfl, fun _ _ h => (by cases h), fun _ => ⟨[], Inv.start rfl ?_ ?_ ?_ rfl rfl⟩⟩
  · rintro (_ | k)
    · show ThreadPc.party (if b.running then .start else .err) = _
      split <;> rfl
    · rfl
  · exact ring_nil (Function.update_self _ _ _) (Function.update_self _ _ _)
  · exact Function.update_self _ _ _

theorem step_ordered {b : Boot ν} {Good : Clone → Prop} {s : State ι ν} (h : Ordered b Good s)
    {a : Act ι ν P} (ha : ∀ k bio junk c, a = .call k bio junk → bio.IsWrite →
      cloneBio b.data junk bio = some c → Good c) : Ordered b Good (step s a).1 := by
  refine ⟨(step_queue s a).1.trans h.data, (step_queue s a).2.trans h.head, fun k c hc => ?_,
    fun hclear => ?_⟩
  · cases a with
    | call k' bio junk =>
      rcases bestioBackupBio_cloned hc with hc | ⟨hw, hc⟩
      · exact h.cloned k c hc
      · rw [h.data] at hc
        exact ha k' bio junk c rfl hw hc
    | submitter k' node => exact h.cloned k c (submitterStep_cloned hc)
    | thread o =>
      have hsame : (step s (Act.thread o : Act ι ν P)).1.submitter = s.submitter :=
        (threadStep_frame s o).submitter
      exact h.cloned k c (hsame ▸ hc)
    | exit =>
      have hsame : (step s (Act.exit : Act ι ν P)).1.submitter = s.submitter :=
        (exitStep_frame s).submitter
      exact h.cloned k c (hsame ▸ hc)
  · have hbefore := step_clearing hclear
    obtain ⟨xs, hinv⟩ := h.inv hbefore
    rcases step_view hbefore h.cloned a with hview | hview
    · exact ⟨xs, hview ▸ hinv⟩
    · exact hview.inv hinv

/-- The clone of a write the hook was called with. -/
def CloneOf (b : Boot ν) (acts : List (Act ι ν P)) (c : Clone) : Prop :=
  ∃ k bio junk, .call k bio junk ∈ acts ∧ bio.IsWrite ∧ cloneBio b.data junk bio = some c

theorem ordered_runFrom (b : Boot ν) (acts : List (Act ι ν P)) :
    Ordered b (CloneOf b acts) (runFrom b acts) := by
  have hstep : ∀ (s : State ι ν) (a : Act ι ν P), Ordered b (CloneOf b acts) s → a ∈ acts →
      Ordered b (CloneOf b acts) (step s a).1 := fun s a hs ha =>
    step_ordered hs fun k bio junk c hcall hw hc => ⟨k, bio, junk, hcall ▸ ha, hw, hc⟩
  exact final_inv hstep acts _ (ordered_backupInit b _) fun t ht => input_mem_of_mem_trace ht

/-- **Until `backup_clear_queue`** the bios that entered the queue are those the thread has taken
out and then those in the queue, in their order. They are clones of the writes the hook was called
with. -/
theorem backup_order (b : Boot ν) (acts : List (Act ι ν P))
    (hclear : (runFrom b acts).exit.clearing = false) :
    ∃ xs, Walk (runFrom b acts).mem.next b.queue xs b.queue ∧ (b.queue :: xs).Nodup ∧
      (runFrom b acts).enqueued = (runFrom b acts).taken ++ xs.map (runFrom b acts).bio ∧
      ∀ c ∈ (runFrom b acts).enqueued, CloneOf b acts c := by
  have hordered := ordered_runFrom b acts
  obtain ⟨xs, hinv⟩ := hordered.inv hclear
  have hwalk := hinv.guarded.walk
  rw [show (runFrom b acts).view.head = b.queue from hordered.head] at hwalk
  exact ⟨xs, hwalk.1, hwalk.2, hinv.order, hinv.good⟩

end Steps

/-! ## A run -/

/-- The ramdisk at 4096, the queue at node 0. -/
def someBoot : Boot Nat where
  data := 4096
  queue := 0
  mem := ⟨id, id⟩
  bio := fun _ => ⟨0, 0, 0, 0, 0, 0, []⟩
  used := fun _ => false
  running := true

/-- A bio for the second page. -/
def onePage (opf : UInt32) : Bio Unit := ⟨8, opf, 1, 0, 4096, 0, [⟨(), 4096, 0⟩]⟩

/-- The hook is called with it. -/
def hookCall (k : Bool) (opf : UInt32) : Act Bool Nat Unit :=
  .call k (onePage opf) fun _ => ⟨0, 0, 0⟩

/-- Nothing fails. -/
def allGood : Outcome := ⟨false, true, 1, fun _ => 0, true⟩

/-- Two submitters, one of which first hands over a read, and the thread take turns. -/
def inTurns : List (Act Bool Nat Unit) :=
  [hookCall true 0, hookCall true 1, hookCall false 1] ++
    (List.replicate 18 [.submitter false 1, .submitter true 2, .thread allGood]).flatten

theorem backup_order_inTurns :
    (runFrom someBoot inTurns).enqueued.length = 2 ∧ (runFrom someBoot inTurns).taken.length = 1 ∧
      ∃ xs, Walk (runFrom someBoot inTurns).mem.next someBoot.queue xs someBoot.queue ∧
        (someBoot.queue :: xs).Nodup ∧
        (runFrom someBoot inTurns).enqueued =
          (runFrom someBoot inTurns).taken ++ xs.map (runFrom someBoot inTurns).bio ∧
        ∀ c ∈ (runFrom someBoot inTurns).enqueued, CloneOf someBoot inTurns c :=
  ⟨by decide +kernel, by decide +kernel, backup_order someBoot inTurns (by decide +kernel)⟩

end JcmController.Backup
