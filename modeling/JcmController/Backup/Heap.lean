import Mathlib.Algebra.BigOperators.Group.Finset.Basic
import Mathlib.Data.Fintype.Basic
import JcmController.Backup.System
import JcmController.Lib.Balance

/-!
# What the backup allocates

A clone comes from `bio_alloc`, a page from `alloc_page`, a completion and an entry of the queue
from `kmalloc`. `bestio_backup_end_request` wakes the thread first and frees the pages and the clone
then, while the thread frees the completion and the entry and goes on: several calls of it may be
under way.

* `Heaped` is the state of the model with the calls of `bestio_backup_end_request` that are under
  way; `heapStep` is a step of it, with what the step allocates and frees. `endRequest` is its first
  line, `freeNext` one `__free_page` of it, or its `bio_put`.
* The pages of a submitted bio are those that `alloc_page` returned, so none of them is `NULL`.
* `held` is how much each party and the queue have in their hands.

Results:
* `heapStep_base`: the steps are those of the model.
* `heapStep_accounts`: what a step allocates and does not free is held after it, or was `leaked`.
* **`heap_at_rest`**: in every run, what is not freed when nobody has anything in its hands is what
  is in the queue, and for each page that could not be filled the clone, the completion and the
  pages that its bio had by then.
-/

namespace JcmController.Backup

open JcmController.Lib JcmController.Lib.ListHead JcmController.Lib.LockedQueue

variable {ι ν P : Type}

/-! ## The heap -/

/-- What is allocated. -/
inductive Piece where
  | bio
  | page
  | completion
  | entry
  deriving DecidableEq, Repr

inductive HeapEvent where
  | alloc (p : Piece)
  | free (p : Piece)
  deriving DecidableEq, Repr

/-- What an event does to the number of these pieces. -/
def HeapEvent.effect : HeapEvent → Piece → Int
  | .alloc p, p' => if p = p' then 1 else 0
  | .free p, p' => if p = p' then -1 else 0

/-- The state of the model, whether `complete` was called for the bio that the thread waits for, and
how many pages each call of `bestio_backup_end_request` has left to free. -/
structure Heaped (ι ν : Type) where
  base : State ι ν
  completed : Bool
  ending : List Nat

/-- What happens next: a step of the model, a call of `bestio_backup_end_request`, or one of these
calls goes on. -/
inductive HeapAct (ι ν P : Type) where
  | step (a : Act ι ν P)
  | endRequest
  | freeNext (n : Nat)

section Steps

variable [DecidableEq ι] [DecidableEq ν]

/-- `bio_alloc` and `kmalloc` in `bestio_backup_bio`. -/
def submitterHeap (s : State ι ν) : Act ι ν P → List HeapEvent
  | .call k bio _ =>
    match s.submitter k with
    | .rest => if s.hook ∧ bio.IsWrite then [.alloc .bio] else []
    | _ => []
  | .submitter k node =>
    match s.submitter k with
    | .cloned _ => if s.used node then [] else [.alloc .entry]
    | _ => []
  | _ => []

/-- `kmalloc`, `alloc_page` and `kfree` in `bestio_q_bio`, and `kfree` behind it. -/
def threadHeap (s : State ι ν) (o : Outcome) : List HeapEvent :=
  match s.thread with
  | .deleted _ => [.alloc .completion]
  | .filling _ _ _ (v :: _) => if v.bvPage = 0 ∨ o.page = false then [] else [.alloc .page]
  | .waitingIo _ => if o.complete then [.free .completion] else []
  | .freeing _ => [.free .entry]
  | _ => []

/-- `kfree` in `backup_clear_queue`. -/
def exitHeap (s : State ι ν) : List HeapEvent :=
  match s.exit with
  | .freeing _ _ | .freeingQueue => [.free .entry]
  | _ => []

/-- `bestio_backup_end_request`, up to `complete`. -/
def endRequest (s : Heaped ι ν) : Heaped ι ν :=
  match s.base.thread, s.base.submitted.getLast?, s.completed with
  | .waitingIo _, some (_, bio), false =>
    { s with completed := true, ending := s.ending ++ [bio.biVcnt.toNat] }
  | _, _, _ => s

/-- The loop of `bestio_backup_end_request`, and `bio_put`. -/
def freeNext (s : Heaped ι ν) (n : Nat) : Heaped ι ν × List HeapEvent :=
  match s.ending[n]? with
  | some 0 => ({ s with ending := s.ending.eraseIdx n }, [.free .bio])
  | some (m + 1) => ({ s with ending := s.ending.set n m }, [.free .page])
  | none => (s, [])

/-- One step. The I/O that the thread waits for is complete when `complete` was called. -/
def heapStep (s : Heaped ι ν) : HeapAct ι ν P → Heaped ι ν × List HeapEvent
  | .step (.thread o) =>
    ({ s with
      base := (threadStep s.base { o with complete := s.completed }).1
      completed := match s.base.thread with
        | .waitingIo _ => false
        | _ => s.completed }, threadHeap s.base { o with complete := s.completed })
  | .step .exit => ({ s with base := exitStep s.base }, exitHeap s.base)
  | .step a => ({ s with base := (step s.base a).1 }, submitterHeap s.base a)
  | .endRequest => (endRequest s, [])
  | .freeNext n => freeNext s n

/-- After `backup_init`. -/
def heapStart (b : Boot ν) : Heaped ι ν := ⟨backupInit b, false, []⟩

def heapRun (b : Boot ν) (acts : List (HeapAct ι ν P)) : Heaped ι ν :=
  final heapStep (heapStart b) acts

/-- What these steps have allocated and not freed, with the queue itself, which `backup_init` has
allocated. -/
def live (b : Boot ν) (acts : List (HeapAct ι ν P)) (p : Piece) : Int :=
  (if p = .entry then 1 else 0) +
    ((trace heapStep (heapStart b) acts).map fun t => balance HeapEvent.effect t.events p).sum

end Steps

/-! ## Who holds what -/

/-- A submitter: its clone and, once it has one, its entry. -/
def SubmitterPc.held : SubmitterPc ν → Piece → Int
  | .cloned _, .bio | .oops, .bio => 1
  | .allocated _, .bio | .entered _, .bio | .adding _ _, .bio => 1
  | .allocated _, .entry | .entered _, .entry | .adding _ _, .entry => 1
  | _, _ => 0

/-- The thread: what `bestio_q_bio` works on, until `complete` is called for it. -/
def ThreadPc.held (completed : Bool) (pages : Nat) : ThreadPc ν → Piece → Int
  | .deleted _, .bio | .deleted _, .entry => 1
  | .filling _ _ _ _, .bio | .filling _ _ _ _, .completion | .filling _ _ _ _, .entry => 1
  | .filling _ _ done _, .page => done.length
  | .waitingIo _, .bio => if completed then 0 else 1
  | .waitingIo _, .page => if completed then 0 else pages
  | .waitingIo _, .completion | .waitingIo _, .entry => 1
  | .freeing _, .entry => 1
  | _, _ => 0

/-- The queue itself, and the entry that `backup_clear_queue` has taken out. -/
def ExitPc.held : ExitPc ν → Piece → Int
  | .freeing _ _, .entry => 2
  | .putting, .entry | .returned, .entry => 0
  | _, .entry => 1
  | _, _ => 0

/-- What is in the queue. -/
def State.queued (s : State ι ν) : Piece → Int
  | .bio => s.enqueued.length - s.taken.length
  | .entry => s.enqueued.length - s.taken.length - s.cleared.length
  | _ => 0

/-- The calls of `bestio_backup_end_request`. -/
def Heaped.inEnding (s : Heaped ι ν) : Piece → Int
  | .bio => s.ending.length
  | .page => s.ending.sum
  | _ => 0

/-- The pages of the bio that was submitted last. -/
def State.pages (s : State ι ν) : Nat := (s.submitted.getLast?.map fun e => e.2.biVcnt.toNat).getD 0

theorem pages_of_submitted {s : State ι ν} {es : List (Clone × Bio (List UInt8))}
    {e : Clone × Bio (List UInt8)} (h : s.submitted = es ++ [e]) :
    s.pages = e.2.biVcnt.toNat := by
  rw [State.pages, h, List.getLast?_concat]
  rfl

def Heaped.held [Fintype ι] (s : Heaped ι ν) (p : Piece) : Int :=
  ∑ k, (s.base.submitter k).held p + s.base.queued p + s.base.exit.held p + s.inEnding p +
    s.base.thread.held s.completed s.base.pages p

/-- The pages of a bio when one of them cannot be filled. -/
def lostPages (s : Heaped ι ν) : HeapAct ι ν P → Option Nat
  | .step (.thread o) =>
    match s.base.thread with
    | .filling _ _ done (v :: _) =>
      match fillPage v o with
      | .ok _ => none
      | .error _ => some (done.length + if v.bvPage = 0 ∨ o.page = false then 0 else 1)
    | _ => none
  | _ => none

/-- `bestio_q_bio` returns and leaves them, the clone and the completion where they are. -/
def leaked (s : Heaped ι ν) (a : HeapAct ι ν P) (p : Piece) : Int :=
  match lostPages s a, p with
  | some _, .bio | some _, .completion => 1
  | some n, .page => n
  | _, _ => 0

/-! ## What holds of every state -/

section Steps

variable [DecidableEq ι] [DecidableEq ν]

/-- The runs are those of the model. -/
theorem heapStep_base (s : Heaped ι ν) (a : HeapAct ι ν P) : (heapStep s a).1.base = s.base ∨
    ∃ a' : Act ι ν P, (heapStep s a).1.base = (step s.base a').1 := by
  cases a with
  | step a =>
    cases a with
    | thread o => exact Or.inr ⟨.thread { o with complete := s.completed }, rfl⟩
    | exit => exact Or.inr ⟨.exit, rfl⟩
    | call k bio junk => exact Or.inr ⟨.call k bio junk, rfl⟩
    | submitter k node => exact Or.inr ⟨.submitter k node, rfl⟩
  | endRequest =>
    refine Or.inl ?_
    show (endRequest s).base = s.base
    unfold endRequest
    split <;> rfl
  | freeNext n =>
    refine Or.inl ?_
    show (freeNext s n).1.base = s.base
    unfold freeNext
    split <;> rfl

/-- A clone has as many vectors as it says, and those that are filled are the first of them. The
completion of a bio is the one that the thread waits for. -/
structure Sound (b : Boot ν) (s : Heaped ι ν) : Prop where
  ordered : Ordered b (fun c => c.biIoVec.length = c.biVcnt.toNat) s.base
  accounts : Accounts s.base
  filling : ∀ q c done todo, s.base.thread = .filling q c done todo →
    done.length + todo.length = c.biVcnt.toNat
  waiting : s.completed = true → ∃ q, s.base.thread = .waitingIo q

variable {b : Boot ν} {s : Heaped ι ν}

omit [DecidableEq ι] in
/-- The thread fills the vectors one by one, and first of a clone that it has taken out. -/
theorem Sound.thread_filling (h : Sound b s) (o : Outcome) {q : ν} {c : Clone}
    {done : List (BioVec (List UInt8))} {todo : List (BioVec UInt64)}
    (hpc : (threadStep s.base o).1.thread = .filling q c done todo) :
    done.length + todo.length = c.biVcnt.toNat := by
  cases hpc₀ : s.base.thread with
  | deleted q' =>
    rw [threadStep_deleted hpc₀] at hpc
    cases hpc
    obtain ⟨xs, hi⟩ := h.ordered.inv (h.accounts.not_clearing (by rw [hpc₀]; rfl))
    have hown : (parties s.base.submitter s.base.thread none).own = some q := by
      rw [hpc₀]
      rfl
    rw [List.length_nil, Nat.zero_add]
    exact hi.owns.own_ok none q hown
  | filling q' c' done' todo' =>
    have hlen := h.filling q' c' done' todo' hpc₀
    cases todo' with
    | nil =>
      rw [threadStep_submits hpc₀] at hpc
      cases hpc
    | cons v todo' =>
      cases hv : fillPage v o with
      | ok page =>
        rw [threadStep_fills hpc₀ hv] at hpc
        cases hpc
        rw [List.length_append]
        rw [List.length_cons] at hlen
        show done'.length + 1 + _ = _
        omega
      | error msg =>
        simp only [threadStep, hpc₀, hv] at hpc
        cases hpc
  | deleting q' ss =>
    rcases ss with _ | ⟨x, _ | ⟨y, ss⟩⟩
    · simp only [threadStep, hpc₀] at hpc
      cases hpc
    · rw [threadStep_unlinked hpc₀] at hpc
      cases hpc
    · simp only [threadStep, hpc₀] at hpc
      cases hpc
  | start =>
    rw [threadStep_edge (Or.inl hpc₀)] at hpc
    cases hstop : s.base.shouldStop <;> rw [hstop] at hpc <;> cases hpc
  | check =>
    rw [threadStep_edge (Or.inr hpc₀)] at hpc
    cases hstop : s.base.shouldStop <;> rw [hstop] at hpc <;> cases hpc
  | loop =>
    simp only [threadStep, hpc₀] at hpc
    split at hpc
    · cases hpc
    · cases hpc₀.symm.trans hpc
  | entered | waiting | waitingIo =>
    simp only [threadStep, hpc₀] at hpc
    split at hpc <;> cases hpc
  | _ =>
    simp only [threadStep, hpc₀] at hpc
    cases hpc

omit [DecidableEq ι] in
/-- A step of another party, to this state. -/
theorem Sound.congr {s' : Heaped ι ν} (h : Sound b s)
    (hordered : Ordered b (fun c => c.biIoVec.length = c.biVcnt.toNat) s'.base)
    (haccounts : Accounts s'.base) (hthread : s'.base.thread = s.base.thread)
    (hcompleted : s'.completed = s.completed) : Sound b s' := by
  refine ⟨hordered, haccounts, fun q c done todo hpc => ?_, fun hc => ?_⟩
  · rw [hthread] at hpc
    exact h.filling q c done todo hpc
  · rw [hcompleted] at hc
    rw [hthread]
    exact h.waiting hc

theorem heapStep_sound (h : Sound b s) (a : HeapAct ι ν P) : Sound b (heapStep s a).1 := by
  obtain ⟨hordered, haccounts⟩ : Ordered b (fun c => c.biIoVec.length = c.biVcnt.toNat)
      (heapStep s a).1.base ∧ Accounts (heapStep s a).1.base := by
    rcases heapStep_base s a with heq | ⟨a', heq⟩ <;> rw [heq]
    · exact ⟨h.ordered, h.accounts⟩
    · exact ⟨step_ordered h.ordered fun _ _ _ _ _ _ hc => cloneBio_length hc,
        step_accounts h.accounts h.ordered.inv a'⟩
  cases a with
  | step a =>
    cases a with
    | call k bio junk =>
      exact h.congr hordered haccounts (bestioBackupBio_frame s.base k bio junk).thread rfl
    | submitter k node =>
      exact h.congr hordered haccounts (submitterStep_frame s.base k node).thread rfl
    | exit => exact h.congr hordered haccounts (exitStep_frame s.base).thread rfl
    | thread o =>
      refine ⟨hordered, haccounts, fun q c done todo hpc => h.thread_filling _ hpc, fun hc => ?_⟩
      -- `wait_for_completion` has taken the completion, or there was none
      have hnone : (match s.base.thread with
        | .waitingIo _ => false
        | _ => s.completed) = true := hc
      split at hnone
      · cases hnone
      · rename_i hpc
        obtain ⟨q, hq⟩ := h.waiting hnone
        exact absurd hq (hpc q)
  | endRequest =>
    show Sound b (endRequest s)
    unfold endRequest
    split
    · rename_i q c bio hpc _ _
      exact ⟨h.ordered, h.accounts, h.filling, fun _ => ⟨q, hpc⟩⟩
    · exact h
  | freeNext n =>
    show Sound b (freeNext s n).1
    unfold freeNext
    split
    · exact h.congr h.ordered h.accounts rfl rfl
    · exact h.congr h.ordered h.accounts rfl rfl
    · exact h

theorem heapRun_sound (b : Boot ν) (acts : List (HeapAct ι ν P)) : Sound b (heapRun b acts) := by
  have hstep : ∀ (s : Heaped ι ν) (a : HeapAct ι ν P), Sound b s → True →
      Sound b (heapStep s a).1 := fun _ a h _ => heapStep_sound h a
  have hthread : ∀ q c done todo, (backupInit (ι := ι) b).thread ≠ .filling q c done todo := by
    intro q c done todo hpc
    have hstart : (backupInit (ι := ι) b).thread = if b.running then .start else .err := rfl
    rw [hstart] at hpc
    split at hpc <;> cases hpc
  exact final_inv hstep acts _ ⟨ordered_backupInit b _, accounts_backupInit b,
    fun q c done todo hpc => absurd hpc (hthread q c done todo), fun hc => by cases hc⟩
    fun _ _ => trivial

end Steps

/-! ## A step -/

section Accounts

variable [DecidableEq ι] [DecidableEq ν] [Fintype ι]

omit [DecidableEq ν] in
/-- One submitter goes on. -/
theorem sum_held_update (f : ι → SubmitterPc ν) (k : ι) (pc : SubmitterPc ν) (p : Piece) :
    ∑ i, (Function.update f k pc i).held p = ∑ i, (f i).held p - (f k).held p + pc.held p := by
  have hbefore := Finset.add_sum_erase Finset.univ (fun i => (f i).held p) (Finset.mem_univ k)
  have hafter := Finset.add_sum_erase Finset.univ (fun i => (Function.update f k pc i).held p)
    (Finset.mem_univ k)
  have hothers : ∑ i ∈ Finset.univ.erase k, (Function.update f k pc i).held p =
      ∑ i ∈ Finset.univ.erase k, (f i).held p := by
    refine Finset.sum_congr rfl fun i hi => ?_
    rw [Function.update_of_ne (Finset.ne_of_mem_erase hi)]
  rw [← hafter, ← hbefore, hothers, Function.update_self]
  omega

omit [DecidableEq ν] in
/-- It has put so many entries into the queue: what it holds then, and they, are what it held and
what it allocated. -/
theorem held_at {s : Heaped ι ν} {t : State ι ν} {k : ι} {pc pc' : SubmitterPc ν} {n : Nat}
    {p : Piece} {es : List HeapEvent} (hframe : SubmitterFrame s.base (t.at k pc'))
    (hpc : s.base.submitter k = pc) (hsub : t.submitter = s.base.submitter)
    (henq : t.enqueued.length = s.base.enqueued.length + n)
    (hbalance : pc'.held p + (if p = .bio ∨ p = .entry then n else 0) =
      pc.held p + balance HeapEvent.effect es p) :
    Heaped.held { s with base := t.at k pc' } p = s.held p + balance HeapEvent.effect es p := by
  have hsum := sum_held_update s.base.submitter k pc' p
  have hqueued : (t.at k pc').queued p = s.base.queued p +
      (if p = .bio ∨ p = .entry then n else 0) := by
    have htaken : t.taken = s.base.taken := hframe.taken
    have hcleared : t.cleared = s.base.cleared := hframe.cleared
    cases p <;> simp only [State.queued, State.at, htaken, hcleared, henq] <;> simp <;> omega
  have hpages : (t.at k pc').pages = s.base.pages := by
    unfold State.pages
    rw [hframe.submitted]
  have hheld : Heaped.held { s with base := t.at k pc' } p =
      ∑ i, (Function.update s.base.submitter k pc' i).held p + (t.at k pc').queued p +
        s.base.exit.held p + s.inEnding p + s.base.thread.held s.completed s.base.pages p := by
    rw [← hsub, ← hframe.exit, ← hframe.thread, ← hpages]
    rfl
  rw [hheld, hsum, hqueued, hpc, Heaped.held]
  omega

omit [DecidableEq ν] in
/-- A call of the hook. -/
theorem call_accounts (s : Heaped ι ν) (k : ι) (bio : Bio P) (junk : Nat → BioVec UInt64)
    (p : Piece) : Heaped.held { s with base := bestioBackupBio s.base k bio junk } p =
      s.held p + balance HeapEvent.effect (submitterHeap s.base (.call k bio junk)) p := by
  have hframe := bestioBackupBio_frame s.base k bio junk
  cases hpc : s.base.submitter k with
  | rest =>
    by_cases hw : s.base.hook ∧ bio.IsWrite
    · cases hc : cloneBio s.base.data junk bio with
      | some c =>
        simp only [bestioBackupBio, hpc, if_pos hw, hc] at hframe
        simp only [submitterHeap, bestioBackupBio, hpc, if_pos hw, hc]
        exact held_at (n := 0) hframe hpc rfl rfl (by cases p <;> rfl)
      | none =>
        simp only [bestioBackupBio, hpc, if_pos hw, hc] at hframe
        simp only [submitterHeap, bestioBackupBio, hpc, if_pos hw, hc]
        exact held_at (n := 0) hframe hpc rfl rfl (by cases p <;> rfl)
    · simp only [submitterHeap, bestioBackupBio, hpc, if_neg hw]
      exact (Int.add_zero _).symm
  | _ =>
    simp only [submitterHeap, bestioBackupBio, hpc]
    exact (Int.add_zero _).symm

/-- A step of a submitter. -/
theorem submitter_accounts (s : Heaped ι ν) (k : ι) (node : ν) (p : Piece) :
    Heaped.held { s with base := submitterStep s.base k node } p =
      s.held p + balance HeapEvent.effect
        (submitterHeap s.base (.submitter k node : Act ι ν P)) p := by
  have hframe := submitterStep_frame s.base k node
  cases hpc : s.base.submitter k with
  | rest | oops =>
    simp only [submitterHeap, submitterStep, hpc]
    exact (Int.add_zero _).symm
  | cloned c =>
    by_cases hu : s.base.used node = true
    · simp only [submitterHeap, submitterStep, hpc, if_pos hu]
      exact (Int.add_zero _).symm
    · simp only [submitterStep, hpc, if_neg hu] at hframe
      simp only [submitterHeap, submitterStep, hpc, if_neg hu]
      exact held_at (n := 0) hframe hpc rfl rfl (by cases p <;> rfl)
  | allocated q =>
    by_cases hsem : 0 < s.base.qSemMutex
    · simp only [submitterStep, hpc, if_pos hsem] at hframe
      simp only [submitterHeap, submitterStep, hpc, if_pos hsem]
      exact held_at (n := 0) hframe hpc rfl rfl (by cases p <;> rfl)
    · simp only [submitterHeap, submitterStep, hpc, if_neg hsem]
      exact (Int.add_zero _).symm
  | entered q =>
    simp only [submitterStep, hpc] at hframe
    simp only [submitterHeap, submitterStep, hpc]
    exact held_at (n := 0) hframe hpc rfl rfl (by cases p <;> rfl)
  | adding q ss =>
    rcases ss with _ | ⟨x, _ | ⟨y, ss⟩⟩
    · simp only [submitterHeap, submitterStep, hpc]
      exact (Int.add_zero _).symm
    · simp only [submitterStep, hpc] at hframe
      simp only [submitterHeap, submitterStep, hpc]
      exact held_at (n := 1) hframe hpc rfl List.length_append (by cases p <;> rfl)
    · simp only [submitterStep, hpc] at hframe
      simp only [submitterHeap, submitterStep, hpc]
      exact held_at (n := 0) hframe hpc rfl rfl (by cases p <;> rfl)
  | added =>
    simp only [submitterStep, hpc] at hframe
    simp only [submitterHeap, submitterStep, hpc]
    exact held_at (n := 0) hframe hpc rfl rfl (by cases p <;> rfl)
  | left =>
    simp only [submitterStep, hpc] at hframe
    simp only [submitterHeap, submitterStep, hpc]
    exact held_at (n := 0) hframe hpc rfl rfl (by cases p <;> rfl)

omit [DecidableEq ι] [DecidableEq ν] in
/-- The thread has taken so many entries out. What it holds then, and what was leaked, are what it
held, those entries, and what it allocated. -/
theorem held_threadAt {s : Heaped ι ν} {t : State ι ν} {pc pc' : ThreadPc ν} {completed : Bool}
    {n : Nat} {p : Piece} {l : Int} {es : List HeapEvent}
    (hframe : ThreadFrame s.base (t.threadAt pc')) (hpc : s.base.thread = pc)
    (htaken : t.taken.length = s.base.taken.length + n)
    (hbalance : pc'.held completed t.pages p + l = pc.held s.completed s.base.pages p +
      (if p = .bio ∨ p = .entry then n else 0) + balance HeapEvent.effect es p) :
    Heaped.held ⟨t.threadAt pc', completed, s.ending⟩ p + l =
      s.held p + balance HeapEvent.effect es p := by
  have hqueued : (t.threadAt pc').queued p = s.base.queued p -
      (if p = .bio ∨ p = .entry then n else 0) := by
    have henq : t.enqueued = s.base.enqueued := hframe.enqueued
    have hcleared : t.cleared = s.base.cleared := hframe.cleared
    cases p <;> simp only [State.queued, State.threadAt, henq, hcleared, htaken] <;> simp <;> omega
  have hheld : Heaped.held ⟨t.threadAt pc', completed, s.ending⟩ p =
      ∑ i, (s.base.submitter i).held p + (t.threadAt pc').queued p + s.base.exit.held p +
        s.inEnding p + pc'.held completed t.pages p := by
    rw [← hframe.submitter, ← hframe.exit]
    rfl
  rw [hheld, hqueued, Heaped.held, hpc]
  omega

/-- A step of the thread. -/
theorem thread_accounts {b : Boot ν} {s : Heaped ι ν} (h : Sound b s) (o : Outcome) (p : Piece) :
    (heapStep s (.step (.thread o) : HeapAct ι ν P)).1.held p +
        leaked s (.step (.thread o) : HeapAct ι ν P) p =
      s.held p + balance HeapEvent.effect
        (threadHeap s.base { o with complete := s.completed }) p := by
  have hframe := threadStep_frame s.base { o with complete := s.completed }
  cases hpc : s.base.thread with
  | err | exited =>
    simp only [heapStep, leaked, lostPages, threadHeap, threadStep, hpc]
    rfl
  | start =>
    rw [threadStep_edge (Or.inl hpc)] at hframe
    simp only [heapStep, leaked, lostPages, threadHeap, threadStep_edge (Or.inl hpc), hpc]
    refine held_threadAt (n := 0) hframe hpc rfl ?_
    cases s.base.shouldStop <;> cases p <;> rfl
  | check =>
    rw [threadStep_edge (Or.inr hpc)] at hframe
    simp only [heapStep, leaked, lostPages, threadHeap, threadStep_edge (Or.inr hpc), hpc]
    refine held_threadAt (n := 0) hframe hpc rfl ?_
    cases s.base.shouldStop <;> cases p <;> rfl
  | loop =>
    by_cases hsem : 0 < s.base.qSemMutex
    · simp only [threadStep, hpc, if_pos hsem] at hframe
      simp only [heapStep, leaked, lostPages, threadHeap, threadStep, hpc, if_pos hsem]
      exact held_threadAt (n := 0) hframe hpc rfl (by cases p <;> rfl)
    · simp only [heapStep, leaked, lostPages, threadHeap, threadStep, hpc, if_neg hsem]
      rfl
  | entered =>
    simp only [threadStep, hpc] at hframe
    simp only [heapStep, leaked, lostPages, threadHeap, threadStep, hpc]
    refine held_threadAt (n := 0) hframe hpc rfl ?_
    split_ifs <;> cases p <;> rfl
  | waiting =>
    simp only [threadStep, hpc] at hframe
    simp only [heapStep, leaked, lostPages, threadHeap, threadStep, hpc]
    refine held_threadAt (n := 0) hframe hpc rfl ?_
    split_ifs <;> cases p <;> rfl
  | deleting q ss =>
    rcases ss with _ | ⟨x, _ | ⟨y, ss⟩⟩
    · simp only [heapStep, leaked, lostPages, threadHeap, threadStep, hpc]
      rfl
    · simp only [threadStep, hpc] at hframe
      simp only [heapStep, leaked, lostPages, threadHeap, threadStep, hpc]
      exact held_threadAt (n := 1) hframe hpc List.length_append (by cases p <;> rfl)
    · simp only [threadStep, hpc] at hframe
      simp only [heapStep, leaked, lostPages, threadHeap, threadStep, hpc]
      exact held_threadAt (n := 0) hframe hpc rfl (by cases p <;> rfl)
  | empty | woken | picking | deleted q | freeing q =>
    simp only [threadStep, hpc] at hframe
    simp only [heapStep, leaked, lostPages, threadHeap, threadStep, hpc]
    exact held_threadAt (n := 0) hframe hpc rfl (by cases p <;> rfl)
  | filling q c done todo =>
    have hcompleted : s.completed = false := by
      by_contra hc
      obtain ⟨q', hq'⟩ := h.waiting (Bool.eq_true_of_not_eq_false hc)
      cases hpc.symm.trans hq'
    cases todo with
    | nil =>
      have hlen := h.filling q c done [] hpc
      rw [List.length_nil, Nat.add_zero] at hlen
      simp only [threadStep, hpc] at hframe
      simp only [heapStep, leaked, lostPages, threadHeap, threadStep, hpc, hcompleted]
      refine held_threadAt (n := 0) hframe hpc rfl ?_
      rw [pages_of_submitted rfl]
      show ThreadPc.held false c.biVcnt.toNat (.waitingIo q) p + 0 = _
      rw [← hlen]
      cases p <;> rfl
    | cons v todo =>
      cases hv : fillPage v o with
      | ok page =>
        obtain ⟨⟨haddress, hpage, _⟩, _⟩ := fillPage_eq_ok.mp hv
        have hgets : ¬ (v.bvPage = 0 ∨ o.page = false) :=
          not_or.mpr ⟨haddress, by rw [hpage]; exact Bool.noConfusion⟩
        have hv' : fillPage v { o with complete := s.completed } = .ok page := hv
        rw [threadStep_fills hpc hv'] at hframe
        simp only [heapStep, leaked, lostPages, threadHeap, threadStep_fills hpc hv', hpc, hv,
          if_neg hgets]
        refine held_threadAt (n := 0) hframe hpc rfl ?_
        cases p <;> simp [ThreadPc.held, balance, HeapEvent.effect]
      | error msg =>
        have hv' : fillPage v { o with complete := s.completed } = .error msg := hv
        simp only [threadStep, hpc, hv'] at hframe
        simp only [heapStep, leaked, lostPages, threadHeap, threadStep, hpc, hv, hv']
        refine held_threadAt (n := 0) hframe hpc rfl ?_
        split_ifs <;> cases p <;> simp [ThreadPc.held, balance, HeapEvent.effect]
  | waitingIo q =>
    simp only [threadStep, hpc] at hframe
    simp only [heapStep, leaked, lostPages, threadHeap, threadStep, hpc]
    refine held_threadAt (n := 0) hframe hpc rfl ?_
    cases s.completed <;> cases p <;> simp [ThreadPc.held, balance, HeapEvent.effect]

omit [DecidableEq ι] [DecidableEq ν] in
/-- `backup_clear_queue` has taken so many entries out. -/
theorem held_exit {s : Heaped ι ν} {t : State ι ν} {n : Nat} {p : Piece} {es : List HeapEvent}
    (hframe : ExitFrame s.base t) (hcleared : t.cleared.length = s.base.cleared.length + n)
    (hbalance : t.exit.held p = s.base.exit.held p + (if p = .entry then n else 0) +
      balance HeapEvent.effect es p) :
    Heaped.held { s with base := t } p = s.held p + balance HeapEvent.effect es p := by
  have hqueued : t.queued p = s.base.queued p - (if p = .entry then n else 0) := by
    cases p <;> simp only [State.queued, hframe.enqueued, hframe.taken, hcleared] <;> simp
    omega
  have hpages : t.pages = s.base.pages := by
    unfold State.pages
    rw [hframe.submitted]
  have hheld : Heaped.held { s with base := t } p =
      ∑ i, (s.base.submitter i).held p + t.queued p + t.exit.held p + s.inEnding p +
        s.base.thread.held s.completed s.base.pages p := by
    rw [← hframe.submitter, ← hframe.thread, ← hpages]
    rfl
  rw [hheld, hqueued, hbalance, Heaped.held]
  omega

omit [DecidableEq ι] in
/-- A step of `backup_exit`. -/
theorem exit_accounts (s : Heaped ι ν) (p : Piece) :
    Heaped.held { s with base := exitStep s.base } p =
      s.held p + balance HeapEvent.effect (exitHeap s.base) p := by
  have hframe := exitStep_frame s.base
  have hsame : ∀ pc, s.base.exit = pc → (exitStep s.base).cleared = s.base.cleared →
      (exitStep s.base).exit.held p = pc.held p + balance HeapEvent.effect (exitHeap s.base) p →
        Heaped.held { s with base := exitStep s.base } p =
          s.held p + balance HeapEvent.effect (exitHeap s.base) p := by
    intro pc hpc hcleared hbalance
    refine held_exit (n := 0) hframe (congrArg List.length hcleared) ?_
    rw [hbalance, hpc]
    cases p <;> simp
  cases hpc : s.base.exit with
  | notCalled =>
    refine hsame _ hpc ?_ ?_
    · simp only [exitStep, hpc]
      split <;> rfl
    · simp only [exitStep, exitHeap, hpc]
      split <;> cases p <;> rfl
  | stopping =>
    refine hsame _ hpc ?_ ?_
    · simp only [exitStep, hpc]
      split <;> rfl
    · simp only [exitStep, exitHeap, hpc]
      split <;> cases p <;> first | rfl | (rw [hpc]; rfl)
  | deleting pos q ss =>
    rcases ss with _ | ⟨x, _ | ⟨y, ss⟩⟩
    · refine hsame _ hpc ?_ ?_
      · simp only [exitStep, hpc]
      · simp only [exitStep, exitHeap, hpc]
        cases p <;> rfl
    · refine held_exit (n := 1) hframe ?_ ?_
      · simp only [exitStep, hpc]
        exact List.length_append
      · simp only [exitStep, exitHeap, hpc]
        cases p <;> rfl
    · refine hsame _ hpc ?_ ?_
      · simp only [exitStep, hpc]
      · simp only [exitStep, exitHeap, hpc]
        cases p <;> rfl
  | testing pos q =>
    refine hsame _ hpc ?_ ?_
    · simp only [exitStep, hpc]
      split <;> rfl
    · simp only [exitStep, exitHeap, hpc]
      split <;> cases p <;> rfl
  | _ =>
    refine hsame _ hpc ?_ ?_
    · simp only [exitStep, hpc]
    · simp only [exitStep, exitHeap, hpc]
      cases p <;> rfl

omit [DecidableEq ι] [DecidableEq ν] in
/-- `bestio_backup_end_request` is called. -/
theorem endRequest_accounts (s : Heaped ι ν) (p : Piece) : (endRequest s).held p = s.held p := by
  unfold endRequest
  split
  · rename_i q c bio hpc hlast hcompleted
    have hpages : s.base.pages = bio.biVcnt.toNat := by
      rw [State.pages, hlast]
      rfl
    unfold Heaped.held
    rw [hpc, hcompleted, hpages]
    cases p <;> simp [Heaped.inEnding, ThreadPc.held] <;> omega
  · rfl

theorem split_getElem? {xs : List Nat} {n a : Nat} (h : xs[n]? = some a) :
    ∃ ys zs, xs = ys ++ a :: zs ∧ xs.eraseIdx n = ys ++ zs ∧
      ∀ a', xs.set n a' = ys ++ a' :: zs := by
  obtain ⟨hn, ha⟩ := List.getElem?_eq_some_iff.mp h
  refine ⟨xs.take n, xs.drop (n + 1), ?_, List.eraseIdx_eq_take_drop_succ xs n, fun a' => ?_⟩
  · rw [← ha, ← List.drop_eq_getElem_cons hn, List.take_append_drop]
  · rw [List.set_eq_take_append_cons_drop, if_pos hn]

omit [DecidableEq ι] [DecidableEq ν] in
/-- One of its calls goes on. -/
theorem freeNext_accounts (s : Heaped ι ν) (n : Nat) (p : Piece) :
    (freeNext s n).1.held p = s.held p + balance HeapEvent.effect (freeNext s n).2 p := by
  unfold freeNext
  split
  · rename_i hn
    obtain ⟨ys, zs, hsplit, herase, _⟩ := split_getElem? hn
    simp only [Heaped.held, herase]
    cases p <;> simp [Heaped.inEnding, hsplit, balance, HeapEvent.effect]
    omega
  · rename_i m hn
    obtain ⟨ys, zs, hsplit, _, hset⟩ := split_getElem? hn
    simp only [Heaped.held, hset]
    cases p <;> simp [Heaped.inEnding, hsplit, balance, HeapEvent.effect]
    omega
  · exact (Int.add_zero _).symm

/-- **A step**: what it allocates and does not free is held then, or was leaked. -/
theorem heapStep_accounts {b : Boot ν} {s : Heaped ι ν} (h : Sound b s) (a : HeapAct ι ν P)
    (p : Piece) : (heapStep s a).1.held p + leaked s a p =
      s.held p + balance HeapEvent.effect (heapStep s a).2 p := by
  have hclean : ∀ a' : HeapAct ι ν P, lostPages s a' = none →
      (heapStep s a').1.held p = s.held p + balance HeapEvent.effect (heapStep s a').2 p →
        (heapStep s a').1.held p + leaked s a' p =
          s.held p + balance HeapEvent.effect (heapStep s a').2 p := by
    intro a' hnone hheld
    unfold leaked
    rw [hnone]
    exact (Int.add_zero _).trans hheld
  cases a with
  | step a =>
    cases a with
    | thread o => exact thread_accounts h o p
    | exit => exact hclean _ rfl (exit_accounts s p)
    | call k bio junk => exact hclean _ rfl (call_accounts s k bio junk p)
    | submitter k node => exact hclean _ rfl (submitter_accounts (P := P) s k node p)
  | endRequest =>
    exact hclean _ rfl ((endRequest_accounts s p).trans (Int.add_zero _).symm)
  | freeNext n => exact hclean _ rfl (freeNext_accounts s n p)

/-! ## A run -/

/-- For each page that could not be filled, the pages that its bio had by then. -/
def lost (b : Boot ν) (acts : List (HeapAct ι ν P)) : List Nat :=
  (trace heapStep (heapStart b) acts).filterMap fun t => lostPages t.before t.input

/-- What was leaked for so many pages that could not be filled. -/
def leakedFor (ns : List Nat) : Piece → Int
  | .bio | .completion => ns.length
  | .page => ns.sum
  | .entry => 0

omit [DecidableEq ι] [DecidableEq ν] [Fintype ι] in
theorem leakedFor_append (ns : List Nat) (s : Heaped ι ν) (a : HeapAct ι ν P) (p : Piece) :
    leakedFor (ns ++ (lostPages s a).toList) p = leakedFor ns p + leaked s a p := by
  unfold leaked
  cases lostPages s a with
  | none =>
    rw [Option.toList_none, List.append_nil]
    exact (Int.add_zero _).symm
  | some n =>
    rw [Option.toList_some]
    cases p <;> simp [leakedFor]

omit [Fintype ι] in
theorem heapRun_concat (b : Boot ν) (acts : List (HeapAct ι ν P)) (a : HeapAct ι ν P) :
    heapRun b (acts ++ [a]) = (heapStep (heapRun b acts) a).1 ∧
      lost b (acts ++ [a]) = lost b acts ++ (lostPages (heapRun b acts) a).toList ∧
      ∀ p, live b (acts ++ [a]) p =
        live b acts p + balance HeapEvent.effect (heapStep (heapRun b acts) a).2 p := by
  refine ⟨final_concat heapStep _ acts a, ?_, fun p => ?_⟩
  · have hlast : List.filterMap (fun t => lostPages t.before t.input)
        (trace heapStep (heapRun b acts) [a]) = (lostPages (heapRun b acts) a).toList := by
      show List.filterMap _ [(⟨heapRun b acts, a, _⟩ : Taken _ _ _)] = _
      cases hl : lostPages (heapRun b acts) a <;> simp [hl]
    unfold lost
    rw [trace_append, List.filterMap_append]
    exact congrArg (_ ++ ·) hlast
  · unfold live
    rw [trace_append, List.map_append, List.sum_append, ← Int.add_assoc]
    exact congrArg (_ + ·) (Int.add_zero _)

/-- **A run**: what it has allocated and not freed is held, or was leaked. -/
theorem heapRun_accounts (b : Boot ν) (acts : List (HeapAct ι ν P)) (p : Piece) :
    live b acts p = (heapRun b acts).held p + leakedFor (lost b acts) p := by
  induction acts using List.reverseRecOn with
  | nil =>
    have hthread : (backupInit (ι := ι) b).thread.held false 0 p = 0 := by
      show ThreadPc.held false 0 (if b.running then .start else .err) p = 0
      split <;> cases p <;> rfl
    have hsum : ∑ k : ι, (SubmitterPc.rest : SubmitterPc ν).held p = 0 :=
      Finset.sum_eq_zero fun _ _ => by cases p <;> rfl
    show (if p = .entry then 1 else 0) + (0 : Int) =
      ∑ k : ι, (SubmitterPc.rest : SubmitterPc ν).held p + _ + _ + _ +
        (backupInit (ι := ι) b).thread.held false 0 p + _
    rw [hthread, hsum]
    cases p <;> rfl
  | append_singleton acts a ih =>
    obtain ⟨hrun, hlost, hlive⟩ := heapRun_concat b acts a
    have hstep := heapStep_accounts (heapRun_sound b acts) a p
    rw [hlive, hrun, hlost, leakedFor_append, ih]
    omega

omit [DecidableEq ι] [DecidableEq ν] in
/-- Nobody has anything in its hands. -/
theorem held_at_rest {s : Heaped ι ν} (hrest : ∀ k, s.base.submitter k = .rest)
    (hidle : s.base.thread.idle = true) (hending : s.ending = []) (p : Piece) :
    s.held p = s.base.queued p + s.base.exit.held p := by
  have hsum : ∑ k, (s.base.submitter k).held p = 0 := by
    refine Finset.sum_eq_zero fun k _ => ?_
    rw [hrest k]
    cases p <;> rfl
  have hthread : s.base.thread.held s.completed s.base.pages p = 0 := by
    cases hpc : s.base.thread with
    | picking | deleting | deleted | filling | waitingIo | freeing =>
      rw [hpc] at hidle
      cases hidle
    | _ => cases p <;> rfl
  have hendings : s.inEnding p = 0 := by
    unfold Heaped.inEnding
    rw [hending]
    cases p <;> rfl
  rw [Heaped.held, hsum, hthread, hendings]
  omega

/-- **What is not freed.** In every run at whose end no submitter is in the hook, the thread has no
bio in its hands, no call of `bestio_backup_end_request` is under way, and `backup_exit` was not
called or has returned, the clones that are not freed are those that entered the queue and were not
taken out by the thread, and one for each page that could not be filled; each of these has left its
completion and its pages, too. Of the entries those in the queue are left, and the queue itself. -/
theorem heap_at_rest (b : Boot ν) (acts : List (HeapAct ι ν P))
    (hrest : ∀ k, (heapRun b acts).base.submitter k = .rest)
    (hidle : (heapRun b acts).base.thread.idle = true) (hending : (heapRun b acts).ending = [])
    (hexit : (heapRun b acts).base.exit = .notCalled ∨ (heapRun b acts).base.exit = .returned) :
    live b acts .bio = (heapRun b acts).base.enqueued.length -
        (heapRun b acts).base.taken.length + (lost b acts).length ∧
      live b acts .completion = (lost b acts).length ∧
      live b acts .page = (lost b acts).sum ∧
      live b acts .entry = (heapRun b acts).base.enqueued.length -
        (heapRun b acts).base.taken.length - (heapRun b acts).base.cleared.length +
          (if (heapRun b acts).base.exit = .returned then 0 else 1) := by
  have hlive : ∀ p, live b acts p = (heapRun b acts).base.queued p +
      (heapRun b acts).base.exit.held p + leakedFor (lost b acts) p := by
    intro p
    rw [heapRun_accounts, held_at_rest hrest hidle hending]
  have hexits : ∀ p, (heapRun b acts).base.exit.held p =
      if p = .entry then if (heapRun b acts).base.exit = .returned then 0 else 1 else 0 := by
    intro p
    rcases hexit with h | h <;> rw [h] <;> cases p <;> rfl
  simp only [hlive, hexits]
  refine ⟨congrArg (· + _) (Int.add_zero _), ?_, ?_, Int.add_zero _⟩
  · exact Int.zero_add _
  · exact Int.zero_add _

/-- The block layer takes the bio that the thread waits for, and its end frees one page and the
clone. -/
def ended : List (HeapAct Bool Nat Unit) := [.endRequest, .freeNext 0, .freeNext 0]

/-- A write whose page cannot be mapped, and one that is backed up. -/
def twoWrites : List (HeapAct Bool Nat Unit) :=
  (hookCall false 1 :: List.replicate 9 (.submitter false 1)).map .step ++
    List.replicate 8 (.step (.thread { allGood with kmap := 0 })) ++
    (hookCall false 1 :: List.replicate 9 (.submitter false 2)).map .step ++
    List.replicate 12 (.step (.thread allGood)) ++ ended ++
    List.replicate 5 (.step (.thread allGood))

/-- The first one leaves its clone, its completion and its page. -/
theorem heap_at_rest_twoWrites : live someBoot twoWrites .bio = 1 ∧
    live someBoot twoWrites .completion = 1 ∧ live someBoot twoWrites .page = 1 ∧
    live someBoot twoWrites .entry = 1 := by
  have hlost : lost someBoot twoWrites = [1] := by decide +kernel
  have hall : (heapRun someBoot twoWrites).base.enqueued.length = 2 ∧
      (heapRun someBoot twoWrites).base.taken.length = 2 ∧
      (heapRun someBoot twoWrites).base.cleared.length = 0 ∧
      (heapRun someBoot twoWrites).base.exit = .notCalled := by decide +kernel
  have hleft := heap_at_rest someBoot twoWrites (fun k => by cases k <;> rfl) (by decide +kernel)
    (by decide +kernel) (Or.inl hall.2.2.2)
  rw [hlost, hall.1, hall.2.1, hall.2.2.1, hall.2.2.2] at hleft
  exact hleft

end Accounts

end JcmController.Backup
