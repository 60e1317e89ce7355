import Mathlib.Data.UInt
import JcmController.Lib.LockedQueue
import JcmController.Lib.Machine

/-!
# The backup queue (`bestio/main.c`)

Model of `bestio_backup_bio`, `bestio_q_bio`, `bestio_backup_thread`, `backup_init`,
`backup_clear_queue` and `backup_exit`, as steps of their parties: any number of submitters (`ι`),
each inside at most one call of the hook, the thread, and the caller of `backup_exit`. A step is one
access to what the parties share.

* `ν` are the addresses of `struct backup_list`; the list is its `next` and `prev` pointers
  (`Links`), changed store by store. `kmalloc` gives a node that is not in use, `bio_alloc` and the
  `kmalloc` of the completion succeed. `LIST_POISON1` and `LIST_POISON2` are left out.
* A `bio` is what its clone keeps of it; `bi_bdev`, `bi_flags` and `bi_end_io` are the same in every
  clone. `P` is what stands in `bv_page`: a page, the address the hook puts there, or the bytes of
  the page `bestio_q_bio` allocates. The vectors from `bi_idx` on cover `bi_size`, none is empty.
* A clone has `bi_vcnt` vectors. What `bio_alloc` finds in those the loop does not reach is the
  call's `junk`; a store behind the last one stops the submitter (`oops`).
* `wake_up_interruptible` wakes a thread that looks at the condition again; here it looks at any
  time. `down` and `kthread_stop` wait by taking no step.
* The histories `enqueued`, `taken`, `submitted` and `cleared` record the bios at the store that
  links their entry in, at the one that takes it out in the thread, at `submit_bio`, and at the
  store that takes it out in `backup_clear_queue`.
* The events are the texts of `printk`.

A run starts with `backup_init`. The calls of it in `my_init`, of `backup_exit` in `my_exit` and of
the hook in `vrd_make_request` are commented out in the source.
-/

namespace JcmController.Backup

open JcmController.Lib JcmController.Lib.ListHead

/-! ## Bios -/

/-- `struct bio_vec`. -/
structure BioVec (P : Type) where
  bvPage : P
  bvLen : UInt32
  bvOffset : UInt32
  deriving DecidableEq, Repr

/-- `struct bio`, with `bi_iter`. -/
structure Bio (P : Type) where
  biSector : UInt64
  biOpf : UInt32
  biVcnt : UInt16
  biIdx : UInt32
  biSize : UInt32
  biBvecDone : UInt32
  biIoVec : List (BioVec P)
  deriving DecidableEq, Repr

/-- What the hook puts into the queue: `bv_page` holds an address, `NULL` is 0. -/
abbrev Clone := Bio UInt64

/-- `bio_data_dir(bio) == WRITE` -/
def Bio.IsWrite {P : Type} (bio : Bio P) : Prop := bio.biOpf &&& 1 = 1

instance {P : Type} (bio : Bio P) : Decidable bio.IsWrite := inferInstanceAs (Decidable (_ = _))

/-- The segments of `bio_for_each_segment`, with `size` bytes to go and `done` bytes of the first
vector behind. -/
def segmentsFrom {P : Type} : List (BioVec P) → UInt32 → UInt32 → List (BioVec P)
  | [], _, _ => []
  | v :: vs, size, done =>
    if size = 0 then []
    else
      let len := min size (v.bvLen - done)
      ⟨v.bvPage, len, v.bvOffset + done⟩ :: segmentsFrom vs (size - len) 0

def Bio.segments {P : Type} (bio : Bio P) : List (BioVec P) :=
  segmentsFrom (bio.biIoVec.drop bio.biIdx.toNat) bio.biSize bio.biBvecDone

/-- The vectors of the clone, `bio_address` counting up. -/
def addressed {P : Type} : UInt64 → List (BioVec P) → List (BioVec UInt64)
  | _, [] => []
  | bioAddress, v :: vs =>
    ⟨bioAddress, v.bvLen, v.bvOffset⟩ :: addressed (bioAddress + v.bvLen.toUInt64) vs

/-- `vrd_get_bio_address` -/
def vrdGetBioAddress {P : Type} (data : UInt64) (bio : Bio P) : UInt64 := data + bio.biSector * 512

/-- The clone of a bio; none where a segment is stored behind its last vector. -/
def cloneBio {P : Type} (data : UInt64) (junk : Nat → BioVec UInt64) (bio : Bio P) :
    Option Clone :=
  let segs := bio.segments
  if segs.length ≤ bio.biVcnt.toNat then
    some {
      biSector := bio.biSector
      biOpf := bio.biOpf
      biVcnt := bio.biVcnt
      biIdx := bio.biIdx
      biSize := bio.biSize
      biBvecDone := 0
      biIoVec := addressed (vrdGetBioAddress data bio) segs ++
        (List.range (bio.biVcnt.toNat - segs.length)).map junk }
  else none

theorem addressed_length {P : Type} (bioAddress : UInt64) (vs : List (BioVec P)) :
    (addressed bioAddress vs).length = vs.length := by
  induction vs generalizing bioAddress with
  | nil => rfl
  | cons v vs ih => exact congrArg (· + 1) (ih _)

/-- The clone has `bi_vcnt` vectors, so `bestio_q_bio` goes through all of them. -/
theorem cloneBio_length {P : Type} {data : UInt64} {junk : Nat → BioVec UInt64} {bio : Bio P}
    {c : Clone} (h : cloneBio data junk bio = some c) : c.biIoVec.length = c.biVcnt.toNat := by
  unfold cloneBio at h
  by_cases hle : bio.segments.length ≤ bio.biVcnt.toNat
  · rw [if_pos hle] at h
    cases h
    show (addressed _ bio.segments ++ _).length = bio.biVcnt.toNat
    rw [List.length_append, addressed_length, List.length_map, List.length_range]
    omega
  · rw [if_neg hle] at h
    cases h

/-! ## The parties -/

/-- Where a submitter is in `bestio_backup_bio`. -/
inductive SubmitterPc (ν : Type) where
  | rest
  | cloned (cloneBio : Clone)
  | allocated (qData : ν)
  | entered (qData : ν)
  | adding (qData : ν) (ss : List (Store ν))
  | added
  | left
  | oops

/-- Where the thread is: in `bestio_backup_thread`, and in `bestio_q_bio` while it is filling pages
or waiting for the I/O. -/
inductive ThreadPc (ν : Type) where
  | err
  | start
  | loop
  | entered
  | empty
  | waiting
  | woken
  | picking
  | deleting (qData : ν) (ss : List (Store ν))
  | deleted (qData : ν)
  | filling (qData : ν) (bio : Clone) (done : List (BioVec (List UInt8)))
      (todo : List (BioVec UInt64))
  | waitingIo (qData : ν)
  | freeing (qData : ν)
  | check
  | exited

/-- Where the caller of `backup_exit` is: waiting in `kthread_stop`, about to call
`backup_clear_queue` (`stopped`), in it up to `freeingQueue`, before `blkdev_put`, or back. -/
inductive ExitPc (ν : Type) where
  | notCalled
  | stopping
  | stopped
  | reading (pos : ν)
  | testing (pos q : ν)
  | deleting (pos q : ν) (ss : List (Store ν))
  | freeing (pos q : ν)
  | freeingQueue
  | putting
  | returned
  deriving DecidableEq

/-- The thread has ended, or `kthread_run` did not start one. -/
def ThreadPc.ended {ν : Type} : ThreadPc ν → Bool
  | .err | .exited => true
  | _ => false

/-- `backup_clear_queue` has begun. -/
def ExitPc.clearing {ν : Type} : ExitPc ν → Bool
  | .notCalled | .stopping | .stopped => false
  | _ => true

/-- `struct backup`, the memory behind it, where every party is, and the histories. -/
structure State (ι ν : Type) where
  data : UInt64
  queue : ν
  qSemMutex : Nat
  bestioCondition : UInt64
  hook : Bool
  shouldStop : Bool
  mem : Links ν
  bio : ν → Clone
  used : ν → Bool
  submitter : ι → SubmitterPc ν
  thread : ThreadPc ν
  exit : ExitPc ν
  enqueued : List Clone
  taken : List Clone
  submitted : List (Clone × Bio (List UInt8))
  cleared : List Clone

/-- What `backup_init` finds: the address of the ramdisk, the node `kmalloc` gives for the queue,
what is in memory, and whether `kthread_run` starts the thread. -/
structure Boot (ν : Type) where
  data : UInt64
  queue : ν
  mem : Links ν
  bio : ν → Clone
  used : ν → Bool
  running : Bool

/-- What the thread meets: a wait that has timed out or was interrupted, whether `alloc_page` gives
a page, what `kmap` returns, the ramdisk as `memcpy` finds it, and whether the I/O is complete. -/
structure Outcome where
  expired : Bool
  page : Bool
  kmap : UInt64
  memory : UInt64 → UInt8
  complete : Bool

/-- What happens next: the hook is called in a submitter, a submitter goes on (`node` is what
`kmalloc` would give it), the thread goes on, or `backup_exit` is called or goes on. -/
inductive Act (ι ν P : Type) where
  | call (k : ι) (bio : Bio P) (junk : Nat → BioVec UInt64)
  | submitter (k : ι) (node : ν)
  | thread (o : Outcome)
  | exit

variable {ι ν P : Type}

section Steps

variable [DecidableEq ι] [DecidableEq ν]

/-- `backup_init` -/
def backupInit (b : Boot ν) : State ι ν where
  data := b.data
  queue := b.queue
  qSemMutex := 1
  bestioCondition := 0
  hook := b.running
  shouldStop := false
  mem := (b.mem.store (.next b.queue b.queue)).store (.prev b.queue b.queue)
  bio := b.bio
  used := Function.update b.used b.queue true
  submitter := fun _ => .rest
  thread := if b.running then .start else .err
  exit := .notCalled
  enqueued := []
  taken := []
  submitted := []
  cleared := []

/-- The state after submitter `k` has gone on to `pc`. -/
def State.at (s : State ι ν) (k : ι) (pc : SubmitterPc ν) : State ι ν :=
  { s with submitter := Function.update s.submitter k pc }

omit [DecidableEq ν] in
@[simp] theorem at_submitter_self (s : State ι ν) (k : ι) (pc : SubmitterPc ν) :
    (s.at k pc).submitter k = pc := by
  simp only [State.at, Function.update_self]

omit [DecidableEq ν] in
theorem at_submitter_ne (s : State ι ν) {k k' : ι} (hk : k' ≠ k) (pc : SubmitterPc ν) :
    (s.at k pc).submitter k' = s.submitter k' := by
  simp only [State.at, Function.update_of_ne hk]

/-- A call of `bestio_backup_bio`, up to the clone. -/
def bestioBackupBio (s : State ι ν) (k : ι) (bio : Bio P) (junk : Nat → BioVec UInt64) :
    State ι ν :=
  match s.submitter k with
  | .rest =>
    if s.hook ∧ bio.IsWrite then
      match cloneBio s.data junk bio with
      | some c => s.at k (.cloned c)
      | none => s.at k .oops
    else s
  | _ => s

/-- The rest of `bestio_backup_bio`. -/
def submitterStep (s : State ι ν) (k : ι) (node : ν) : State ι ν :=
  match s.submitter k with
  | .rest => s
  | .cloned c =>
    if s.used node then s
    else
      State.at { s with
        used := Function.update s.used node true
        bio := Function.update s.bio node c } k (.allocated node)
  | .allocated q =>
    if 0 < s.qSemMutex then State.at { s with qSemMutex := s.qSemMutex - 1 } k (.entered q) else s
  | .entered q => s.at k (.adding q (listAddTail s.mem q s.queue))
  | .adding _ [] => s
  | .adding q [x] =>
    State.at { s with
      mem := s.mem.store x
      enqueued := s.enqueued ++ [s.bio q] } k .added
  | .adding q (x :: ss) => State.at { s with mem := s.mem.store x } k (.adding q ss)
  | .added => State.at { s with qSemMutex := s.qSemMutex + 1 } k .left
  | .left => State.at { s with bestioCondition := s.bestioCondition ||| 2 } k .rest
  | .oops => s

/-- What `memcpy` reads. -/
def readMemory (memory : UInt64 → UInt8) (address : UInt64) (len : UInt32) : List UInt8 :=
  (List.range len.toNat).map fun i => memory (address + UInt64.ofNat i)

/-- One turn of the loop of `bestio_q_bio`. -/
def fillPage (v : BioVec UInt64) (o : Outcome) : Except String (BioVec (List UInt8)) :=
  if v.bvPage = 0 then .error "[BESTIO] bio address fail\n"
  else if o.page = false then .error "[BESTIO] backup page alloc fail\n"
  else if o.kmap + v.bvOffset.toUInt64 = 0 then .error "[BESTIO] kmap fail\n"
  else .ok ⟨readMemory o.memory v.bvPage v.bvLen, v.bvLen, v.bvOffset⟩

/-- The bio `bestio_q_bio` submits. -/
def Bio.filled (bio : Clone) (vecs : List (BioVec (List UInt8))) : Bio (List UInt8) where
  biSector := bio.biSector
  biOpf := bio.biOpf
  biVcnt := bio.biVcnt
  biIdx := bio.biIdx
  biSize := bio.biSize
  biBvecDone := bio.biBvecDone
  biIoVec := vecs

/-- The state after the thread has gone on to `pc`. -/
def State.threadAt (s : State ι ν) (pc : ThreadPc ν) : State ι ν := { s with thread := pc }

/-- `bestio_backup_thread`. The result of `bestio_q_bio` is not looked at. -/
def threadStep (s : State ι ν) (o : Outcome) : State ι ν × List String :=
  match s.thread with
  | .err => (s, [])
  | .start => (s.threadAt (if s.shouldStop then .exited else .loop), [])
  | .loop =>
    if 0 < s.qSemMutex then
      (State.threadAt { s with qSemMutex := s.qSemMutex - 1 } .entered, [])
    else (s, [])
  | .entered => (s.threadAt (if s.mem.next s.queue = s.queue then .empty else .picking), [])
  | .empty => (State.threadAt { s with qSemMutex := s.qSemMutex + 1 } .waiting, [])
  | .waiting => (s.threadAt (if s.bestioCondition ≠ 0 ∨ o.expired then .woken else .waiting), [])
  | .woken =>
    (State.threadAt { s with bestioCondition := s.bestioCondition &&& ~~~2 } .check, [])
  | .picking =>
    (s.threadAt (.deleting (s.mem.next s.queue) (listDel s.mem (s.mem.next s.queue))), [])
  | .deleting _ [] => (s, [])
  | .deleting q [x] =>
    (State.threadAt { s with
      mem := s.mem.store x
      taken := s.taken ++ [s.bio q] } (.deleted q), [])
  | .deleting q (x :: ss) =>
    (State.threadAt { s with mem := s.mem.store x } (.deleting q ss), [])
  | .deleted q =>
    (State.threadAt { s with qSemMutex := s.qSemMutex + 1 }
      (.filling q (s.bio q) [] (s.bio q).biIoVec), [])
  | .filling q bio done (v :: todo) =>
    match fillPage v o with
    | .ok page => (s.threadAt (.filling q bio (done ++ [page]) todo), [])
    | .error msg => (s.threadAt (.freeing q), [msg])
  | .filling q bio done [] =>
    (State.threadAt { s with submitted := s.submitted ++ [(bio, bio.filled done)] }
      (.waitingIo q), [])
  | .waitingIo q => (s.threadAt (if o.complete then .freeing q else .waitingIo q), [])
  | .freeing q =>
    (State.threadAt { s with used := Function.update s.used q false } .check, [])
  | .check => (s.threadAt (if s.shouldStop then .exited else .loop), [])
  | .exited => (s, [])

/-- `backup_exit` -/
def exitStep (s : State ι ν) : State ι ν :=
  match s.exit with
  | .notCalled =>
    match s.thread with
    | .err => { s with exit := .stopped }
    | _ => { s with shouldStop := true, exit := .stopping }
  | .stopping =>
    match s.thread with
    | .exited => { s with exit := .stopped }
    | _ => s
  | .stopped => { s with exit := .reading (s.mem.next s.queue) }
  | .reading pos => { s with exit := .testing pos (s.mem.next pos) }
  | .testing pos q =>
    if pos = s.queue then { s with exit := .freeingQueue }
    else { s with exit := .deleting pos q (listDel s.mem pos) }
  | .deleting _ _ [] => s
  | .deleting pos q [x] =>
    { s with
      mem := s.mem.store x
      cleared := s.cleared ++ [s.bio pos]
      exit := .freeing pos q }
  | .deleting pos q (x :: ss) => { s with mem := s.mem.store x, exit := .deleting pos q ss }
  | .freeing pos q => { s with used := Function.update s.used pos false, exit := .reading q }
  | .freeingQueue => { s with used := Function.update s.used s.queue false, exit := .putting }
  | .putting => { s with exit := .returned }
  | .returned => s

/-- One step. -/
def step (s : State ι ν) : Act ι ν P → State ι ν × List String
  | .call k bio junk => (bestioBackupBio s k bio junk, [])
  | .submitter k node => (submitterStep s k node, [])
  | .thread o => threadStep s o
  | .exit => (exitStep s, [])

/-- The state these steps lead to. -/
def runFrom (b : Boot ν) (acts : List (Act ι ν P)) : State ι ν := final step (backupInit b) acts

end Steps

/-! ## Steps of the thread -/

section Thread

variable [DecidableEq ν]

/-- Before and after each turn of the loop the thread looks at `kthread_should_stop`. -/
theorem threadStep_edge {s : State ι ν} (hpc : s.thread = .start ∨ s.thread = .check)
    (o : Outcome) :
    (threadStep s o).1 = s.threadAt (if s.shouldStop then .exited else .loop) := by
  rcases hpc with hpc | hpc <;> simp only [threadStep, hpc]

/-- The store that takes an entry out. -/
theorem threadStep_unlinked {s : State ι ν} {q : ν} {x : Store ν}
    (hpc : s.thread = .deleting q [x]) (o : Outcome) :
    (threadStep s o).1 = State.threadAt { s with
      mem := s.mem.store x
      taken := s.taken ++ [s.bio q] } (.deleted q) := by
  simp only [threadStep, hpc]

/-- The semaphore is free. -/
theorem threadStep_enters {s : State ι ν} (hpc : s.thread = .loop) (hsem : 0 < s.qSemMutex)
    (o : Outcome) :
    (threadStep s o).1 = State.threadAt { s with qSemMutex := s.qSemMutex - 1 } .entered := by
  simp only [threadStep, hpc, if_pos hsem]

/-- The entry that was taken out is the one to fill. -/
theorem threadStep_deleted {s : State ι ν} {q : ν} (hpc : s.thread = .deleted q) (o : Outcome) :
    (threadStep s o).1 = State.threadAt { s with qSemMutex := s.qSemMutex + 1 }
      (.filling q (s.bio q) [] (s.bio q).biIoVec) := by
  simp only [threadStep, hpc]

/-- One vector is filled. -/
theorem threadStep_fills {s : State ι ν} {q : ν} {c : Clone} {done : List (BioVec (List UInt8))}
    {v : BioVec UInt64} {todo : List (BioVec UInt64)} {o : Outcome} {page : BioVec (List UInt8)}
    (hpc : s.thread = .filling q c done (v :: todo)) (hv : fillPage v o = .ok page) :
    (threadStep s o).1 = s.threadAt (.filling q c (done ++ [page]) todo) := by
  simp only [threadStep, hpc, hv]

/-- All of them are. -/
theorem threadStep_submits {s : State ι ν} {q : ν} {c : Clone} {done : List (BioVec (List UInt8))}
    (hpc : s.thread = .filling q c done []) (o : Outcome) :
    (threadStep s o).1 = State.threadAt { s with
      submitted := s.submitted ++ [(c, c.filled done)] } (.waitingIo q) := by
  simp only [threadStep, hpc]

end Thread

end JcmController.Backup
