import JcmController.Backup.Clone
import JcmController.Backup.Lost
import JcmController.Lib.Flat

/-!
# The ramdisk and its backup

`vrd_make_request` with the hook called where the call stands in the source, before the loop that
copies: any number of submitters, each inside at most one call, and the backup thread, which reads
the ramdisk when it gets to a clone. A step is one of the hook, the `memcpy` of one segment, or one
of the thread.

* `Req` says where a submitter is. Its `slot` is the number of its clone among those that have
  entered the queue.
* A page is read when its segment is copied, and holds anything then.
* `submit_bio` writes what the filled bio carries to the backup device; it is there when
  `wait_for_completion` returns.
-/

namespace JcmController.Backup

open JcmController.Lib JcmController.Lib.Concat JcmController.Lib.LockedQueue

variable {ι ν P : Type}

/-! ## The system -/

/-- Where a submitter is in `vrd_make_request`: in the hook, or in the loop, with so many segments
copied. What is left is `pVHDDData` and `bv_len` of each. -/
inductive Req (P : Type) where
  | rest
  | hooking (bio : Bio P) (slot : Option Nat)
  | copying (bio : Bio P) (slot : Option Nat) (copied : Nat) (todo : List (BioVec UInt64))
  deriving DecidableEq

/-- The backup and what it is between: the memory with the ramdisk in it, of `size` bytes, and the
backup device. `written` records the extents of the requests that were not refused. -/
structure System (ι ν P : Type) where
  backup : State ι ν
  size : UInt64
  memory : UInt64 → UInt8
  device : Nat → UInt8
  req : ι → Req P
  written : List (Nat × Nat)

/-- What happens next: `vrd_make_request` is called in a submitter, its hook goes on, it copies a
segment or returns, or the thread goes on. -/
inductive Move (ι ν P : Type) where
  | request (k : ι) (bio : { bio : Bio P // bio.Valid }) (junk : Nat → BioVec UInt64)
  | hook (k : ι) (node : ν)
  | copy (k : ι) (page : Nat → UInt8)
  | thread (o : Outcome)

/-- `pVHDDData` at each segment, counting up, with the segment's length. -/
def walked (data : UInt64) (bio : Bio P) : List (BioVec UInt64) :=
  addressed (vrdGetBioAddress data bio) bio.segments

/-- `memcpy(pVHDDData, pBuffer, bv_len)` -/
def memcpyTo (memory : UInt64 → UInt8) (v : BioVec UInt64) (page : Nat → UInt8) : UInt64 → UInt8 :=
  fun a => if (a - v.bvPage).toNat < v.bvLen.toNat then page (a - v.bvPage).toNat else memory a

section Steps

variable [DecidableEq ι] [DecidableEq ν]

/-- A call of `vrd_make_request`, up to the hook's clone. -/
def vrdMakeRequest (s : System ι ν P) (k : ι) (bio : Bio P) (junk : Nat → BioVec UInt64) :
    System ι ν P :=
  match s.req k with
  | .rest =>
    if bio.biSector * 512 + bio.biSize.toUInt64 > s.size then s
    else
      let backup := bestioBackupBio s.backup k bio junk
      { s with
        backup := backup
        written := s.written ++ [(512 * bio.biSector.toNat, bio.biSize.toNat)]
        req := Function.update s.req k (match backup.submitter k with
          | .rest => .copying bio none 0 (walked s.backup.data bio)
          | _ => .hooking bio none) }
  | _ => s

/-- The rest of the hook, and its return. -/
def hookStep (s : System ι ν P) (k : ι) (node : ν) : System ι ν P :=
  let backup := submitterStep s.backup k node
  match s.req k with
  | .hooking bio slot =>
    { s with
      backup := backup
      req := Function.update s.req k (match s.backup.submitter k with
        | .adding _ [_] => .hooking bio (some s.backup.enqueued.length)
        | .left => .copying bio slot 0 (walked s.backup.data bio)
        | _ => .hooking bio slot) }
  | _ => { s with backup := backup }

/-- One turn of the loop of `vrd_make_request`, or `bio_endio`. -/
def copyStep (s : System ι ν P) (k : ι) (page : Nat → UInt8) : System ι ν P :=
  match s.req k with
  | .copying bio slot copied (v :: todo) =>
    { s with
      memory := memcpyTo s.memory v page
      req := Function.update s.req k (.copying bio slot (copied + 1) todo) }
  | .copying _ _ _ [] => { s with req := Function.update s.req k .rest }
  | _ => s

/-- The device once the bio that was submitted last is on it. -/
def System.delivered (s : System ι ν P) : Nat → UInt8 :=
  match s.backup.submitted.getLast? with
  | some (_, f) => Flat.write s.device (512 * f.biSector.toNat) f.carried
  | none => s.device

/-- The thread has its I/O complete. -/
def ThreadPc.delivers (o : Outcome) : ThreadPc ν → Bool
  | .waitingIo _ => o.complete
  | _ => false

/-- A step of the thread: it reads the memory as it is. -/
def threadTurn (s : System ι ν P) (o : Outcome) : System ι ν P :=
  { s with
    backup := (threadStep s.backup { o with memory := s.memory }).1
    device := if s.backup.thread.delivers o then s.delivered else s.device }

/-- One step. -/
def move (s : System ι ν P) : Move ι ν P → System ι ν P × List String
  | .request k bio junk => (vrdMakeRequest s k bio.val junk, [])
  | .hook k node => (hookStep s k node, [])
  | .copy k page => (copyStep s k page, [])
  | .thread o => (threadTurn s o, (threadStep s.backup { o with memory := s.memory }).2)

/-- After `backup_init`, with anything in the ramdisk and on the device. -/
def started (b : Boot ν) (size : UInt64) (memory : UInt64 → UInt8) (device : Nat → UInt8) :
    System ι ν P :=
  ⟨backupInit b, size, memory, device, fun _ => .rest, []⟩

end Steps

/-! ## Convergence -/

/-- The thread has no bio in its hands. -/
def ThreadPc.idle : ThreadPc ν → Bool
  | .picking | .deleting _ _ | .deleted _ | .filling _ _ _ _ | .waitingIo _ | .freeing _ => false
  | _ => true

/-- The queue is empty, the thread is idle and no `vrd_make_request` is in progress. -/
def System.Quiet (s : System ι ν P) : Prop :=
  s.backup.mem.next s.backup.queue = s.backup.queue ∧ s.backup.thread.idle = true ∧
    ∀ k, s.req k = .rest

/-- Every byte that was written is the same on the device as in the ramdisk. -/
def System.Converged (s : System ι ν P) : Prop :=
  ∀ e ∈ s.written, ∀ x, e.1 ≤ x → x < e.1 + e.2 →
    s.device x = s.memory (s.backup.data + UInt64.ofNat x)

/-- The clone of the bio is walked from its first vector, and its bytes have addresses. -/
structure Bio.Whole (bio : Bio P) : Prop where
  start : bio.biIdx = 0 ∨ bio.biSize = 0
  bound : 512 * bio.biSector.toNat + bio.biSize.toNat < 2 ^ 64

/-- The clone of a submitter's request, once it is in the queue. -/
def Req.slot : Req P → Option Nat
  | .rest => none
  | .hooking _ slot => slot
  | .copying _ slot _ _ => slot

/-- How many segments it has copied. -/
def Req.copied : Req P → Nat
  | .copying _ _ copied _ => copied
  | _ => 0

/-- The segments it has not copied. -/
def Req.left (data : UInt64) : Req P → List (BioVec UInt64)
  | .rest => []
  | .hooking bio _ => walked data bio
  | .copying _ _ _ todo => todo

/-- The number of the page that the thread is at. -/
def ThreadPc.page : ThreadPc ν → Option Nat
  | .filling _ _ done (_ :: _) => some done.length
  | _ => none

/-- **The thread is too early**: it is at a page of a clone whose own request has not copied that
segment. -/
def TooEarly (s : System ι ν P) : Prop :=
  ∃ m ∈ s.backup.thread.page, ∃ k, ∃ i ∈ (s.req k).slot, i + 1 = s.backup.taken.length ∧
    (s.req k).copied ≤ m ∧ m < (s.req k).copied + ((s.req k).left s.backup.data).length

/-- The request is of a whole bio; the thread fills its page, and is not too early. -/
def Safe (s : System ι ν P) : Move ι ν P → Prop
  | .request _ bio _ => bio.val.Whole
  | .hook _ _ | .copy _ _ => True
  | .thread o => ¬ FillFails s.backup { o with memory := s.memory } ∧ ¬ TooEarly s

end JcmController.Backup
