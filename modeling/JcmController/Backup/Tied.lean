import JcmController.Backup.System

/-!
# What holds while the backup runs

The invariant of `System` along a run whose steps are all safe: where each submitter is in the hook
and in its request, what the thread has read of the clone in its hands, and that no request whose
segments are not all copied is behind the thread.

* `IsCloneOf`: the clone in the queue is that of a request that was let through.
* `Joined`: where a submitter is in `vrd_make_request` and in the hook.
* `HasRead`, `Ahead`: the pages filled so far, and the requests they wait for.
* `Turn`, `HookTurn`: what a step of the thread and of the hook does.

Results:
* `walked_getElem?`, `IsCloneOf.address`: the address of each segment, and of its page.
* `threadStep_turn`, `hookStep_turn`: the steps are these.
* **`request_tied`**, **`hookStep_tied`**, **`copyStep_tied`**, **`threadTurn_tied`**: every safe
  step keeps the invariant.
-/

namespace JcmController.Backup

open JcmController.Lib JcmController.Lib.Concat
open JcmController.Lib.ListHead JcmController.Lib.LockedQueue

variable {ι ν P : Type}

/-! ## Where a clone points -/

/-- The byte of the disk is one of the bio's. -/
def Bio.Covers (bio : Bio P) (x : Nat) : Prop :=
  512 * bio.biSector.toNat ≤ x ∧ x < 512 * bio.biSector.toNat + bio.biSize.toNat

/-- The clone of a request that was let through. -/
structure IsCloneOf (data : UInt64) (bio : Bio P) (c : Clone) : Prop where
  valid : bio.Valid
  whole : bio.Whole
  clone : ∃ junk, cloneBio data junk bio = some c

theorem lens_append (vs ws : List (BioVec P)) : lens (vs ++ ws) = lens vs ++ lens ws :=
  List.map_append

theorem sector_address (data : UInt64) (bio : Bio P) :
    vrdGetBioAddress data bio = data + UInt64.ofNat (512 * bio.biSector.toNat) := by
  rw [vrdGetBioAddress, UInt64.ofNat_mul, UInt64.ofNat_toNat, UInt64.mul_comm]
  rfl

/-- **The address of a segment.** -/
theorem walked_getElem? {data : UInt64} {bio : Bio P} {m : Nat} {v : BioVec UInt64}
    (h : (walked data bio)[m]? = some v) :
    v.bvPage =
      data + UInt64.ofNat (512 * bio.biSector.toNat + base (lens (walked data bio)) m) := by
  rw [walked, lens_addressed]
  rw [walked, addressed_getElem?, Option.map_eq_some_iff] at h
  obtain ⟨w, -, rfl⟩ := h
  rw [sector_address, UInt64.add_assoc, ← UInt64.ofNat_add]

namespace IsCloneOf

variable {data : UInt64} {bio : Bio P} {c : Clone}

theorem covers (h : IsCloneOf data bio c) {x : Nat} : c.Covers x ↔ bio.Covers x := by
  obtain ⟨junk, hc⟩ := h.clone
  obtain ⟨hsector, -, hsize, -⟩ := cloneBio_eq_some hc
  unfold Bio.Covers
  rw [hsector, hsize]

/-- The segments come first in the clone. -/
theorem vecs (h : IsCloneOf data bio c) : ∃ rest, c.biIoVec = walked data bio ++ rest := by
  obtain ⟨junk, hc⟩ := h.clone
  exact ⟨_, (cloneBio_eq_some hc).2.2.2.2⟩

theorem sum (h : IsCloneOf data bio c) : (lens (walked data bio)).sum = bio.biSize.toNat := by
  rw [walked, lens_addressed]
  exact (segments_sum h.valid.toHandedOver).1

/-- Up to the last segment the clone's vectors are as long as they are. -/
theorem base_eq (h : IsCloneOf data bio c) {m : Nat} (hm : m ≤ (walked data bio).length) :
    base (lens c.biIoVec) m = base (lens (walked data bio)) m := by
  obtain ⟨rest, hrest⟩ := h.vecs
  have hlen : m ≤ (lens (walked data bio)).length := by rwa [lens_length]
  unfold base
  rw [hrest, lens_append, List.take_append_of_le_length hlen]

/-- A page of the clone that starts below `bi_size` is that of a segment. -/
theorem segment (h : IsCloneOf data bio c) {m : Nat}
    (hm : base (lens c.biIoVec) m < c.biSize.toNat) :
    m < (walked data bio).length := by
  obtain ⟨junk, hc⟩ := h.clone
  by_contra hge
  have hle := base_mono (lens c.biIoVec) (Nat.le_of_not_lt hge)
  have hall : base (lens (walked data bio)) (walked data bio).length = bio.biSize.toNat := by
    rw [← h.sum, base, List.take_of_length_le (Nat.le_of_eq (lens_length _))]
  rw [h.base_eq (Nat.le_refl _), hall] at hle
  rw [(cloneBio_eq_some hc).2.2.1] at hm
  omega

/-- And it is filled from its place in the ramdisk. -/
theorem address (h : IsCloneOf data bio c) {m : Nat} {v : BioVec UInt64}
    (hv : c.biIoVec[m]? = some v) (hm : base (lens c.biIoVec) m < c.biSize.toNat) :
    v.bvPage = data + UInt64.ofNat (512 * c.biSector.toNat + base (lens c.biIoVec) m) := by
  have hlt := h.segment hm
  obtain ⟨rest, hrest⟩ := h.vecs
  obtain ⟨junk, hc⟩ := h.clone
  rw [hrest, List.getElem?_append_left hlt] at hv
  rw [h.base_eq (Nat.le_of_lt hlt), (cloneBio_eq_some hc).1]
  exact walked_getElem? hv

end IsCloneOf

/-! ## The invariant -/

/-- The clone the thread has taken out, with the pages filled so far. -/
def ThreadPc.reading (bio : ν → Clone) : ThreadPc ν → Option (Clone × List (BioVec (List UInt8)))
  | .deleted q => some (bio q, [])
  | .filling _ c done _ => some (c, done)
  | _ => none

/-- Where a submitter is in `vrd_make_request` and in the hook, with the clone of its request on the
way to the queue, or in place `i` among those that have entered. -/
inductive Joined (data : UInt64) (val : ν → Clone) (enqueued : List Clone) :
    Req P → SubmitterPc ν → Prop
  | rest : Joined data val enqueued .rest .rest
  | cloned (bio : Bio P) (c : Clone) (hc : IsCloneOf data bio c) :
      Joined data val enqueued (.hooking bio none) (.cloned c)
  | owned (bio : Bio P) (q : ν) (pc : SubmitterPc ν) (hown : pc.party.own = some q)
      (hc : IsCloneOf data bio (val q)) : Joined data val enqueued (.hooking bio none) pc
  | linked (bio : Bio P) (i : Nat) (c : Clone) (pc : SubmitterPc ν)
      (hpc : pc = .added ∨ pc = .left) (hi : enqueued[i]? = some c) (hc : IsCloneOf data bio c) :
      Joined data val enqueued (.hooking bio (some i)) pc
  | copying (bio : Bio P) (i : Nat) (c : Clone) (copied : Nat) (hi : enqueued[i]? = some c)
      (hc : IsCloneOf data bio c) :
      Joined data val enqueued (.copying bio (some i) copied ((walked data bio).drop copied)) .rest

/-- What the thread has read of the clone it took out last. -/
structure HasRead (taken : List Clone) (c : Clone) (done : List (BioVec (List UInt8))) : Prop where
  last : taken.getLast? = some c
  lens : lens done = (lens c.biIoVec).take done.length
  pages : ∀ v ∈ done, v.bvPage.length = v.bvLen.toNat

/-- A request whose segments are not all copied is ahead of the thread. -/
def Ahead (data : UInt64) (taken : List Clone)
    (reading : Option (Clone × List (BioVec (List UInt8)))) (r : Req P) : Prop :=
  ∀ i ∈ r.slot, r.left data ≠ [] → taken.length ≤ i ∨
    i + 1 = taken.length ∧ ∃ c done, reading = some (c, done) ∧ done.length ≤ r.copied

section Steps

variable [DecidableEq ν]

/-- **What holds of every state.** -/
structure Tied (b : Boot ν) (s : System ι ν P) : Prop where
  ordered : Ordered b (fun c => ∃ bio : Bio P, IsCloneOf b.data bio c) s.backup
  exit : s.backup.exit = .notCalled
  hook : s.backup.hook = true
  joined : ∀ k, Joined b.data s.backup.bio s.backup.enqueued (s.req k) (s.backup.submitter k)
  read : ∀ c done, s.backup.thread.reading s.backup.bio = some (c, done) →
    HasRead s.backup.taken c done
  rest : ∀ q c done todo, s.backup.thread = .filling q c done todo →
    c.biIoVec.drop done.length = todo
  ahead : ∀ k, Ahead b.data s.backup.taken (s.backup.thread.reading s.backup.bio) (s.req k)
  bound : ∀ e ∈ s.written, e.1 + e.2 < 2 ^ 64

/-! ## A step of the thread -/

/-- The thread has a clone in its hands. -/
def ThreadPc.busy : ThreadPc ν → Bool
  | .deleted _ | .filling _ _ _ _ | .waitingIo _ => true
  | _ => false

omit [DecidableEq ν] in
theorem reading_of_not_busy {pc : ThreadPc ν} (h : pc.busy = false) (bio : ν → Clone) :
    pc.reading bio = none := by
  cases pc <;> first | rfl | cases h

/-- What a step of the thread does to the clone in its hands, where no page fails to be filled. -/
inductive Turn (s : State ι ν) (o : Outcome) : State ι ν → Prop
  | idle (s' : State ι ν) (hthread : s.thread.busy = false) (hthread' : s'.thread.busy = false)
      (htaken : s'.taken = s.taken) : Turn s o s'
  | take (q : ν) (x : Store ν) (hpc : s.thread = .deleting q [x]) :
      Turn s o (State.threadAt { s with
        mem := s.mem.store x
        taken := s.taken ++ [s.bio q] } (.deleted q))
  | start (q : ν) (hpc : s.thread = .deleted q) :
      Turn s o (State.threadAt { s with qSemMutex := s.qSemMutex + 1 }
        (.filling q (s.bio q) [] (s.bio q).biIoVec))
  | fill (q : ν) (c : Clone) (done : List (BioVec (List UInt8))) (v : BioVec UInt64)
      (todo : List (BioVec UInt64)) (hpc : s.thread = .filling q c done (v :: todo)) :
      Turn s o (s.threadAt (.filling q c (done ++ [pageOf o v]) todo))
  | submit (q : ν) (c : Clone) (done : List (BioVec (List UInt8)))
      (hpc : s.thread = .filling q c done []) :
      Turn s o (State.threadAt { s with
        submitted := s.submitted ++ [(c, c.filled done)] } (.waitingIo q))
  | wait (q : ν) (hpc : s.thread = .waitingIo q) :
      Turn s o (s.threadAt (if o.complete then .freeing q else .waitingIo q))

/-- **A step of the thread** is one of these. -/
theorem threadStep_turn {s : State ι ν} {o : Outcome} (hfill : ¬ FillFails s o) :
    Turn s o (threadStep s o).1 := by
  have hidle : ∀ {pc pc' : ThreadPc ν}, s.thread = pc → (threadStep s o).1.thread = pc' →
      pc.busy = false → pc'.busy = false → (threadStep s o).1.taken = s.taken →
      Turn s o (threadStep s o).1 := fun hpc hpc' hbusy hbusy' htaken =>
    .idle _ (by rwa [hpc]) (by rwa [hpc']) htaken
  cases hpc : s.thread with
  | err | exited =>
    have heq : (threadStep s o).1 = s := by simp only [threadStep, hpc]
    exact hidle hpc (by rw [heq, hpc]) rfl rfl (by rw [heq])
  | start =>
    refine hidle hpc (by rw [threadStep_edge (Or.inl hpc)]) rfl ?_
      (by rw [threadStep_edge (Or.inl hpc)]; rfl)
    split <;> rfl
  | check =>
    refine hidle hpc (by rw [threadStep_edge (Or.inr hpc)]) rfl ?_
      (by rw [threadStep_edge (Or.inr hpc)]; rfl)
    split <;> rfl
  | loop =>
    by_cases hsem : 0 < s.qSemMutex
    · have heq := threadStep_enters hpc hsem o
      exact hidle hpc (by rw [heq]) rfl rfl (by rw [heq]; rfl)
    · have heq : (threadStep s o).1 = s := by simp only [threadStep, hpc, if_neg hsem]
      exact hidle hpc (by rw [heq, hpc]) rfl rfl (by rw [heq])
  | entered =>
    have heq : (threadStep s o).1 =
        s.threadAt (if s.mem.next s.queue = s.queue then .empty else .picking) := by
      simp only [threadStep, hpc]
    refine hidle hpc (by rw [heq]) rfl ?_ (by rw [heq]; rfl)
    split <;> rfl
  | waiting =>
    have heq : (threadStep s o).1 =
        s.threadAt (if s.bestioCondition ≠ 0 ∨ o.expired then .woken else .waiting) := by
      simp only [threadStep, hpc]
    refine hidle hpc (by rw [heq]) rfl ?_ (by rw [heq]; rfl)
    split <;> rfl
  | empty | woken | picking | freeing q =>
    exact hidle hpc (by simp only [threadStep, hpc]; rfl) rfl rfl
      (by simp only [threadStep, hpc]; rfl)
  | deleting q ss =>
    rcases ss with _ | ⟨x, _ | ⟨y, ss⟩⟩
    · have heq : (threadStep s o).1 = s := by simp only [threadStep, hpc]
      exact hidle hpc (by rw [heq, hpc]) rfl rfl (by rw [heq])
    · rw [threadStep_unlinked hpc]
      exact .take q x hpc
    · exact hidle hpc (by simp only [threadStep, hpc]; rfl) rfl rfl
        (by simp only [threadStep, hpc]; rfl)
  | deleted q =>
    rw [threadStep_deleted hpc]
    exact .start q hpc
  | filling q c done todo =>
    cases todo with
    | nil =>
      rw [threadStep_submits hpc]
      exact .submit q c done hpc
    | cons v todo =>
      cases hv : fillPage v o with
      | error msg => exact absurd ⟨q, c, done, v, todo, hpc, msg, hv⟩ hfill
      | ok page =>
        rw [threadStep_fills hpc hv, (fillPage_eq_ok.mp hv).2]
        exact .fill q c done v todo hpc
  | waitingIo q =>
    have heq : (threadStep s o).1 =
        s.threadAt (if o.complete then .freeing q else .waitingIo q) := by
      simp only [threadStep, hpc]
    rw [heq]
    exact .wait q hpc

/-! ## What the invariant says -/

theorem prefix_getElem? {α : Type} {xs ys : List α} (h : xs <+: ys) {i : Nat} {a : α}
    (hi : xs[i]? = some a) : ys[i]? = some a := by
  obtain ⟨zs, rfl⟩ := h
  rw [List.getElem?_append_left (List.getElem?_eq_some_iff.mp hi).1]
  exact hi

omit [DecidableEq ν] in
theorem Joined.mono {data : UInt64} {val val' : ν → Clone} {enqueued enqueued' : List Clone}
    {r : Req P} {pc : SubmitterPc ν} (h : Joined data val enqueued r pc)
    (hval : ∀ q, pc.party.own = some q → val' q = val q) (henq : enqueued <+: enqueued') :
    Joined data val' enqueued' r pc := by
  cases h with
  | rest => exact .rest
  | cloned bio c hc => exact .cloned bio c hc
  | owned bio q pc hown hc => exact .owned bio q pc hown (by rwa [hval q hown])
  | linked bio i c pc hpc hi hc => exact .linked bio i c pc hpc (prefix_getElem? henq hi) hc
  | copying bio i c copied hi hc => exact .copying bio i c copied (prefix_getElem? henq hi) hc

omit [DecidableEq ν] in
/-- A clone in the queue, and what its request has left to copy. -/
theorem Joined.of_slot {data : UInt64} {val : ν → Clone} {enqueued : List Clone} {r : Req P}
    {pc : SubmitterPc ν} (h : Joined data val enqueued r pc) {i : Nat} (hi : i ∈ r.slot) :
    ∃ (bio : Bio P) (c : Clone), enqueued[i]? = some c ∧ IsCloneOf data bio c ∧
      r.left data = (walked data bio).drop r.copied := by
  cases h with
  | rest => cases hi
  | cloned bio c hc => cases hi
  | owned bio q pc hown hc => cases hi
  | linked bio j c pc hpc hj hc =>
    cases hi
    exact ⟨bio, c, hj, hc, rfl⟩
  | copying bio j c copied hj hc =>
    cases hi
    exact ⟨bio, c, hj, hc, rfl⟩

namespace Tied

variable {b : Boot ν} {s : System ι ν P}

theorem inv (h : Tied b s) :
    ∃ xs, Inv (fun c => ∃ bio : Bio P, IsCloneOf b.data bio c) s.backup.view xs :=
  h.ordered.inv (by rw [h.exit]; rfl)

/-- What was taken out entered first. -/
theorem taken_first (h : Tied b s) : s.backup.taken <+: s.backup.enqueued := by
  obtain ⟨xs, hi⟩ := h.inv
  exact ⟨_, hi.order.symm⟩

/-- A party's own node is in use. -/
theorem own_used (h : Tied b s) {p : Option ι} {q : ν}
    (hq : (parties s.backup.submitter s.backup.thread p).own = some q) :
    s.backup.used q = true := by
  obtain ⟨xs, hi⟩ := h.inv
  exact hi.owns.own_used p q hq

/-- The clone in the thread's hands is that of a request. -/
theorem read_good (h : Tied b s) {c : Clone} {done : List (BioVec (List UInt8))}
    (hread : s.backup.thread.reading s.backup.bio = some (c, done)) :
    ∃ bio : Bio P, IsCloneOf b.data bio c := by
  obtain ⟨xs, hi⟩ := h.inv
  have hmem := List.mem_of_getLast? (h.read c done hread).last
  exact hi.good c (h.taken_first.subset hmem)

/-- The clone taken out last is the one with the last number. -/
theorem read_slot (h : Tied b s) {c c' : Clone} {done : List (BioVec (List UInt8))} {i : Nat}
    (hread : s.backup.thread.reading s.backup.bio = some (c, done))
    (hi : i + 1 = s.backup.taken.length) (hc' : s.backup.enqueued[i]? = some c') : c' = c := by
  have hlast := (h.read c done hread).last
  rw [List.getLast?_eq_getElem?, ← hi, Nat.add_sub_cancel] at hlast
  exact Option.some.inj (hc'.symm.trans (prefix_getElem? h.taken_first hlast))

/-- The bytes read so far are those of the first vectors. -/
theorem read_sum (h : Tied b s) {c : Clone} {done : List (BioVec (List UInt8))}
    (hread : s.backup.thread.reading s.backup.bio = some (c, done)) :
    (lens done).sum = base (lens c.biIoVec) done.length :=
  congrArg List.sum (h.read c done hread).lens

end Tied

variable [DecidableEq ι]

omit [DecidableEq ν] in
/-- One request goes on, the others are where they were. -/
theorem joined_update {data : UInt64} {val : ν → Clone} {enqueued : List Clone}
    {req : ι → Req P} {submitter : ι → SubmitterPc ν} {k : ι} {r : Req P}
    (hk : Joined data val enqueued r (submitter k))
    (h : ∀ k' ≠ k, Joined data val enqueued (req k') (submitter k')) (k' : ι) :
    Joined data val enqueued (Function.update req k r k') (submitter k') :=
  (Function.forall_update_iff req fun k' r => Joined data val enqueued r (submitter k')).mpr
    ⟨hk, h⟩ k'

omit [DecidableEq ν] in
theorem ahead_update {data : UInt64} {taken : List Clone}
    {reading : Option (Clone × List (BioVec (List UInt8)))} {req : ι → Req P} {k : ι} {r : Req P}
    (hk : Ahead data taken reading r) (h : ∀ k', Ahead data taken reading (req k')) (k' : ι) :
    Ahead data taken reading (Function.update req k r k') :=
  (Function.forall_update_iff req fun _ r => Ahead data taken reading r).mpr
    ⟨hk, fun k' _ => h k'⟩ k'

/-! ## A step of the hook -/

/-- What a step of the hook does to the request: nothing, its clone enters the queue, or it is the
last. -/
inductive HookTurn (data : UInt64) (s : System ι ν P) (k : ι) (enqueued' : List Clone) :
    Req P → Prop
  | stay : HookTurn data s k enqueued' (s.req k)
  | link (bio : Bio P) (c : Clone) (hreq : s.req k = .hooking bio none)
      (hc : IsCloneOf data bio c) (henq : enqueued' = s.backup.enqueued ++ [c]) :
      HookTurn data s k enqueued' (.hooking bio (some s.backup.enqueued.length))
  | leave (bio : Bio P) (i : Nat) (hreq : s.req k = .hooking bio (some i)) :
      HookTurn data s k enqueued' (.copying bio (some i) 0 (walked data bio))

theorem hookStep_backup (s : System ι ν P) (k : ι) (node : ν) :
    (hookStep s k node).backup = submitterStep s.backup k node := by
  unfold hookStep
  split <;> rfl

theorem hookStep_frame (s : System ι ν P) (k : ι) (node : ν) :
    (hookStep s k node).memory = s.memory ∧ (hookStep s k node).device = s.device ∧
      (hookStep s k node).written = s.written := by
  unfold hookStep
  split <;> exact ⟨rfl, rfl, rfl⟩

/-- **A step of the hook** is one of these, and keeps the request and the hook together. -/
theorem hookStep_turn {b : Boot ν} {s : System ι ν P} (h : Tied b s) (k : ι) (node : ν) :
    ∃ r, (hookStep s k node).req = Function.update s.req k r ∧
      HookTurn b.data s k (submitterStep s.backup k node).enqueued r ∧
      Joined b.data (submitterStep s.backup k node).bio (submitterStep s.backup k node).enqueued r
        ((submitterStep s.backup k node).submitter k) := by
  have hjoined := h.joined k
  have hsame : Function.update s.req k (s.req k) = s.req := Function.update_eq_self k s.req
  generalize hr : s.req k = r at hjoined
  generalize hp : s.backup.submitter k = pc at hjoined
  cases hjoined with
  | rest =>
    have hstep : submitterStep s.backup k node = s.backup := by simp only [submitterStep, hp]
    refine ⟨s.req k, ?_, .stay, ?_⟩
    · rw [hsame]
      simp only [hookStep, hr]
    · rw [hstep, hr, hp]
      exact .rest
  | copying bio i c copied hi hc =>
    have hstep : submitterStep s.backup k node = s.backup := by simp only [submitterStep, hp]
    refine ⟨s.req k, ?_, .stay, ?_⟩
    · rw [hsame]
      simp only [hookStep, hr]
    · rw [hstep, hr, hp]
      exact .copying bio i c copied hi hc
  | cloned bio c hc =>
    refine ⟨s.req k, by simp only [hookStep, hr, hp], .stay, ?_⟩
    rw [hr]
    by_cases hused : s.backup.used node = true
    · simp only [submitterStep, hp, if_pos hused]
      exact .cloned bio c hc
    · simp only [submitterStep, hp, if_neg hused, at_submitter_self]
      refine .owned bio node _ rfl ?_
      show IsCloneOf b.data bio (Function.update s.backup.bio node c node)
      rwa [Function.update_self]
  | owned bio q pc hown hc =>
    have hstay : submitterStep s.backup k node = s.backup → ∃ r,
        Function.update s.req k (.hooking bio none) = Function.update s.req k r ∧
          HookTurn b.data s k (submitterStep s.backup k node).enqueued r ∧
          Joined b.data (submitterStep s.backup k node).bio
            (submitterStep s.backup k node).enqueued r
            ((submitterStep s.backup k node).submitter k) := fun hstep =>
      ⟨s.req k, by rw [hr], .stay, by rw [hstep, hr, hp]; exact .owned bio q _ hown hc⟩
    cases pc with
    | allocated q' =>
      by_cases hsem : 0 < s.backup.qSemMutex
      · refine ⟨s.req k, by simp only [hookStep, hr, hp], .stay, ?_⟩
        simp only [submitterStep, hp, if_pos hsem, at_submitter_self, hr]
        exact .owned bio q _ hown hc
      · simp only [hookStep, hr, hp]
        exact hstay (by simp only [submitterStep, hp, if_neg hsem])
    | entered q' =>
      refine ⟨s.req k, by simp only [hookStep, hr, hp], .stay, ?_⟩
      simp only [submitterStep, hp, at_submitter_self, hr]
      exact .owned bio q _ hown hc
    | adding q' ss =>
      obtain rfl : q' = q := Option.some.inj hown
      rcases ss with _ | ⟨x, _ | ⟨y, ss⟩⟩
      · simp only [hookStep, hr, hp]
        exact hstay (by simp only [submitterStep, hp])
      · have henq : (submitterStep s.backup k node).enqueued =
            s.backup.enqueued ++ [s.backup.bio q'] := by
          simp only [submitterStep, hp]
          rfl
        refine ⟨_, by simp only [hookStep, hr, hp], .link bio _ hr hc henq, ?_⟩
        rw [henq]
        refine .linked bio _ (s.backup.bio q') _ (Or.inl ?_) (by simp) hc
        simp only [submitterStep, hp, at_submitter_self]
      · refine ⟨s.req k, by simp only [hookStep, hr, hp], .stay, ?_⟩
        simp only [submitterStep, hp, at_submitter_self, hr]
        exact .owned bio q' _ rfl hc
    | _ => cases hown
  | linked bio i c pc hpc hi hc =>
    rcases hpc with rfl | rfl
    · refine ⟨s.req k, by simp only [hookStep, hr, hp], .stay, ?_⟩
      simp only [submitterStep, hp, at_submitter_self, hr]
      exact .linked bio i c _ (Or.inr rfl) hi hc
    · refine ⟨.copying bio (some i) 0 (walked b.data bio), ?_, .leave bio i hr, ?_⟩
      · simp only [hookStep, hr, hp, h.ordered.data]
      · simp only [submitterStep, hp, at_submitter_self]
        exact .copying bio i c 0 hi hc

/-- The others are where they were. -/
theorem submitterStep_ne (s : State ι ν) {k k' : ι} (hk : k' ≠ k) (node : ν) :
    (submitterStep s k node).submitter k' = s.submitter k' := by
  unfold submitterStep
  repeat' split
  all_goals first
    | rfl
    | exact at_submitter_ne _ hk _

theorem submitterStep_hook (s : State ι ν) (k : ι) (node : ν) :
    (submitterStep s k node).hook = s.hook := by
  unfold submitterStep
  repeat' split
  all_goals rfl

theorem submitterStep_entered (s : State ι ν) (k : ι) (node : ν) :
    s.enqueued <+: (submitterStep s k node).enqueued := by
  rcases submitterStep_enqueued s k node with ⟨_, _, _, henq⟩ | ⟨_, henq⟩
  · exact henq ▸ List.prefix_append _ _
  · exact henq ▸ List.prefix_rfl

/-- What a submitter does leaves the clone in the thread's hands alone. -/
theorem submitterStep_reading {b : Boot ν} {s : System ι ν P} (h : Tied b s) (k : ι) (node : ν) :
    (submitterStep s.backup k node).thread.reading (submitterStep s.backup k node).bio =
      s.backup.thread.reading s.backup.bio := by
  rw [(submitterStep_frame s.backup k node).thread]
  cases hpc : s.backup.thread with
  | deleted q =>
    have hused : s.backup.used q = true :=
      h.own_used (p := none) (congrArg (fun pc : ThreadPc ν => pc.party.own) hpc)
    exact congrArg (fun c => some (c, [])) (submitterStep_bio hused)
  | _ => rfl

omit [DecidableEq ι] in
/-- The request after a step of the hook is as far ahead as it was. -/
theorem HookTurn.ahead {b : Boot ν} {s : System ι ν P} {k : ι} {enqueued' : List Clone} {r : Req P}
    (h : HookTurn b.data s k enqueued' r) (hs : Tied b s) :
    Ahead b.data s.backup.taken (s.backup.thread.reading s.backup.bio) r := by
  have hahead := hs.ahead k
  cases h with
  | stay => exact hahead
  | link bio c hreq hc henq =>
    rintro i hi -
    obtain rfl : s.backup.enqueued.length = i := Option.some.inj hi
    exact Or.inl hs.taken_first.length_le
  | leave bio i hreq =>
    rw [hreq] at hahead
    exact hahead

theorem hookStep_tied {b : Boot ν} {s : System ι ν P} (h : Tied b s) (k : ι) (node : ν) :
    Tied b (hookStep s k node) := by
  have hframe := submitterStep_frame s.backup k node
  have hreading := submitterStep_reading h k node
  obtain ⟨r, hreq, hturn, hjoined⟩ := hookStep_turn h k node
  have hbackup := hookStep_backup s k node
  obtain ⟨-, -, hwritten⟩ := hookStep_frame s k node
  constructor
  · rw [hbackup]
    exact step_ordered h.ordered (a := (.submitter k node : Act ι ν P))
      fun _ _ _ _ hcall => (by cases hcall)
  · rw [hbackup, hframe.exit, h.exit]
  · rw [hbackup, submitterStep_hook, h.hook]
  · rw [hbackup, hreq]
    refine joined_update hjoined fun k' hk => ?_
    rw [submitterStep_ne s.backup hk]
    exact (h.joined k').mono (fun q hq => submitterStep_bio (h.own_used (p := some k') hq))
      (submitterStep_entered s.backup k node)
  · rw [hbackup, hreading, hframe.taken]
    exact h.read
  · rw [hbackup, hframe.thread]
    exact h.rest
  · rw [hbackup, hreading, hframe.taken, hreq]
    exact ahead_update (hturn.ahead h) h.ahead
  · rw [hwritten]
    exact h.bound

/-! ## A request -/

/-- **A request that is let through**: the hook clones it. -/
theorem vrdMakeRequest_eq {b : Boot ν} {s : System ι ν P} (h : Tied b s) {k : ι} {bio : Bio P}
    (hv : bio.Valid) (junk : Nat → BioVec UInt64) :
    vrdMakeRequest s k bio junk = s ∨ s.req k = .rest ∧ ∃ c, cloneBio b.data junk bio = some c ∧
      bestioBackupBio s.backup k bio junk = s.backup.at k (.cloned c) ∧
      vrdMakeRequest s k bio junk = { s with
        backup := s.backup.at k (.cloned c)
        written := s.written ++ [(512 * bio.biSector.toNat, bio.biSize.toNat)]
        req := Function.update s.req k (.hooking bio none) } := by
  cases hr : s.req k with
  | hooking | copying => exact Or.inl (by simp only [vrdMakeRequest, hr])
  | rest =>
    have hp : s.backup.submitter k = .rest := by
      have hjoined := h.joined k
      rw [hr] at hjoined
      generalize s.backup.submitter k = pc at hjoined
      cases hjoined
      rfl
    by_cases hsize : bio.biSector * 512 + bio.biSize.toUInt64 > s.size
    · exact Or.inl (by simp only [vrdMakeRequest, hr, if_pos hsize])
    · have hle : bio.segments.length ≤ bio.biVcnt.toNat := by
        rw [← hv.vcnt]
        exact le_trans (segments_length bio) (Nat.sub_le _ _)
      obtain ⟨c, hc⟩ : ∃ c, cloneBio b.data junk bio = some c := exists_cloneBio_iff.mpr hle
      have hhook : bestioBackupBio s.backup k bio junk = s.backup.at k (.cloned c) := by
        simp only [bestioBackupBio, hp, if_pos (And.intro h.hook hv.write), h.ordered.data, hc]
      refine Or.inr ⟨rfl, c, hc, hhook, ?_⟩
      simp only [vrdMakeRequest, hr, if_neg hsize, hhook, at_submitter_self]

theorem request_tied {b : Boot ν} {s : System ι ν P} (h : Tied b s) (k : ι) {bio : Bio P}
    (hv : bio.Valid) (hw : bio.Whole) (junk : Nat → BioVec UInt64) :
    Tied b (vrdMakeRequest s k bio junk) := by
  rcases vrdMakeRequest_eq h (k := k) hv junk with heq | ⟨hrest, c, hc, hhook, heq⟩
  · rwa [heq]
  · have hclone : IsCloneOf b.data bio c := ⟨hv, hw, junk, hc⟩
    rw [heq]
    refine ⟨?_, h.exit, h.hook, joined_update ?_ fun k' hk => ?_, h.read, h.rest,
      ahead_update (fun i hi => ?_) h.ahead, fun e he => ?_⟩
    · show Ordered b _ (s.backup.at k (.cloned c))
      rw [← hhook]
      refine step_ordered h.ordered (a := .call k bio junk) ?_
      intro k' bio' junk' c' hcall _ hc'
      cases hcall
      exact ⟨bio, hv, hw, junk, hc'⟩
    · rw [at_submitter_self]
      exact .cloned bio c hclone
    · rw [at_submitter_ne _ hk]
      exact h.joined k'
    · cases hi
    · rcases List.mem_append.mp he with he | he
      · exact h.bound e he
      · rw [List.mem_singleton.mp he]
        exact hw.bound

/-! ## Copying -/

/-- A request goes on, and the memory changes. -/
theorem Tied.copied {b : Boot ν} {s : System ι ν P} (h : Tied b s) {k : ι} {r : Req P}
    (memory : UInt64 → UInt8)
    (hjoined : Joined b.data s.backup.bio s.backup.enqueued r (s.backup.submitter k))
    (hahead : Ahead b.data s.backup.taken (s.backup.thread.reading s.backup.bio) r) :
    Tied b { s with memory := memory, req := Function.update s.req k r } := by
  exact ⟨h.ordered, h.exit, h.hook, joined_update hjoined fun k' _ => h.joined k', h.read, h.rest,
    ahead_update hahead h.ahead, h.bound⟩

omit [DecidableEq ι] in
/-- A request in the loop: its clone is in the queue, and the segments not copied are left. -/
theorem Tied.copying {b : Boot ν} {s : System ι ν P} (h : Tied b s) {k : ι} {bio : Bio P}
    {slot : Option Nat} {copied : Nat} {todo : List (BioVec UInt64)}
    (hr : s.req k = .copying bio slot copied todo) :
    ∃ i c, slot = some i ∧ s.backup.enqueued[i]? = some c ∧ IsCloneOf b.data bio c ∧
      todo = (walked b.data bio).drop copied ∧ s.backup.submitter k = .rest := by
  have hjoined := h.joined k
  rw [hr] at hjoined
  generalize s.backup.submitter k = pc at hjoined
  cases hjoined with
  | copying _ i c _ hi hc => exact ⟨i, c, rfl, hi, hc, rfl, rfl⟩

theorem copyStep_tied {b : Boot ν} {s : System ι ν P} (h : Tied b s) (k : ι) (page : Nat → UInt8) :
    Tied b (copyStep s k page) := by
  cases hr : s.req k with
  | rest | hooking =>
    simp only [copyStep, hr]
    exact h
  | copying bio slot copied todo =>
    obtain ⟨i, c, rfl, hi, hc, htodo, hp⟩ := h.copying hr
    have hahead := h.ahead k
    rw [hr] at hahead
    cases todo with
    | nil =>
      simp only [copyStep, hr]
      refine h.copied s.memory ?_ fun i hi => by cases hi
      rw [hp]
      exact .rest
    | cons v todo =>
      simp only [copyStep, hr]
      have hrest : todo = (walked b.data bio).drop (copied + 1) := by
        rw [← List.tail_drop, ← htodo]
        rfl
      refine h.copied _ ?_ fun j hj hne => ?_
      · rw [hp, hrest]
        exact .copying bio i c (copied + 1) hi hc
      · rcases hahead j hj (List.cons_ne_nil v todo) with hle | ⟨hlast, c', done, hread, hdone⟩
        · exact Or.inl hle
        · exact Or.inr ⟨hlast, c', done, hread, Nat.le_succ_of_le hdone⟩

/-! ## The thread -/

omit [DecidableEq ι] in
/-- A request that has segments left is behind none of the pages. -/
theorem Tied.left_of_reading {b : Boot ν} {s : System ι ν P} (h : Tied b s) {k : ι} {i : Nat}
    (hi : i ∈ (s.req k).slot) (hlast : i + 1 = s.backup.taken.length) {c : Clone}
    {done : List (BioVec (List UInt8))}
    (hread : s.backup.thread.reading s.backup.bio = some (c, done)) :
    ∃ bio : Bio P, IsCloneOf b.data bio c ∧
      (s.req k).left b.data = (walked b.data bio).drop (s.req k).copied := by
  obtain ⟨bio, c', hc', hclone, hleft⟩ := (h.joined k).of_slot hi
  obtain rfl := h.read_slot hread hlast hc'
  exact ⟨bio, hclone, hleft⟩

omit [DecidableEq ι] [DecidableEq ν] in
/-- Taking a clone out: its request is the one that was next. -/
theorem Ahead.take {data : UInt64} {taken : List Clone} {c : Clone} {r : Req P}
    (h : Ahead data taken none r) : Ahead data (taken ++ [c]) (some (c, [])) r := by
  intro i hi hne
  rw [List.length_append, List.length_singleton]
  rcases h i hi hne with hle | ⟨-, c', done, hread, -⟩
  · rcases Nat.lt_or_eq_of_le hle with hlt | rfl
    · exact Or.inl hlt
    · exact Or.inr ⟨rfl, c, [], rfl, Nat.zero_le _⟩
  · cases hread

omit [DecidableEq ι] in
/-- Filling a page, where the thread is not too early: its segment is copied. -/
theorem Tied.ahead_fill {b : Boot ν} {s : System ι ν P} (h : Tied b s) (hearly : ¬ TooEarly s)
    {q : ν} {c : Clone} {done : List (BioVec (List UInt8))} {v : BioVec UInt64}
    {todo : List (BioVec UInt64)} (hpc : s.backup.thread = .filling q c done (v :: todo)) (k : ι)
    (page : BioVec (List UInt8)) :
    Ahead b.data s.backup.taken (some (c, done ++ [page])) (s.req k) := by
  intro i hi hne
  have hread : s.backup.thread.reading s.backup.bio = some (c, done) := by rw [hpc]; rfl
  rcases h.ahead k i hi hne with hle | ⟨hlast, c', done', hread', hdone⟩
  · exact Or.inl hle
  · cases hread.symm.trans hread'
    refine Or.inr ⟨hlast, c, _, rfl, ?_⟩
    have hpage : done.length ∈ s.backup.thread.page := by rw [hpc]; rfl
    have hleft := List.length_pos_iff.mpr hne
    rw [List.length_append, List.length_singleton]
    by_contra hge
    refine hearly ⟨done.length, hpage, k, i, hi, hlast, by omega, ?_⟩
    rw [h.ordered.data]
    omega

omit [DecidableEq ι] in
/-- Once all pages are filled, all segments are copied. -/
theorem Tied.ahead_submit {b : Boot ν} {s : System ι ν P} (h : Tied b s) {q : ν} {c : Clone}
    {done : List (BioVec (List UInt8))} (hpc : s.backup.thread = .filling q c done []) (k : ι) :
    Ahead b.data s.backup.taken none (s.req k) := by
  intro i hi hne
  have hread : s.backup.thread.reading s.backup.bio = some (c, done) := by rw [hpc]; rfl
  rcases h.ahead k i hi hne with hle | ⟨hlast, c', done', hread', hdone⟩
  · exact Or.inl hle
  · cases hread.symm.trans hread'
    obtain ⟨bio, hclone, hleft⟩ := h.left_of_reading hi hlast hread
    obtain ⟨rest, hvecs⟩ := hclone.vecs
    have hall := congrArg List.length (h.rest q c done [] hpc)
    rw [hvecs, List.length_drop, List.length_append, List.length_nil] at hall
    have hpos := List.length_pos_iff.mpr hne
    rw [hleft, List.length_drop] at hpos
    omega

omit [DecidableEq ι] in
/-- A page that is filled. -/
theorem Tied.read_fill {b : Boot ν} {s : System ι ν P} (h : Tied b s) {q : ν} {c : Clone}
    {done : List (BioVec (List UInt8))} {v : BioVec UInt64} {todo : List (BioVec UInt64)}
    (hpc : s.backup.thread = .filling q c done (v :: todo)) (o : Outcome) :
    HasRead s.backup.taken c (done ++ [pageOf o v]) ∧
      c.biIoVec.drop (done ++ [pageOf o v]).length = todo := by
  have hread := h.read c done (by rw [hpc]; rfl)
  have hrest := h.rest q c done (v :: todo) hpc
  rw [List.length_append, List.length_singleton]
  refine ⟨⟨hread.last, ?_, fun w hw => ?_⟩, ?_⟩
  · have hlt : done.length < (lens c.biIoVec).length := by
      rw [lens_length]
      by_contra hge
      rw [List.drop_of_length_le (Nat.le_of_not_lt hge)] at hrest
      cases hrest
    have hv : (lens c.biIoVec)[done.length] = v.bvLen.toNat := by
      have hget : c.biIoVec[done.length]? = some v := by
        rw [← List.head?_drop, hrest]
        rfl
      obtain ⟨_, hget'⟩ := List.getElem?_eq_some_iff.mp hget
      simp [lens, hget']
    rw [lens_append, hread.lens, List.length_append, List.length_singleton,
      List.take_succ_eq_append_getElem hlt, hv]
    rfl
  · rcases List.mem_append.mp hw with hw | hw
    · exact hread.pages w hw
    · rw [List.mem_singleton.mp hw]
      exact readMemory_length _ _ _
  · rw [← List.tail_drop, hrest]
    rfl

omit [DecidableEq ι] in
/-- **What a turn of the thread leaves**, where it is not too early. -/
theorem Turn.reads {b : Boot ν} {s : System ι ν P} {o : Outcome} {t : State ι ν}
    (hturn : Turn s.backup o t) (h : Tied b s) (hearly : ¬ TooEarly s) :
    (∀ c done, t.thread.reading s.backup.bio = some (c, done) → HasRead t.taken c done) ∧
      (∀ q c done todo, t.thread = .filling q c done todo → c.biIoVec.drop done.length = todo) ∧
      ∀ k, Ahead b.data t.taken (t.thread.reading s.backup.bio) (s.req k) := by
  have hread := h.read
  have hahead := h.ahead
  cases hturn with
  | idle _ hthread hthread' htaken =>
    rw [reading_of_not_busy hthread] at hahead
    rw [reading_of_not_busy hthread', htaken]
    refine ⟨fun c done hnone => (by cases hnone), fun q c done todo hpc => ?_, hahead⟩
    rw [hpc] at hthread'
    cases hthread'
  | take q x hpc =>
    rw [hpc] at hahead
    refine ⟨fun c done hsome => ?_, fun q c done todo h => (by cases h), fun k => (hahead k).take⟩
    cases hsome
    exact ⟨List.getLast?_concat, rfl, fun w hw => absurd hw List.not_mem_nil⟩
  | start q hpc =>
    rw [hpc] at hread hahead
    refine ⟨hread, fun q' c done todo hfill => ?_, hahead⟩
    cases hfill
    rfl
  | fill q c done v todo hpc =>
    obtain ⟨hread', hrest'⟩ := h.read_fill hpc o
    refine ⟨fun c' done' hsome => ?_, fun q' c' done' todo' hfill => ?_,
      fun k => h.ahead_fill hearly hpc k _⟩
    · cases hsome
      exact hread'
    · cases hfill
      exact hrest'
  | submit q c done hpc =>
    exact ⟨fun c done hnone => (by cases hnone), fun q c done todo hpc => (by cases hpc),
      fun k => h.ahead_submit hpc k⟩
  | wait q hpc =>
    rw [hpc] at hahead
    cases o.complete with
    | true =>
      exact ⟨fun c done hnone => (by cases hnone), fun q c done todo hpc => (by cases hpc), hahead⟩
    | false =>
      exact ⟨fun c done hnone => (by cases hnone), fun q c done todo hpc => (by cases hpc), hahead⟩

omit [DecidableEq ι] in
theorem threadStep_hook (s : State ι ν) (o : Outcome) : (threadStep s o).1.hook = s.hook := by
  unfold threadStep
  repeat' split
  all_goals rfl

theorem threadTurn_tied {b : Boot ν} {s : System ι ν P} (h : Tied b s) {o : Outcome}
    (hfill : ¬ FillFails s.backup { o with memory := s.memory }) (hearly : ¬ TooEarly s) :
    Tied b (threadTurn s o) := by
  have hframe := threadStep_frame s.backup { o with memory := s.memory }
  obtain ⟨hread, hrest, hahead⟩ := (threadStep_turn hfill).reads h hearly
  have hordered : Ordered b _ (threadTurn s o).backup :=
    step_ordered h.ordered (a := (.thread { o with memory := s.memory } : Act ι ν P))
      fun _ _ _ _ hcall => (by cases hcall)
  refine ⟨hordered, hframe.exit.trans h.exit, (threadStep_hook _ _).trans h.hook, fun k => ?_, ?_,
    hrest, ?_, h.bound⟩
  · show Joined _ (threadStep _ _).1.bio (threadStep _ _).1.enqueued (s.req k)
      ((threadStep _ _).1.submitter k)
    rw [hframe.bio, hframe.enqueued, hframe.submitter]
    exact h.joined k
  · rw [← hframe.bio] at hread
    exact hread
  · rw [← hframe.bio] at hahead
    exact hahead

end Steps

end JcmController.Backup
