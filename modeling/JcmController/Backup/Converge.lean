import Mathlib.Data.Fintype.Basic
import JcmController.Backup.Tied
import JcmController.Lib.Mirror

/-!
# When the backup converges

Each byte of the ramdisk has one on the backup device. A write announces its bytes when its hook is
called; they are pending while the clone is on its way to the queue, in it, or in the thread's hands
with their page not filled. The pair is a `Mirror`: the source changes where a segment is copied,
the copy where a page is filled.

Results:
* `request_step`, `hookStep_step`, `copyStep_step`, `Turn.step`: every safe step is one of the
  mirror's.
* **`backup_converges`**: a run whose steps are all safe has converged whenever it is quiet.
* `backup_stale`: a run that is quiet and has not converged, of one write of one sector.
-/

namespace JcmController.Backup

open JcmController.Lib JcmController.Lib.Concat
open JcmController.Lib.ListHead JcmController.Lib.LockedQueue

variable {ι ν P : Type}

/-! ## The mirror -/

/-- The bytes of these pages that the clone carries. -/
def carriedBy (c : Clone) (done : List (BioVec (List UInt8))) : List UInt8 :=
  (done.flatMap BioVec.bvPage).take c.biSize.toNat

/-- The device once what the thread has read is on it. -/
def System.onItsWay (s : System ι ν P) : Nat → UInt8 :=
  match s.backup.thread with
  | .filling _ c done _ => Flat.write s.device (512 * c.biSector.toNat) (carriedBy c done)
  | .waitingIo _ => s.delivered
  | _ => s.device

/-- The byte is that of a write whose clone is not in the queue yet. -/
def Hooking (req : ι → Req P) (x : Nat) : Prop :=
  ∃ k bio, req k = .hooking bio none ∧ bio.Covers x

/-- The byte is that of a clone that entered the queue and was not taken out. -/
def Queued (s : State ι ν) (x : Nat) : Prop :=
  ∃ c ∈ s.enqueued.drop s.taken.length, c.Covers x

/-- The byte is in a page that the thread has not filled. -/
def Reading (s : State ι ν) (x : Nat) : Prop :=
  ∃ c done, s.thread.reading s.bio = some (c, done) ∧ c.Covers x ∧
    512 * c.biSector.toNat + (lens done).sum ≤ x

/-- The ramdisk and the device. -/
def System.mirror (data : UInt64) (s : System ι ν P) : Mirror Nat UInt8 where
  source x := s.memory (data + UInt64.ofNat x)
  copy := s.onItsWay
  announced := { x | ∃ e ∈ s.written, e.1 ≤ x ∧ x < e.1 + e.2 }
  pending := { x | Hooking s.req x ∨ Queued s.backup x ∨ Reading s.backup x }

section Steps

variable [DecidableEq ν] [DecidableEq ι]

/-! ## What is pending -/

omit [DecidableEq ν] [DecidableEq ι] in
theorem onItsWay_congr {s s' : System ι ν P} (hthread : s'.backup.thread = s.backup.thread)
    (hsubmitted : s'.backup.submitted = s.backup.submitted) (hdevice : s'.device = s.device) :
    s'.onItsWay = s.onItsWay := by
  unfold System.onItsWay System.delivered
  rw [hthread, hsubmitted, hdevice]

omit [DecidableEq ν] in
/-- Where one request goes on, the others are where they were. -/
theorem Hooking.update {req : ι → Req P} {x : Nat} (h : Hooking req x) (k : ι) (r : Req P) :
    Hooking (Function.update req k r) x ∨ ∃ bio, req k = .hooking bio none ∧ bio.Covers x := by
  obtain ⟨k', bio, hk', hx⟩ := h
  by_cases hk : k' = k
  · subst hk
    exact Or.inr ⟨bio, hk', hx⟩
  · exact Or.inl ⟨k', bio, by rw [Function.update_of_ne hk, hk'], hx⟩

omit [DecidableEq ν] in
theorem Hooking.self (req : ι → Req P) (k : ι) {bio : Bio P} {x : Nat} (hx : bio.Covers x) :
    Hooking (Function.update req k (.hooking bio none)) x :=
  ⟨k, bio, Function.update_self _ _ _, hx⟩

omit [DecidableEq ν] [DecidableEq ι] in
theorem queued_of_getElem? {s : State ι ν} {i : Nat} {c : Clone} {x : Nat}
    (hi : s.enqueued[i]? = some c) (hle : s.taken.length ≤ i) (hx : c.Covers x) : Queued s x := by
  refine ⟨c, List.mem_of_getElem? (i := i - s.taken.length) ?_, hx⟩
  rw [List.getElem?_drop, Nat.add_sub_cancel' hle]
  exact hi

omit [DecidableEq ν] [DecidableEq ι] in
theorem Queued.mono {s s' : State ι ν} {x : Nat} (h : Queued s x) (htaken : s'.taken = s.taken)
    (henq : s.enqueued <+: s'.enqueued) : Queued s' x := by
  obtain ⟨c, hc, hx⟩ := h
  refine ⟨c, ?_, hx⟩
  rw [htaken]
  exact (henq.drop _).subset hc

omit [DecidableEq ν] [DecidableEq ι] in
theorem Reading.congr {s s' : State ι ν} {x : Nat} (h : Reading s x)
    (hreading : s'.thread.reading s'.bio = s.thread.reading s.bio) : Reading s' x := by
  unfold Reading
  rw [hreading]
  exact h

omit [DecidableEq ι] [DecidableEq ν] in
theorem onItsWay_of_not_busy {s : System ι ν P} (h : s.backup.thread.busy = false) :
    s.onItsWay = s.device := by
  unfold System.onItsWay
  cases hpc : s.backup.thread <;> first | rfl | (rw [hpc] at h; cases h)

/-! ## A request and its hook -/

/-- **A request** announces its bytes. -/
theorem request_step {b : Boot ν} {s : System ι ν P} (h : Tied b s) (k : ι) {bio : Bio P}
    (hv : bio.Valid) (junk : Nat → BioVec UInt64) :
    Mirror.Step (s.mirror b.data) ((vrdMakeRequest s k bio junk).mirror b.data) := by
  rcases vrdMakeRequest_eq h (k := k) hv junk with heq | ⟨hrest, c, hc, hhook, heq⟩
  · rw [heq]
    exact .rest rfl rfl rfl subset_rfl
  · rw [heq]
    refine .announce { x | bio.Covers x } rfl rfl ?_ ?_
    · ext x
      simp [System.mirror, Bio.Covers, or_and_right, exists_or]
    · rintro x ((hx | hx | hx) | hx)
      · rcases hx.update k (.hooking bio none) with hx | ⟨bio', hk, _⟩
        · exact Or.inl hx
        · cases hrest.symm.trans hk
      · exact Or.inr (Or.inl hx)
      · exact Or.inr (Or.inr hx)
      · exact Or.inl (.self s.req k hx)

/-- **A step of the hook** leaves the ramdisk and the device alone, and what is pending is so. -/
theorem hookStep_step {b : Boot ν} {s : System ι ν P} (h : Tied b s) (k : ι) (node : ν) :
    Mirror.Step (s.mirror b.data) ((hookStep s k node).mirror b.data) := by
  have hframe := submitterStep_frame s.backup k node
  have hext := submitterStep_entered s.backup k node
  obtain ⟨r, hreq, hturn, hjoined⟩ := hookStep_turn h k node
  have hbackup := hookStep_backup s k node
  obtain ⟨hmemory, hdevice, hwritten⟩ := hookStep_frame s k node
  refine .rest ?_ ?_ ?_ ?_
  · unfold System.mirror
    rw [hmemory]
  · exact onItsWay_congr (by rw [hbackup, hframe.thread]) (by rw [hbackup, hframe.submitted])
      hdevice
  · unfold System.mirror
    rw [hwritten]
  · rintro x (hx | hx | hx)
    · rcases hx.update k r with hx | ⟨bio, hk, hx⟩
      · exact Or.inl (hreq ▸ hx)
      · cases hturn with
        | stay =>
          refine Or.inl ?_
          rw [hreq, hk]
          exact .self s.req k hx
        | link bio' c hk' hc henq =>
          obtain rfl : bio = bio' := by
            cases hk.symm.trans hk'
            rfl
          refine Or.inr (Or.inl ?_)
          rw [hbackup]
          refine queued_of_getElem? (i := s.backup.enqueued.length) ?_ ?_ (hc.covers.mpr hx)
          · rw [henq]
            simp
          · rw [hframe.taken]
            exact h.taken_first.length_le
        | leave bio' i hk' => cases hk.symm.trans hk'
    · exact Or.inr (Or.inl (hbackup ▸ hx.mono hframe.taken hext))
    · exact Or.inr (Or.inr (hbackup ▸ hx.congr (submitterStep_reading h k node)))

/-! ## Copying -/

omit [DecidableEq ν] [DecidableEq ι] in
/-- What `memcpy` leaves alone. -/
theorem memcpyTo_outside {memory : UInt64 → UInt8} {data : UInt64} {v : BioVec UInt64}
    {page : Nat → UInt8} {x y : Nat} (hv : v.bvPage = data + UInt64.ofNat y) (hx : x < 2 ^ 64)
    (hy : y + v.bvLen.toNat < 2 ^ 64) (hout : ¬ (y ≤ x ∧ x < y + v.bvLen.toNat)) :
    memcpyTo memory v page (data + UInt64.ofNat x) = memory (data + UInt64.ofNat x) := by
  have hdist : data + UInt64.ofNat x - v.bvPage = UInt64.ofNat x - UInt64.ofNat y := by
    rw [hv, add_sub_add_left_eq_sub]
  have hxn : (UInt64.ofNat x).toNat = x := UInt64.toNat_ofNat_of_lt' hx
  have hyn : (UInt64.ofNat y).toNat = y := UInt64.toNat_ofNat_of_lt' (by unfold UInt64.size; omega)
  have hnot : ¬ (data + UInt64.ofNat x - v.bvPage).toNat < v.bvLen.toNat := by
    rw [hdist, UInt64.toNat_sub, hxn, hyn]
    omega
  exact if_neg hnot

omit [DecidableEq ι] in
/-- **A segment that is not copied is pending.** -/
theorem Tied.pending_of_left {b : Boot ν} {s : System ι ν P} (h : Tied b s) {k : ι} {bio : Bio P}
    {slot : Option Nat} {copied : Nat} {v : BioVec UInt64} {todo : List (BioVec UInt64)}
    (hr : s.req k = .copying bio slot copied (v :: todo)) {x : Nat} (hx : bio.Covers x)
    (hle : 512 * bio.biSector.toNat + base (lens (walked b.data bio)) copied ≤ x) :
    Queued s.backup x ∨ Reading s.backup x := by
  obtain ⟨i, c, rfl, hi, hc, htodo, -⟩ := h.copying hr
  have hcopied : copied < (walked b.data bio).length := by
    by_contra hge
    rw [List.drop_of_length_le (Nat.le_of_not_lt hge)] at htodo
    cases htodo
  have hahead := h.ahead k
  rw [hr] at hahead
  rcases hahead i rfl (List.cons_ne_nil v todo) with htaken | ⟨hlast, c', done, hread, hdone⟩
  · exact Or.inl (queued_of_getElem? hi htaken (hc.covers.mpr hx))
  · obtain rfl := h.read_slot hread hlast hi
    refine Or.inr ⟨c, done, hread, hc.covers.mpr hx, ?_⟩
    obtain ⟨junk, hclone⟩ := hc.clone
    have hmono := base_mono (lens c.biIoVec) (show done.length ≤ copied from hdone)
    rw [hc.base_eq (Nat.le_of_lt hcopied)] at hmono
    rw [h.read_sum hread, (cloneBio_eq_some hclone).1]
    exact Nat.le_trans (Nat.add_le_add_left hmono _) hle

/-- **Copying a segment** changes what is pending. -/
theorem copyStep_step {b : Boot ν} {s : System ι ν P} (h : Tied b s) (k : ι) (page : Nat → UInt8) :
    Mirror.Step (s.mirror b.data) ((copyStep s k page).mirror b.data) := by
  have hpending : ∀ {bio slot copied todo} {r : Req P}, s.req k = .copying bio slot copied todo →
      (s.mirror b.data).pending ⊆ { x | Hooking (Function.update s.req k r) x ∨
        Queued s.backup x ∨ Reading s.backup x } := by
    rintro bio slot copied todo r hr x (hx | hx)
    · rcases hx.update k r with hx | ⟨bio', hk, _⟩
      · exact Or.inl hx
      · cases hr.symm.trans hk
    · exact Or.inr hx
  cases hr : s.req k with
  | rest | hooking =>
    simp only [copyStep, hr]
    exact .rest rfl rfl rfl subset_rfl
  | copying bio slot copied todo =>
    cases todo with
    | nil =>
      simp only [copyStep, hr]
      exact .rest rfl rfl rfl (hpending hr)
    | cons v todo =>
      simp only [copyStep, hr]
      refine .store (fun x hx hnot => ?_) rfl rfl (hpending hr)
      obtain ⟨i, c, -, -, hc, htodo, -⟩ := h.copying hr
      have hv : (walked b.data bio)[copied]? = some v := by
        rw [← List.head?_drop, ← htodo]
        rfl
      have hlen : (lens (walked b.data bio))[copied]? = some v.bvLen.toNat := by
        rw [lens, List.getElem?_map, hv]
        rfl
      have hend := end_le_of_getElem? hlen
      rw [hc.sum] at hend
      have hbound := hc.whole.bound
      obtain ⟨e, he, hex, hxe⟩ := hx
      refine memcpyTo_outside (walked_getElem? hv) (Nat.lt_trans hxe (h.bound e he)) (by omega) ?_
      rintro ⟨hle, hlt'⟩
      exact hnot (Or.inr (h.pending_of_left hr ⟨by omega, by omega⟩ hle))

/-! ## What the thread carries over -/

omit [DecidableEq ν] [DecidableEq ι] in
theorem flatMap_length {done : List (BioVec (List UInt8))}
    (h : ∀ v ∈ done, v.bvPage.length = v.bvLen.toNat) :
    (done.flatMap BioVec.bvPage).length = (lens done).sum := by
  rw [List.length_flatMap, lens]
  exact congrArg List.sum (List.map_congr_left h)

omit [DecidableEq ν] [DecidableEq ι] in
theorem carriedBy_concat (c : Clone) (done : List (BioVec (List UInt8)))
    (page : BioVec (List UInt8)) : carriedBy c (done ++ [page]) = carriedBy c done ++
      page.bvPage.take (c.biSize.toNat - (done.flatMap BioVec.bvPage).length) := by
  unfold carriedBy
  rw [List.flatMap_append, List.take_append, List.flatMap_singleton]

omit [DecidableEq ν] [DecidableEq ι] in
/-- **Filling a page** carries over its bytes, as they are in the ramdisk. -/
theorem write_pageOf {data : UInt64} {o : Outcome} {c : Clone}
    {done : List (BioVec (List UInt8))} {v : BioVec UInt64}
    (hpages : ∀ w ∈ done, w.bvPage.length = w.bvLen.toNat)
    (hv : (lens done).sum < c.biSize.toNat →
      v.bvPage = data + UInt64.ofNat (512 * c.biSector.toNat + (lens done).sum))
    (device : Nat → UInt8) (x : Nat) :
    Flat.write device (512 * c.biSector.toNat) (carriedBy c (done ++ [pageOf o v])) x =
        o.memory (data + UInt64.ofNat x) ∨
      Flat.write device (512 * c.biSector.toNat) (carriedBy c (done ++ [pageOf o v])) x =
          Flat.write device (512 * c.biSector.toNat) (carriedBy c done) x ∧
        (c.Covers x → 512 * c.biSector.toNat + (lens done).sum ≤ x →
          512 * c.biSector.toNat + (lens done).sum + v.bvLen.toNat ≤ x) := by
  have hsum := flatMap_length hpages
  have hpage : (pageOf o v).bvPage.length = v.bvLen.toNat := readMemory_length _ _ _
  rw [carriedBy_concat, hsum]
  by_cases hlt : (lens done).sum < c.biSize.toNat
  · have hlen : (carriedBy c done).length = (lens done).sum := by
      unfold carriedBy
      rw [List.length_take, hsum]
      omega
    rw [Flat.write_append, hlen]
    by_cases hx : 512 * c.biSector.toNat + (lens done).sum ≤ x ∧
        x < 512 * c.biSector.toNat + (lens done).sum +
          ((pageOf o v).bvPage.take (c.biSize.toNat - (lens done).sum)).length
    · refine Or.inl ?_
      have htake := hx.2
      rw [List.length_take, hpage] at htake
      have hbyte : (pageOf o v).bvPage[x - (512 * c.biSector.toNat + (lens done).sum)]? =
          some (o.memory (v.bvPage +
            UInt64.ofNat (x - (512 * c.biSector.toNat + (lens done).sum)))) :=
        readMemory_getElem? (by omega)
      obtain ⟨_, hget⟩ := List.getElem?_eq_some_iff.mp hbyte
      rw [Flat.write_inside hx.1 (by omega), List.getElem_take, hget, hv hlt, UInt64.add_assoc,
        ← UInt64.ofNat_add, Nat.add_sub_cancel' hx.1]
    · refine Or.inr ⟨Flat.write_outside hx, fun hcovers hle => ?_⟩
      have hend := hcovers.2
      rw [List.length_take, hpage] at hx
      omega
  · rw [Nat.sub_eq_zero_of_le (Nat.le_of_not_lt hlt), List.take_zero, List.append_nil]
    refine Or.inr ⟨rfl, fun hcovers hle => ?_⟩
    have hend := hcovers.2
    omega

omit [DecidableEq ν] [DecidableEq ι] in
/-- What is submitted of a whole bio is what its pages carry. -/
theorem filled_carriedBy {data : UInt64} {bio : Bio P} {c : Clone} (h : IsCloneOf data bio c)
    {done : List (BioVec (List UInt8))} (hpages : ∀ v ∈ done, v.bvPage.length = v.bvLen.toNat) :
    (c.filled done).carried = carriedBy c done := by
  obtain ⟨junk, hc⟩ := h.clone
  obtain ⟨-, hidx, hsize, hdone, -⟩ := cloneBio_eq_some hc
  rw [carried_eq (f := c.filled done) hdone hpages]
  show ((done.drop c.biIdx.toNat).flatMap _).take c.biSize.toNat = (done.flatMap _).take _
  rcases h.whole.start with h0 | h0
  · rw [hidx, h0]
    rfl
  · rw [hsize, h0]
    rfl

omit [DecidableEq ν] [DecidableEq ι] in
theorem onItsWay_filling {s : System ι ν P} {q : ν} {c : Clone}
    {done : List (BioVec (List UInt8))} {todo : List (BioVec UInt64)}
    (hpc : s.backup.thread = .filling q c done todo) :
    s.onItsWay = Flat.write s.device (512 * c.biSector.toNat) (carriedBy c done) := by
  unfold System.onItsWay
  rw [hpc]

omit [DecidableEq ν] [DecidableEq ι] in
theorem onItsWay_waiting {s : System ι ν P} {q : ν} (hpc : s.backup.thread = .waitingIo q) :
    s.onItsWay = s.delivered := by
  unfold System.onItsWay
  rw [hpc]

omit [DecidableEq ν] [DecidableEq ι] in
theorem delivers_of_not_busy {pc : ThreadPc ν} (h : pc.busy = false) (o : Outcome) :
    pc.delivers o = false := by
  cases pc <;> first | rfl | cases h

omit [DecidableEq ν] [DecidableEq ι] in
/-- What the thread does to what is pending. -/
theorem pending_subset {data : UInt64} {s s' : System ι ν P} (hreq : s'.req = s.req)
    (hqueued : ∀ x, Queued s.backup x → Queued s'.backup x ∨ Reading s'.backup x)
    (hreading : ∀ x, Reading s.backup x → Reading s'.backup x) :
    (s.mirror data).pending ⊆ (s'.mirror data).pending := by
  rintro x (hx | hx | hx)
  · exact Or.inl (hreq ▸ hx)
  · exact Or.inr (hqueued x hx)
  · exact Or.inr (Or.inr (hreading x hx))

omit [DecidableEq ι] [DecidableEq ν] in
/-- The first in the queue is in the thread's hands once it is taken out. -/
theorem queued_take {s : State ι ν} {q : ν} {mem : Links ν}
    (hext : s.taken ++ [s.bio q] <+: s.enqueued) {y : Nat} (hy : Queued s y) :
    let t := State.threadAt { s with mem := mem, taken := s.taken ++ [s.bio q] } (.deleted q)
    Queued t y ∨ Reading t y := by
  obtain ⟨c, hc, hcovers⟩ := hy
  obtain ⟨rest, henq⟩ := hext
  rw [← henq, List.append_assoc, List.drop_left] at hc
  rcases List.mem_cons.mp hc with rfl | hc
  · exact Or.inr ⟨_, [], rfl, hcovers, hcovers.1⟩
  · refine Or.inl ⟨c, ?_, hcovers⟩
    show c ∈ s.enqueued.drop (s.taken ++ [s.bio q]).length
    rwa [← henq, List.drop_left]

omit [DecidableEq ι] in
/-- The vector that is filled next points to where the clone goes on. -/
theorem Tied.next_address {b : Boot ν} {s : System ι ν P} (h : Tied b s) {q : ν} {c : Clone}
    {done : List (BioVec (List UInt8))} {v : BioVec UInt64} {todo : List (BioVec UInt64)}
    (hpc : s.backup.thread = .filling q c done (v :: todo))
    (hlt : (lens done).sum < c.biSize.toNat) :
    v.bvPage = b.data + UInt64.ofNat (512 * c.biSector.toNat + (lens done).sum) := by
  have hread : s.backup.thread.reading s.backup.bio = some (c, done) := by rw [hpc]; rfl
  have hget : c.biIoVec[done.length]? = some v := by
    rw [← List.head?_drop, h.rest q c done _ hpc]
    rfl
  obtain ⟨bio, hclone⟩ := h.read_good hread
  rw [h.read_sum hread] at hlt ⊢
  exact hclone.address hget hlt

omit [DecidableEq ι] in
/-- Of a clone whose vectors are all filled nothing is left to read. -/
theorem Tied.not_reading_of_done {b : Boot ν} {s : System ι ν P} (h : Tied b s) {q : ν}
    {c : Clone} {done : List (BioVec (List UInt8))}
    (hpc : s.backup.thread = .filling q c done []) (x : Nat) : ¬ Reading s.backup x := by
  have hread : s.backup.thread.reading s.backup.bio = some (c, done) := by rw [hpc]; rfl
  obtain ⟨bio, hclone⟩ := h.read_good hread
  rintro ⟨c', done', hsome, hcovers, hle⟩
  cases hread.symm.trans hsome
  obtain ⟨rest, hvecs⟩ := hclone.vecs
  have hall : c.biIoVec.length ≤ done.length :=
    List.drop_eq_nil_iff.mp (h.rest q c done [] hpc)
  have hsize := hclone.sum
  have hend := hcovers.2
  rw [h.read_sum hread, base, List.take_of_length_le (by rwa [lens_length]), hvecs,
    lens_append, List.sum_append, hsize] at hle
  rw [(cloneBio_eq_some hclone.clone.choose_spec).2.2.1] at hend
  omega

omit [DecidableEq ι] in
/-- **A turn of the thread** carries over what was pending. -/
theorem Turn.step {b : Boot ν} {s : System ι ν P} {o : Outcome} {t : State ι ν}
    (hturn : Turn s.backup { o with memory := s.memory } t) (h : Tied b s)
    (hframe : ThreadFrame s.backup t) (hext : t.taken <+: t.enqueued) :
    Mirror.Step (s.mirror b.data) (System.mirror b.data { s with
      backup := t
      device := if s.backup.thread.delivers o then s.delivered else s.device }) := by
  have hqueued : t.taken = s.backup.taken → ∀ x, Queued s.backup x → Queued t x ∨ Reading t x :=
    fun htaken x hx => Or.inl (hx.mono htaken (hframe.enqueued ▸ List.prefix_rfl))
  have hnone : s.backup.thread.reading s.backup.bio = none →
      ∀ x, Reading s.backup x → Reading t x := by
    rintro hread x ⟨c, done, hsome, -⟩
    cases hread.symm.trans hsome
  cases hturn with
  | idle _ hthread hthread' htaken =>
    refine .rest rfl ?_ rfl
      (pending_subset rfl (hqueued htaken) (hnone (reading_of_not_busy hthread _)))
    show System.onItsWay _ = s.onItsWay
    rw [onItsWay_of_not_busy hthread, onItsWay_of_not_busy hthread',
      delivers_of_not_busy hthread o]
    rfl
  | take q x hpc =>
    refine .rest rfl ?_ rfl (pending_subset rfl (fun y hy => ?_) (hnone (by rw [hpc]; rfl)))
    · show (if s.backup.thread.delivers o then s.delivered else s.device) = s.onItsWay
      rw [onItsWay_of_not_busy (by rw [hpc]; rfl), hpc]
      rfl
    · exact queued_take hext hy
  | start q hpc =>
    refine .rest rfl ?_ rfl (pending_subset rfl (hqueued rfl) fun x hx => ?_)
    · show Flat.write (if s.backup.thread.delivers o then s.delivered else s.device) _
        (carriedBy (s.backup.bio q) []) = s.onItsWay
      rw [show carriedBy (s.backup.bio q) [] = [] from List.take_nil, Flat.write_nil]
      unfold System.onItsWay
      rw [hpc]
      rfl
    · exact hx.congr (by rw [hpc]; rfl)
  | fill q c done v todo hpc =>
    have hread : s.backup.thread.reading s.backup.bio = some (c, done) := by rw [hpc]; rfl
    refine .transfer rfl (fun x hx => ?_) rfl
    have hnow : (s.mirror b.data).copy = Flat.write s.device (512 * c.biSector.toNat)
        (carriedBy c done) := onItsWay_filling hpc
    have hthen : (if s.backup.thread.delivers o then s.delivered else s.device) = s.device := by
      rw [hpc]
      rfl
    show Flat.write (if s.backup.thread.delivers o then s.delivered else s.device) _
      (carriedBy c (done ++ [_])) x = _ ∨ Flat.write (if _ then _ else _) _ _ x = _ ∧ _
    rw [hthen, hnow]
    rcases write_pageOf (o := { o with memory := s.memory }) (h.read c done hread).pages
      (h.next_address hpc) s.device x with hnew | ⟨hold, hkeep⟩
    · exact Or.inl hnew
    · refine Or.inr ⟨hold, ?_⟩
      rintro (hx | hx | ⟨c', done', hsome, hcovers, hle⟩)
      · exact Or.inl hx
      · exact Or.inr (hqueued rfl x hx)
      · cases hread.symm.trans hsome
        refine Or.inr (Or.inr ⟨c, _, rfl, hcovers, ?_⟩)
        rw [lens_append, List.sum_append]
        show _ + (_ + (v.bvLen.toNat + 0)) ≤ x
        have hpast := hkeep hcovers hle
        omega
  | submit q c done hpc =>
    have hread : s.backup.thread.reading s.backup.bio = some (c, done) := by rw [hpc]; rfl
    obtain ⟨bio, hclone⟩ := h.read_good hread
    refine .rest rfl ?_ rfl (pending_subset rfl (hqueued rfl) fun x hx => ?_)
    · rw [show (s.mirror b.data).copy = _ from onItsWay_filling hpc]
      show System.delivered _ = _
      unfold System.delivered
      simp only [State.threadAt, List.getLast?_concat,
        filled_carriedBy hclone (h.read c done hread).pages, hpc]
      rfl
    · exact absurd hx (h.not_reading_of_done hpc x)
  | wait q hpc =>
    refine .rest rfl ?_ rfl (pending_subset rfl (hqueued rfl) (hnone (by rw [hpc]; rfl)))
    rw [show (s.mirror b.data).copy = _ from onItsWay_waiting hpc]
    show System.onItsWay _ = _
    cases ho : o.complete with
    | true =>
      show (if s.backup.thread.delivers o then s.delivered else s.device) = _
      rw [hpc, ThreadPc.delivers, ho]
      rfl
    | false =>
      show System.delivered _ = _
      unfold System.delivered
      rw [hpc, ThreadPc.delivers, ho]
      rfl

theorem threadTurn_step {b : Boot ν} {s : System ι ν P} (h : Tied b s) {o : Outcome}
    (hfill : ¬ FillFails s.backup { o with memory := s.memory }) (hearly : ¬ TooEarly s) :
    Mirror.Step (s.mirror b.data) ((threadTurn s o).mirror b.data) :=
  (threadStep_turn hfill).step h (threadStep_frame _ _)
    (threadTurn_tied h hfill hearly).taken_first

/-! ## Every step -/

omit [DecidableEq ι] in
theorem started_tied {b : Boot ν} (hrunning : b.running = true) (size : UInt64)
    (memory : UInt64 → UInt8) (device : Nat → UInt8) :
    Tied b (started b size memory device : System ι ν P) := by
  have hthread : (backupInit (ι := ι) b).thread = .start := if_pos hrunning
  refine ⟨ordered_backupInit b _, rfl, hrunning, fun k => .rest, fun c done hread => ?_,
    fun q c done todo hpc => ?_, fun k i hi => (by cases hi),
    fun e he => absurd he List.not_mem_nil⟩
  · have hnone : (backupInit (ι := ι) b).thread.reading b.bio = some (c, done) := hread
    rw [hthread] at hnone
    cases hnone
  · cases hthread.symm.trans hpc

/-- **Every safe step** keeps the invariant, and is one of the mirror's. -/
theorem move_tied {b : Boot ν} {s : System ι ν P} (h : Tied b s) {m : Move ι ν P}
    (hsafe : Safe s m) : Tied b (move s m).1 ∧
      Mirror.Step (s.mirror b.data) ((move s m).1.mirror b.data) := by
  cases m with
  | request k bio junk =>
    exact ⟨request_tied h k bio.property hsafe junk, request_step h k bio.property junk⟩
  | hook k node => exact ⟨hookStep_tied h k node, hookStep_step h k node⟩
  | copy k page => exact ⟨copyStep_tied h k page, copyStep_step h k page⟩
  | thread o => exact ⟨threadTurn_tied h hsafe.1 hsafe.2, threadTurn_step h hsafe.1 hsafe.2⟩

omit [DecidableEq ι] in
/-- **Nothing is pending in a quiet state.** -/
theorem converged_of_quiet {b : Boot ν} {s : System ι ν P} (h : Tied b s)
    (hup : (s.mirror b.data).UpToDate) (hquiet : s.Quiet) : s.Converged := by
  obtain ⟨hempty, hidle, hrest⟩ := hquiet
  have hbusy : s.backup.thread.busy = false := by
    cases hpc : s.backup.thread <;> first | rfl | (rw [hpc] at hidle; cases hidle)
  have hnone : ∀ x, x ∉ (s.mirror b.data).pending := by
    rintro x (⟨k, bio, hk, -⟩ | ⟨c, hc, -⟩ | ⟨c, done, hread, -⟩)
    · cases (hrest k).symm.trans hk
    · obtain ⟨xs, hi⟩ := h.inv
      rw [(empty_iff hi).mp hempty, List.drop_length] at hc
      exact absurd hc List.not_mem_nil
    · cases (reading_of_not_busy hbusy s.backup.bio).symm.trans hread
  intro e he x hle hlt
  have heq := hup.eq (x := x) ⟨e, he, hle, hlt⟩ (hnone x)
  rw [← onItsWay_of_not_busy hbusy, h.ordered.data]
  exact heq

/-- **When the backup converges.** In a run whose requests are of whole bios, whose pages are all
filled, and where the thread does not get to a page before its segment is copied, the device agrees
with the ramdisk on every sector written, in every quiet state. -/
theorem backup_converges (b : Boot ν) (hrunning : b.running = true) (size : UInt64)
    (memory : UInt64 → UInt8) (device : Nat → UInt8) (ms : List (Move ι ν P))
    (hsafe : ∀ t ∈ trace move (started b size memory device) ms, Safe t.before t.input) :
    (∀ t ∈ trace move (started b size memory device) ms, t.before.Quiet → t.before.Converged) ∧
      ((final move (started b size memory device) ms).Quiet →
        (final move (started b size memory device) ms).Converged) := by
  have hstep : ∀ (s : System ι ν P) (m : Move ι ν P),
      Tied b s ∧ (s.mirror b.data).UpToDate → Safe s m →
      Tied b (move s m).1 ∧ ((move s m).1.mirror b.data).UpToDate := by
    rintro s m ⟨h, hup⟩ hm
    obtain ⟨htied, hmirror⟩ := move_tied h hm
    exact ⟨htied, hmirror.upToDate hup⟩
  have hstart : Tied b (started b size memory device : System ι ν P) ∧
      ((started b size memory device : System ι ν P).mirror b.data).UpToDate :=
    ⟨started_tied hrunning size memory device,
      .start (Set.eq_empty_of_forall_notMem fun x ⟨e, he, _⟩ => absurd he List.not_mem_nil)⟩
  refine ⟨forall_trace (P := fun s _ _ => s.Quiet → s.Converged)
    (fun s m h hm => ⟨hstep s m h hm, converged_of_quiet h.1 h.2⟩) ms _ hstart hsafe, ?_⟩
  have hend := final_inv hstep ms _ hstart hsafe
  exact converged_of_quiet hend.1 hend.2

end Steps

/-! ## Two runs -/

section Decide

/-- Whether a page is not filled. -/
def ThreadPc.fails (o : Outcome) : ThreadPc ν → Bool
  | .filling _ _ _ (v :: _) =>
    match fillPage v o with
    | .error _ => true
    | .ok _ => false
  | _ => false

theorem fillFails_iff {s : State ι ν} {o : Outcome} : FillFails s o ↔ s.thread.fails o = true := by
  constructor
  · rintro ⟨q, c, done, v, todo, hpc, msg, hmsg⟩
    rw [hpc, ThreadPc.fails, hmsg]
  · intro h
    cases hpc : s.thread with
    | filling q c done todo =>
      cases todo with
      | nil =>
        rw [hpc] at h
        cases h
      | cons v todo =>
        cases hv : fillPage v o with
        | error msg => exact ⟨q, c, done, v, todo, hpc, msg, hv⟩
        | ok page =>
          rw [hpc, ThreadPc.fails, hv] at h
          cases h
    | _ =>
      rw [hpc] at h
      cases h

instance (s : State ι ν) (o : Outcome) : Decidable (FillFails s o) :=
  decidable_of_iff _ fillFails_iff.symm

instance (bio : Bio P) : Decidable bio.Whole :=
  decidable_of_iff ((bio.biIdx = 0 ∨ bio.biSize = 0) ∧
    512 * bio.biSector.toNat + bio.biSize.toNat < 2 ^ 64)
    ⟨fun h => ⟨h.1, h.2⟩, fun h => ⟨h.start, h.bound⟩⟩

variable [Fintype ι]

instance (s : System ι ν P) : Decidable (TooEarly s) :=
  inferInstanceAs (Decidable (∃ m ∈ s.backup.thread.page, ∃ k, ∃ i ∈ (s.req k).slot,
    i + 1 = s.backup.taken.length ∧ (s.req k).copied ≤ m ∧
      m < (s.req k).copied + ((s.req k).left s.backup.data).length))

instance (s : System ι ν P) : (m : Move ι ν P) → Decidable (Safe s m)
  | .request _ bio _ => inferInstanceAs (Decidable bio.val.Whole)
  | .hook _ _ | .copy _ _ => inferInstanceAs (Decidable True)
  | .thread o =>
    inferInstanceAs (Decidable (¬ FillFails s.backup { o with memory := s.memory } ∧ ¬ TooEarly s))

instance [DecidableEq ν] [DecidableEq P] (s : System ι ν P) : Decidable s.Quiet :=
  inferInstanceAs (Decidable (_ ∧ _ ∧ ∀ k, s.req k = .rest))

end Decide

/-- A write of one sector. -/
def oneSector : { bio : Bio Unit // bio.Valid } :=
  ⟨⟨8, 1, 1, 0, 512, 0, [⟨(), 512, 0⟩]⟩, ⟨by decide, by decide, by decide, by decide⟩, rfl⟩

/-- Its hook, its copy and its end, and the thread's turns for its clone. -/
def hooked : List (Move Bool Nat Unit) :=
  .request true oneSector (fun _ => ⟨0, 0, 0⟩) :: List.replicate 9 (.hook true 1)

def copied : List (Move Bool Nat Unit) := List.replicate 2 (.copy true fun _ => 1)

def backedUp : List (Move Bool Nat Unit) := List.replicate 11 (.thread allGood)

/-- A ramdisk of 1 MiB and the device, all zero, and then these steps. -/
def endOf (ms : List (Move Bool Nat Unit)) : System Bool Nat Unit :=
  final move (started someBoot 1048576 (fun _ => 0) fun _ => 0) ms

/-- The clone is backed up once the request has copied its segment. -/
theorem backup_converges_late :
    (endOf (hooked ++ copied ++ backedUp)).Quiet ∧
      (endOf (hooked ++ copied ++ backedUp)).written = [(4096, 512)] ∧
      (endOf (hooked ++ copied ++ backedUp)).Converged := by
  have hsafe : ∀ t ∈ trace move (started someBoot 1048576 (fun _ => 0) fun _ => 0)
      (hooked ++ copied ++ backedUp), Safe t.before t.input := by decide +kernel
  have hquiet : (endOf (hooked ++ copied ++ backedUp)).Quiet := by decide +kernel
  exact ⟨hquiet, by decide +kernel,
    (backup_converges someBoot rfl 1048576 (fun _ => 0) (fun _ => 0) _ hsafe).2 hquiet⟩

/-- **The clone is backed up before**: nothing is left to do, and the device has the old sector. -/
theorem backup_stale :
    (endOf (hooked ++ backedUp ++ copied)).Quiet ∧
      ¬ (endOf (hooked ++ backedUp ++ copied)).Converged := by
  refine ⟨by decide +kernel, fun h => ?_⟩
  have hwritten : (endOf (hooked ++ backedUp ++ copied)).written = [(4096, 512)] := by
    decide +kernel
  have hbyte := h (4096, 512) (by rw [hwritten]; exact List.mem_singleton_self _) 4096 (by decide)
    (by decide)
  revert hbyte
  decide +kernel

end JcmController.Backup
