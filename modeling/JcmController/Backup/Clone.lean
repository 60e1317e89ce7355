import JcmController.Backup.Model
import JcmController.Lib.Concat

/-!
# What the backup clone carries

`bestio_backup_bio` walks the bio from its `bi_iter` and fills the vectors of the clone from index
0 on; `bestio_q_bio` fills a page for each of the clone's `bi_vcnt` vectors; the clone is submitted
with the `bi_idx` of the bio. What it carries is what `bio_for_each_segment` finds from there.

* `Bio.HandedOver`: a write with any vectors, any iterator and any `bi_vcnt`; the front half of a
  split has 0 there. `Bio.Valid`: `bi_vcnt` is the number of the vectors.
* `bestioQBio`: the loop of `bestio_q_bio`, with what each turn meets.
* `Describes`: the clone is the same write, at the time its pages are filled. `ClonesDescribe`: the
  hook makes a clone, and it is.

Results:
* `segments_sum`: the segments of a bio sum to its `bi_size`.
* `carried_eq`: what a filled clone carries is the first `bi_size` bytes of its pages from `bi_idx`
  on.
* `describes_of_start`, `not_describes`: a clone that is walked from its first vector describes the
  write; one that is walked from a later one may not.
* **`clone_describes_iff`**: the hook makes a clone of a bio that describes its write exactly when
  there are as many vectors in it as the bio has segments, and the bio's iterator stands at its
  first vector, or it has no bytes to go.
-/

namespace JcmController.Backup

open JcmController.Lib JcmController.Lib.Concat

variable {P : Type}

/-! ## The source bio -/

/-- A write as the block layer hands it over: its vectors are not empty, `bi_bvec_done` bytes of
the one at `bi_idx` are behind, and `bi_size` bytes are left. -/
structure Bio.HandedOver (bio : Bio P) : Prop where
  write : bio.IsWrite
  nonempty : ∀ v ∈ bio.biIoVec, 0 < v.bvLen.toNat
  done : ∀ v ∈ (bio.biIoVec.drop bio.biIdx.toNat).head?, bio.biBvecDone.toNat < v.bvLen.toNat
  left : bio.biBvecDone.toNat + bio.biSize.toNat ≤
    ((bio.biIoVec.drop bio.biIdx.toNat).map fun v => v.bvLen.toNat).sum

/-- One with `bi_vcnt` vectors. -/
structure Bio.Valid (bio : Bio P) : Prop extends bio.HandedOver where
  vcnt : bio.biIoVec.length = bio.biVcnt.toNat

/-- The lengths of a list of vectors. -/
def lens (vs : List (BioVec P)) : List Nat := vs.map fun v => v.bvLen.toNat

@[simp] theorem lens_length (vs : List (BioVec P)) : (lens vs).length = vs.length :=
  List.length_map _

@[simp] theorem lens_nil : lens ([] : List (BioVec P)) = [] := rfl

@[simp] theorem lens_cons (v : BioVec P) (vs : List (BioVec P)) :
    lens (v :: vs) = v.bvLen.toNat :: lens vs := rfl

theorem toNat_min (a b : UInt32) : (min a b).toNat = min a.toNat b.toNat := by
  by_cases h : a ≤ b
  · rw [Nat.min_eq_left (UInt32.le_iff_toNat_le.mp h)]
    exact congrArg UInt32.toNat (if_pos h)
  · rw [Nat.min_eq_right (UInt32.le_iff_toNat_le.mp (UInt32.le_of_lt (UInt32.not_le.mp h)))]
    exact congrArg UInt32.toNat (if_neg h)

theorem segmentsFrom_length (vs : List (BioVec P)) (size done : UInt32) :
    (segmentsFrom vs size done).length ≤ vs.length := by
  induction vs generalizing size done with
  | nil => exact Nat.le_refl 0
  | cons v vs ih =>
    unfold segmentsFrom
    split
    · exact Nat.zero_le _
    · exact Nat.succ_le_succ (ih _ _)

/-- The segments sum to the bytes left, and none of them is empty. -/
theorem segmentsFrom_spec (vs : List (BioVec P)) (size done : UInt32)
    (hne : ∀ v ∈ vs, 0 < v.bvLen.toNat) (hdone : ∀ v ∈ vs.head?, done.toNat < v.bvLen.toNat)
    (hleft : done.toNat + size.toNat ≤ (lens vs).sum) :
    (lens (segmentsFrom vs size done)).sum = size.toNat ∧
      ∀ n ∈ lens (segmentsFrom vs size done), 0 < n := by
  induction vs generalizing size done with
  | nil =>
    have h0 : size.toNat = 0 := by
      rw [lens_nil, List.sum_nil] at hleft
      omega
    exact ⟨h0.symm, fun n hn => absurd hn List.not_mem_nil⟩
  | cons v vs ih =>
    have hv : done.toNat < v.bvLen.toNat := hdone v rfl
    rw [lens_cons, List.sum_cons] at hleft
    unfold segmentsFrom
    by_cases h0 : size = 0
    · rw [if_pos h0, h0]
      exact ⟨rfl, fun n hn => absurd hn List.not_mem_nil⟩
    · have hpos : size.toNat ≠ 0 := fun h => h0 (UInt32.toNat_inj.mp h)
      have hsub : (v.bvLen - done).toNat = v.bvLen.toNat - done.toNat :=
        UInt32.toNat_sub_of_le _ _ (UInt32.le_iff_toNat_le.mpr (Nat.le_of_lt hv))
      have hlen : (min size (v.bvLen - done)).toNat =
          min size.toNat (v.bvLen.toNat - done.toNat) := by rw [toNat_min, hsub]
      have hrest : (size - min size (v.bvLen - done)).toNat =
          size.toNat - min size.toNat (v.bvLen.toNat - done.toNat) := by
        rw [UInt32.toNat_sub_of_le _ _ (UInt32.le_iff_toNat_le.mpr (by omega)), hlen]
      obtain ⟨hsum, hall⟩ := ih (size - min size (v.bvLen - done)) 0
        (fun w hw => hne w (List.mem_cons_of_mem v hw))
        (fun w hw => hne w (List.mem_cons_of_mem v (List.mem_of_mem_head? hw)))
        (by rw [hrest, UInt32.toNat_zero]; omega)
      rw [if_neg h0]
      refine ⟨?_, fun n hn => ?_⟩
      · rw [lens_cons, List.sum_cons, hsum, hrest, hlen]
        omega
      · rw [lens_cons, hlen] at hn
        rcases List.mem_cons.mp hn with rfl | hn
        · omega
        · exact hall n hn

/-- **The segments of a bio** sum to its `bi_size`, and none is empty. -/
theorem segments_sum {bio : Bio P} (h : bio.HandedOver) :
    (lens bio.segments).sum = bio.biSize.toNat ∧ ∀ n ∈ lens bio.segments, 0 < n :=
  segmentsFrom_spec (bio.biIoVec.drop bio.biIdx.toNat) bio.biSize bio.biBvecDone
    (fun v hv => h.nonempty v (List.mem_of_mem_drop hv)) h.done h.left

/-- There are no more of them than vectors from `bi_idx` on. -/
theorem segments_length (bio : Bio P) :
    bio.segments.length ≤ bio.biIoVec.length - bio.biIdx.toNat := by
  rw [← List.length_drop]
  exact segmentsFrom_length _ _ _

/-! ## The vectors of the clone -/

/-- Vector `k` of the clone has the address after the first `k` segments. -/
theorem addressed_getElem? (a : UInt64) (vs : List (BioVec P)) (k : Nat) :
    (addressed a vs)[k]? =
      vs[k]?.map fun v => ⟨a + UInt64.ofNat (base (lens vs) k), v.bvLen, v.bvOffset⟩ := by
  induction vs generalizing a k with
  | nil => rfl
  | cons v vs ih =>
    cases k with
    | zero => simp [addressed]
    | succ k =>
      have hlen : UInt64.ofNat v.bvLen.toNat = v.bvLen.toUInt64 := by
        rw [← UInt64.toNat_inj, UInt32.toNat_toUInt64]
        exact UInt64.toNat_ofNat_of_lt' (Nat.lt_trans v.bvLen.toNat_lt (by decide))
      rw [addressed, List.getElem?_cons_succ, List.getElem?_cons_succ, ih, lens_cons,
        base_cons_succ, UInt64.ofNat_add, hlen, UInt64.add_assoc]

theorem lens_addressed (a : UInt64) (vs : List (BioVec P)) : lens (addressed a vs) = lens vs := by
  induction vs generalizing a with
  | nil => rfl
  | cons v vs ih => exact congrArg (v.bvLen.toNat :: ·) (ih _)

/-- There is a clone where it has room for the segments. -/
theorem exists_cloneBio_iff {data : UInt64} {junk : Nat → BioVec UInt64} {bio : Bio P} :
    (∃ c, cloneBio data junk bio = some c) ↔ bio.segments.length ≤ bio.biVcnt.toNat := by
  unfold cloneBio
  by_cases hle : bio.segments.length ≤ bio.biVcnt.toNat
  · rw [if_pos hle]
    exact iff_of_true ⟨_, rfl⟩ hle
  · rw [if_neg hle]
    refine iff_of_false ?_ hle
    rintro ⟨c, hc⟩
    cases hc

/-- The clone of a bio. -/
theorem cloneBio_eq_some {data : UInt64} {junk : Nat → BioVec UInt64} {bio : Bio P} {c : Clone}
    (h : cloneBio data junk bio = some c) :
    c.biSector = bio.biSector ∧ c.biIdx = bio.biIdx ∧ c.biSize = bio.biSize ∧ c.biBvecDone = 0 ∧
      c.biIoVec = addressed (vrdGetBioAddress data bio) bio.segments ++
        (List.range (bio.biVcnt.toNat - bio.segments.length)).map junk := by
  unfold cloneBio at h
  by_cases hle : bio.segments.length ≤ bio.biVcnt.toNat
  · rw [if_pos hle] at h
    obtain rfl := Option.some.inj h
    exact ⟨rfl, rfl, rfl, rfl, rfl⟩
  · rw [if_neg hle] at h
    cases h

/-! ## Filling -/

/-- The page of a vector, as `memcpy` fills it. -/
def pageOf (o : Outcome) (v : BioVec UInt64) : BioVec (List UInt8) :=
  ⟨readMemory o.memory v.bvPage v.bvLen, v.bvLen, v.bvOffset⟩

/-- The loop of `bestio_q_bio` from turn `i` on, which meets `os i`. -/
def fillPages (os : Nat → Outcome) :
    Nat → List (BioVec UInt64) → Except String (List (BioVec (List UInt8)))
  | _, [] => .ok []
  | i, v :: vs =>
    match fillPage v (os i) with
    | .error msg => .error msg
    | .ok page => (fillPages os (i + 1) vs).map (page :: ·)

/-- `bestio_q_bio`, up to `submit_bio`. -/
def bestioQBio (c : Clone) (os : Nat → Outcome) : Except String (Bio (List UInt8)) :=
  (fillPages os 0 c.biIoVec).map c.filled

/-- What a walk of a filled bio from its `bi_iter` finds. A clone's `bi_bvec_done` is 0, so each
segment starts where its page was filled from. -/
def Bio.carried (f : Bio (List UInt8)) : List UInt8 :=
  f.segments.flatMap fun v => v.bvPage.take v.bvLen.toNat

theorem readMemory_length (memory : UInt64 → UInt8) (a : UInt64) (n : UInt32) :
    (readMemory memory a n).length = n.toNat := by
  rw [readMemory, List.length_map, List.length_range]

theorem readMemory_getElem? {memory : UInt64 → UInt8} {a : UInt64} {n : UInt32} {j : Nat}
    (hj : j < n.toNat) : (readMemory memory a n)[j]? = some (memory (a + UInt64.ofNat j)) := by
  simp [readMemory, hj]

theorem fillPage_eq_ok {v : BioVec UInt64} {o : Outcome} {page : BioVec (List UInt8)} :
    fillPage v o = .ok page ↔
      (v.bvPage ≠ 0 ∧ o.page = true ∧ o.kmap + v.bvOffset.toUInt64 ≠ 0) ∧ page = pageOf o v := by
  unfold fillPage
  by_cases h1 : v.bvPage = 0
  · simp [h1]
  · by_cases h2 : o.page = false
    · simp [h1, h2]
    · by_cases h3 : o.kmap + v.bvOffset.toUInt64 = 0
      · simp [h1, h2, h3]
      · have h2' : o.page = true := by simpa using h2
        simp [h1, h2', h3, pageOf, eq_comm]

/-- **The pages of a clone**: each is filled from its own vector, in its own turn. -/
theorem fillPages_eq_ok {os : Nat → Outcome} {i : Nat} {vs : List (BioVec UInt64)}
    {pages : List (BioVec (List UInt8))} (h : fillPages os i vs = .ok pages) :
    pages = vs.mapIdx fun k v => pageOf (os (i + k)) v := by
  induction vs generalizing i pages with
  | nil =>
    cases h
    rfl
  | cons v vs ih =>
    rw [fillPages] at h
    cases hp : fillPage v (os i) with
    | error msg =>
      rw [hp] at h
      cases h
    | ok page =>
      rw [hp] at h
      cases hr : fillPages os (i + 1) vs with
      | error msg =>
        rw [hr] at h
        cases h
      | ok rest =>
        rw [hr] at h
        obtain rfl : page :: rest = pages := Except.ok.inj h
        rw [List.mapIdx_cons, ih hr, (fillPage_eq_ok.mp hp).2]
        simp only [Nat.add_zero, Nat.add_assoc, Nat.add_comm 1]

theorem fillPages_ok {o : Outcome} {i : Nat} {vs : List (BioVec UInt64)}
    (h : ∀ v ∈ vs, fillPage v o = .ok (pageOf o v)) :
    fillPages (fun _ => o) i vs = .ok (vs.map (pageOf o)) := by
  induction vs generalizing i with
  | nil => rfl
  | cons v vs ih =>
    simp only [fillPages, h v List.mem_cons_self, ih fun w hw => h w (List.mem_cons_of_mem v hw)]
    rfl

/-- **The turns of the thread are this loop**: where it fills the pages of a clone, so does the
thread, and then submits them. -/
theorem thread_fillPages {ι ν : Type} [DecidableEq ν] {os : Nat → Outcome} {q : ν} {c : Clone}
    {i : Nat} {todo : List (BioVec UInt64)} {pages done : List (BioVec (List UInt8))}
    {s : State ι ν} (hpc : s.thread = .filling q c done todo)
    (h : fillPages os i todo = .ok pages) (o : Outcome) :
    final threadStep s ((List.range' i todo.length).map os ++ [o]) =
      State.threadAt { s with submitted := s.submitted ++ [(c, c.filled (done ++ pages))] }
        (.waitingIo q) := by
  induction todo generalizing i pages done s with
  | nil =>
    cases h
    simp only [List.length_nil, List.range'_zero, List.map_nil, List.nil_append, final, threadStep,
      hpc, List.append_nil]
  | cons v todo ih =>
    rw [fillPages] at h
    cases hp : fillPage v (os i) with
    | error msg =>
      rw [hp] at h
      cases h
    | ok page =>
      rw [hp] at h
      cases hr : fillPages os (i + 1) todo with
      | error msg =>
        rw [hr] at h
        cases h
      | ok rest =>
        rw [hr] at h
        obtain rfl : page :: rest = pages := Except.ok.inj h
        rw [List.length_cons, List.range'_succ, List.map_cons, List.cons_append, final,
          threadStep_fills hpc hp, ih (s := s.threadAt (.filling q c (done ++ [page]) todo)) rfl hr,
          List.append_assoc]
        rfl

/-- A walk takes the bytes of the pages as they come, up to `bi_size`. -/
theorem segmentsFrom_bytes (vs : List (BioVec (List UInt8))) (size : UInt32)
    (hlen : ∀ v ∈ vs, v.bvPage.length = v.bvLen.toNat) :
    ((segmentsFrom vs size 0).flatMap fun v => v.bvPage.take v.bvLen.toNat) =
      (vs.flatMap BioVec.bvPage).take size.toNat := by
  induction vs generalizing size with
  | nil => rw [List.flatMap_nil, List.take_nil]; rfl
  | cons v vs ih =>
    have hv := hlen v List.mem_cons_self
    have hmin : (min size v.bvLen).toNat = min size.toNat v.bvLen.toNat := toNat_min _ _
    have hsub : (size - min size v.bvLen).toNat = size.toNat - v.bvLen.toNat := by
      rw [UInt32.toNat_sub_of_le _ _ (UInt32.le_iff_toNat_le.mpr (by omega)), hmin]
      omega
    unfold segmentsFrom
    by_cases h0 : size = 0
    · rw [if_pos h0, h0]
      rfl
    · rw [if_neg h0, List.flatMap_cons, List.flatMap_cons, List.take_append, UInt32.sub_zero,
        ih _ fun w hw => hlen w (List.mem_cons_of_mem v hw), hmin, hsub, hv]
      congr 1
      show v.bvPage.take _ = v.bvPage.take _
      rcases Nat.le_total size.toNat v.bvLen.toNat with h | h
      · rw [Nat.min_eq_left h]
      · rw [Nat.min_eq_right h, List.take_of_length_le (by omega),
          List.take_of_length_le (by omega)]

/-- **What a filled clone carries**: the first `bi_size` bytes of its pages from `bi_idx` on. -/
theorem carried_eq {f : Bio (List UInt8)} (hdone : f.biBvecDone = 0)
    (hlen : ∀ v ∈ f.biIoVec, v.bvPage.length = v.bvLen.toNat) :
    f.carried =
      ((f.biIoVec.drop f.biIdx.toNat).flatMap BioVec.bvPage).take f.biSize.toNat := by
  unfold Bio.carried Bio.segments
  rw [hdone]
  exact segmentsFrom_bytes _ _ fun v hv => hlen v (List.mem_of_mem_drop hv)

/-! ## The write the clone describes -/

/-- **The clone `f` describes the write of `bio`**: the same start sector, `bi_size` bytes, and
each byte of them is the byte of the ramdisk at its place when its segment was filled. -/
structure Describes (data : UInt64) (bio : Bio P) (os : Nat → Outcome) (f : Bio (List UInt8)) :
    Prop where
  sector : f.biSector = bio.biSector
  size : f.carried.length = bio.biSize.toNat
  bytes : ∀ j i y, locate (lens bio.segments) j = some (i, y) →
    f.carried[j]? = some ((os i).memory (vrdGetBioAddress data bio + UInt64.ofNat j))

/-- The bytes read for the segments, one page after the other. -/
theorem pages_getElem? (os : Nat → Outcome) (vs : List (BioVec P)) (a : UInt64) (i : Nat)
    {j k y : Nat} (h : locate (lens vs) j = some (k, y)) :
    (((addressed a vs).mapIdx fun n v => pageOf (os (i + n)) v).flatMap BioVec.bvPage)[j]? =
      some ((os (i + k)).memory (a + UInt64.ofNat j)) := by
  induction vs generalizing a i j k with
  | nil => cases h
  | cons v vs ih =>
    have hpage : (pageOf (os i) (⟨a, v.bvLen, v.bvOffset⟩ : BioVec UInt64)).bvPage.length =
        v.bvLen.toNat := readMemory_length _ _ _
    rw [addressed, List.mapIdx_cons, List.flatMap_cons, Nat.add_zero]
    rw [lens_cons, locate] at h
    by_cases hj : j < v.bvLen.toNat
    · rw [if_pos hj] at h
      obtain ⟨rfl, rfl⟩ := Prod.mk.inj (Option.some.inj h)
      rw [List.getElem?_append_left (by omega)]
      exact readMemory_getElem? hj
    · rw [if_neg hj, Option.map_eq_some_iff] at h
      obtain ⟨⟨k', y'⟩, hk, he⟩ := h
      obtain ⟨rfl, rfl⟩ := Prod.mk.inj he
      have hlen : v.bvLen.toUInt64 = UInt64.ofNat v.bvLen.toNat := by
        rw [← UInt64.toNat_inj, UInt32.toNat_toUInt64]
        exact (UInt64.toNat_ofNat_of_lt' (Nat.lt_trans v.bvLen.toNat_lt (by decide))).symm
      have haddr : a + v.bvLen.toUInt64 + UInt64.ofNat (j - v.bvLen.toNat) =
          a + UInt64.ofNat j := by
        rw [hlen, UInt64.add_assoc, ← UInt64.ofNat_add, Nat.add_sub_cancel' (Nat.le_of_not_lt hj)]
      have hrest := ih (a + v.bvLen.toUInt64) (i + 1) hk
      rw [haddr] at hrest
      rw [List.getElem?_append_right (by omega), hpage]
      simpa only [Nat.add_assoc, Nat.add_comm 1] using hrest

/-- A filled clone, with its pages. -/
theorem bestioQBio_eq_ok {c : Clone} {os : Nat → Outcome} {f : Bio (List UInt8)}
    (h : bestioQBio c os = .ok f) : f = c.filled (c.biIoVec.mapIdx fun k v => pageOf (os k) v) := by
  unfold bestioQBio at h
  cases hp : fillPages os 0 c.biIoVec with
  | error msg =>
    rw [hp] at h
    cases h
  | ok pages =>
    rw [hp] at h
    obtain rfl := Except.ok.inj h
    have hpages := fillPages_eq_ok hp
    simp only [Nat.zero_add] at hpages
    rw [hpages]

/-- Every page is as long as its vector. -/
theorem pages_length (os : Nat → Outcome) (vs : List (BioVec UInt64)) :
    ∀ v ∈ vs.mapIdx fun k v => pageOf (os k) v, v.bvPage.length = v.bvLen.toNat := by
  intro v hv
  obtain ⟨k, hk, rfl⟩ := List.mem_mapIdx.mp hv
  exact readMemory_length _ _ _

theorem pages_sum (os : Nat → Outcome) (vs : List (BioVec UInt64)) (i : Nat) :
    ((vs.mapIdx fun k v => pageOf (os (i + k)) v).flatMap BioVec.bvPage).length =
      (lens vs).sum := by
  induction vs generalizing i with
  | nil => rfl
  | cons v vs ih =>
    have hpage : (pageOf (os (i + 0)) v).bvPage.length = v.bvLen.toNat := readMemory_length _ _ _
    have hrest := ih (i + 1)
    simp only [Nat.add_assoc, Nat.add_comm 1] at hrest
    rw [List.mapIdx_cons, List.flatMap_cons, List.length_append, hrest, hpage, lens_cons,
      List.sum_cons]

/-- What the filled clone carries. -/
theorem filled_carried {c : Clone} {os : Nat → Outcome} {f : Bio (List UInt8)}
    (hdone : c.biBvecDone = 0) (hf : bestioQBio c os = .ok f) :
    f.biSector = c.biSector ∧
      f.carried = (((c.biIoVec.mapIdx fun k v => pageOf (os k) v).drop c.biIdx.toNat).flatMap
        BioVec.bvPage).take c.biSize.toNat := by
  obtain rfl := bestioQBio_eq_ok hf
  exact ⟨rfl, carried_eq (f := c.filled _) hdone (pages_length os c.biIoVec)⟩

/-- **A clone that is walked from its first vector describes the write.** -/
theorem describes_of_start {bio : Bio P} (hv : bio.HandedOver)
    (hstart : bio.biIdx = 0 ∨ bio.biSize = 0) {data : UInt64} {junk : Nat → BioVec UInt64}
    {os : Nat → Outcome} {c : Clone} {f : Bio (List UInt8)}
    (hc : cloneBio data junk bio = some c) (hf : bestioQBio c os = .ok f) :
    Describes data bio os f := by
  obtain ⟨hsum, -⟩ := segments_sum hv
  obtain ⟨hsector, hidx, hsize, hdone, hvecs⟩ := cloneBio_eq_some hc
  obtain ⟨hfsector, hcarried⟩ := filled_carried hdone hf
  rw [hidx, hsize] at hcarried
  rcases hstart with h0 | h0
  · -- the pages of the segments come first, and are all of it
    have hlen := pages_sum os (addressed (vrdGetBioAddress data bio) bio.segments) 0
    rw [lens_addressed, hsum] at hlen
    simp only [Nat.zero_add] at hlen
    rw [h0, hvecs, List.mapIdx_append, UInt32.toNat_zero, List.drop_zero, List.flatMap_append,
      List.take_left' hlen] at hcarried
    refine ⟨hfsector.trans hsector, by rw [hcarried, hlen], fun j i y hj => ?_⟩
    have hbyte := pages_getElem? os bio.segments (vrdGetBioAddress data bio) 0 hj
    simp only [Nat.zero_add] at hbyte
    rw [hcarried]
    exact hbyte
  · rw [h0, UInt32.toNat_zero, List.take_zero] at hcarried
    refine ⟨hfsector.trans hsector, by rw [hcarried, h0]; rfl, fun j i y hj => ?_⟩
    -- no byte to go: no segment holds one
    obtain ⟨hi, hy, -⟩ := locate_eq_some_iff.mp hj
    have hend := end_le_sum (lens bio.segments) i hi
    rw [hsum, h0, UInt32.toNat_zero] at hend
    omega

/-! ## A walk from a later vector -/

/-- A vector of the clone is that of a segment, or one the hook did not reach. -/
theorem clone_vec {data : UInt64} {junk : Nat → BioVec UInt64} {bio : Bio P} {c : Clone}
    (hc : cloneBio data junk bio = some c) {k : Nat} {v : BioVec UInt64}
    (hv : c.biIoVec[k]? = some v) :
    (∃ hk : k < (lens bio.segments).length, v.bvLen.toNat = (lens bio.segments)[k] ∧
      v.bvPage = vrdGetBioAddress data bio + UInt64.ofNat (base (lens bio.segments) k)) ∨
      ∃ n, v = junk n := by
  obtain ⟨-, -, -, -, hvecs⟩ := cloneBio_eq_some hc
  rw [hvecs] at hv
  by_cases hk : k < bio.segments.length
  · rw [List.getElem?_append_left (by rwa [addressed_length]), addressed_getElem?,
      List.getElem?_eq_getElem hk] at hv
    obtain rfl := Option.some.inj hv
    exact Or.inl ⟨by rwa [lens_length], by simp [lens], rfl⟩
  · rw [List.getElem?_append_right (by rw [addressed_length]; omega)] at hv
    obtain ⟨n, -, hn⟩ := List.mem_map.mp (List.mem_of_getElem? hv)
    exact Or.inr ⟨n, hn.symm⟩

/-- A ramdisk with one byte set, the one at `a`. -/
def oneByte (a : UInt64) : Outcome :=
  ⟨false, true, 1099511627776, fun b => if b = a then 1 else 0, true⟩

/-- What stands in the vectors the hook did not reach: one byte at 2 TiB. -/
def farJunk : Nat → BioVec UInt64 := fun _ => ⟨2199023255552, 1, 0⟩

theorem ofNat_add_ne {m : Nat} (hpos : 0 < m) (hlt : m < 2 ^ 64) (a : UInt64) :
    a + UInt64.ofNat m ≠ a := by
  intro h
  have h0 : UInt64.ofNat m = 0 := by
    have := congrArg (· - a) h
    simpa [UInt64.add_comm a, UInt64.add_sub_cancel] using this
  have hm := UInt64.toNat_ofNat_of_lt' hlt
  rw [h0] at hm
  exact absurd hm.symm (Nat.ne_of_gt hpos)

/-- The pages of such a clone can be filled, and from vector 1 on hold no byte but 0. -/
theorem farJunk_vec {bio : Bio P} (hv : bio.HandedOver) {data : UInt64}
    (hdata : vrdGetBioAddress data bio = 1099511627776) {c : Clone}
    (hc : cloneBio data farJunk bio = some c) {k : Nat} {v : BioVec UInt64}
    (hk : c.biIoVec[k]? = some v) :
    fillPage v (oneByte 1099511627776) = .ok (pageOf (oneByte 1099511627776) v) ∧
      (0 < k → ∀ x ∈ (pageOf (oneByte 1099511627776) v).bvPage, x = 0) := by
  obtain ⟨hsum, hpos⟩ := segments_sum hv
  have hsize := bio.biSize.toNat_lt
  have hkmap : (1099511627776 : UInt64) + v.bvOffset.toUInt64 ≠ 0 := by
    intro h
    have hoff := v.bvOffset.toNat_lt
    have h0 := congrArg UInt64.toNat h
    rw [UInt64.toNat_add, UInt32.toNat_toUInt64, UInt64.toNat_zero] at h0
    simp only [UInt64.reduceToNat] at h0
    omega
  rcases clone_vec hc hk with ⟨hkl, hlen, hpage⟩ | ⟨n, hjunk⟩
  · have hend := end_le_sum (lens bio.segments) k hkl
    rw [hdata] at hpage
    refine ⟨fillPage_eq_ok.mpr ⟨⟨fun h => ?_, rfl, hkmap⟩, rfl⟩, fun h0 x hx => ?_⟩
    · have h0 := congrArg UInt64.toNat (hpage.symm.trans h)
      rw [UInt64.toNat_add, UInt64.toNat_ofNat_of_lt' (by unfold UInt64.size; omega),
        UInt64.toNat_zero] at h0
      simp only [UInt64.reduceToNat] at h0
      omega
    · -- the byte lies past the first segment
      obtain ⟨m, hm, rfl⟩ := List.mem_map.mp hx
      have hmlt := List.mem_range.mp hm
      have hfirst := hpos _ (List.getElem_mem (l := lens bio.segments) (n := 0) (by omega))
      have hbase := base_mono (lens bio.segments) (show 1 ≤ k from h0)
      have hone := base_succ (lens bio.segments) 0 (by omega)
      rw [base_zero, Nat.zero_add] at hone
      rw [hpage]
      exact if_neg (by
        rw [UInt64.add_assoc, ← UInt64.ofNat_add]
        exact ofNat_add_ne (by omega) (by omega) _)
  · obtain rfl : v = ⟨2199023255552, 1, 0⟩ := hjunk
    refine ⟨fillPage_eq_ok.mpr ⟨⟨by decide, rfl, hkmap⟩, rfl⟩, fun _ x hx => ?_⟩
    have hone : (pageOf (oneByte 1099511627776) ⟨2199023255552, 1, 0⟩).bvPage = [0] := by decide
    rw [hone] at hx
    exact List.mem_singleton.mp hx

/-- **A clone that is walked from a later vector** misses the first segment: with one byte set in
the ramdisk, the first of the write, it carries none. -/
theorem not_describes {bio : Bio P} (hv : bio.HandedOver)
    (hroom : bio.segments.length ≤ bio.biVcnt.toNat) (hidx : bio.biIdx ≠ 0)
    (hsize : bio.biSize ≠ 0) :
    ∃ (data : UInt64) (junk : Nat → BioVec UInt64) (os : Nat → Outcome) (c : Clone)
      (f : Bio (List UInt8)), cloneBio data junk bio = some c ∧ bestioQBio c os = .ok f ∧
        ¬ Describes data bio os f := by
  obtain ⟨hsum, hpos⟩ := segments_sum hv
  have hidx' : bio.biIdx.toNat ≠ 0 := fun h => hidx (UInt32.toNat_inj.mp h)
  have hsize' : bio.biSize.toNat ≠ 0 := fun h => hsize (UInt32.toNat_inj.mp h)
  have hsegs : 0 < bio.segments.length := by
    refine List.length_pos_iff.mpr fun h => ?_
    rw [h] at hsum
    exact hsize' hsum.symm
  have hdata : vrdGetBioAddress (1099511627776 - bio.biSector * 512) bio = 1099511627776 :=
    UInt64.sub_add_cancel _ _
  obtain ⟨c, hc⟩ : ∃ c, cloneBio (1099511627776 - bio.biSector * 512) farJunk bio = some c :=
    exists_cloneBio_iff.mpr hroom
  obtain ⟨-, hcidx, hcsize, hdone, -⟩ := cloneBio_eq_some hc
  obtain ⟨f, hf⟩ : ∃ f, bestioQBio c (fun _ => oneByte 1099511627776) = .ok f := by
    unfold bestioQBio
    rw [fillPages_ok fun v hv' => by
      obtain ⟨k, hk⟩ := List.mem_iff_getElem?.mp hv'
      exact (farJunk_vec hv hdata hc hk).1]
    exact ⟨_, rfl⟩
  refine ⟨_, farJunk, fun _ => oneByte 1099511627776, c, f, hc, hf, fun h => ?_⟩
  have hfirst := hpos _ (List.getElem_mem (l := lens bio.segments) (n := 0) (by simpa using hsegs))
  have hbyte := h.bytes 0 0 0
    (locate_eq_some_iff.mpr ⟨by simpa using hsegs, hfirst, by rw [base_zero]⟩)
  rw [hdata] at hbyte
  have hmem := List.mem_of_getElem? hbyte
  rw [(filled_carried hdone hf).2] at hmem
  obtain ⟨page, hpage, hx⟩ := List.mem_flatMap.mp (List.mem_of_mem_take hmem)
  obtain ⟨m, hm⟩ := List.mem_iff_getElem?.mp hpage
  rw [List.getElem?_drop, List.getElem?_mapIdx, Option.map_eq_some_iff] at hm
  obtain ⟨v, hvec, rfl⟩ := hm
  rw [hcidx] at hvec
  exact absurd ((farJunk_vec hv hdata hc hvec).2 (by omega) _ hx) (by decide)

/-- Whatever the ramdisk's address and what `bio_alloc` finds: the hook makes a clone of the bio,
and where its pages are filled it describes the write. -/
def Bio.ClonesDescribe (bio : Bio P) : Prop :=
  ∀ (data : UInt64) (junk : Nat → BioVec UInt64), ∃ c, cloneBio data junk bio = some c ∧
    ∀ (os : Nat → Outcome) (f : Bio (List UInt8)), bestioQBio c os = .ok f →
      Describes data bio os f

/-- **Which clones describe their write.** For every write with any vectors, any iterator and any
`bi_vcnt`: the hook makes a clone of it that describes the write exactly when `bi_vcnt` leaves room
for its segments, and `bi_idx` is 0 or there are no bytes to go. -/
theorem clone_describes_iff (bio : Bio P) (hv : bio.HandedOver) :
    bio.ClonesDescribe ↔
      bio.segments.length ≤ bio.biVcnt.toNat ∧ (bio.biIdx = 0 ∨ bio.biSize = 0) := by
  constructor
  · intro h
    have hroom : bio.segments.length ≤ bio.biVcnt.toNat := by
      obtain ⟨c, hc, -⟩ := h 0 farJunk
      exact exists_cloneBio_iff.mp ⟨c, hc⟩
    refine ⟨hroom, ?_⟩
    by_contra hno
    obtain ⟨hidx, hsize⟩ := not_or.mp hno
    obtain ⟨data, junk, os, c, f, hc, hf, hnot⟩ := not_describes hv hroom hidx hsize
    obtain ⟨c', hc', hall⟩ := h data junk
    obtain rfl := Option.some.inj (hc.symm.trans hc')
    exact hnot (hall os f hf)
  · rintro ⟨hroom, hstart⟩ data junk
    obtain ⟨c, hc⟩ := exists_cloneBio_iff.mpr hroom
    exact ⟨c, hc, fun os f hf => describes_of_start hv hstart hc hf⟩

/-- A write of two sectors, in two pages. -/
def twoSectors : Bio Unit := ⟨8, 1, 2, 0, 1024, 0, [⟨(), 512, 0⟩, ⟨(), 512, 512⟩]⟩

/-- What a split leaves of it: its second sector. -/
def secondSector : Bio Unit := { twoSectors with biSector := 9, biIdx := 1, biSize := 512 }

/-- And its first, in a bio that has no vectors of its own. -/
def firstSector : Bio Unit := { twoSectors with biVcnt := 0, biSize := 512 }

/-- A split write: some clone of its second sector carries other bytes, and there is none of its
first. -/
theorem clone_describes_second :
    (secondSector.HandedOver ∧ ¬ secondSector.ClonesDescribe ∧
      ∃ (data : UInt64) (junk : Nat → BioVec UInt64) (os : Nat → Outcome) (c : Clone)
        (f : Bio (List UInt8)), cloneBio data junk secondSector = some c ∧
          bestioQBio c os = .ok f ∧ ¬ Describes data secondSector os f) ∧
    firstSector.HandedOver ∧ ¬ firstSector.ClonesDescribe ∧
      ∀ (data : UInt64) (junk : Nat → BioVec UInt64), cloneBio data junk firstSector = none := by
  have hv : secondSector.HandedOver := ⟨by decide, by decide, by decide, by decide⟩
  have hother := not_describes hv (by decide) (by decide) (by decide)
  have hnone : ∀ (data : UInt64) (junk : Nat → BioVec UInt64),
      cloneBio data junk firstSector = none := by
    intro data junk
    unfold cloneBio
    exact if_neg (by decide)
  refine ⟨⟨hv, fun h => ?_, hother⟩, ⟨by decide, by decide, by decide, by decide⟩, fun h => ?_,
    hnone⟩
  · obtain ⟨data, junk, os, c, f, hc, hf, hnot⟩ := hother
    obtain ⟨c', hc', hall⟩ := h data junk
    obtain rfl := Option.some.inj (hc.symm.trans hc')
    exact hnot (hall os f hf)
  · obtain ⟨c, hc, -⟩ := h 0 farJunk
    exact Option.some_ne_none c (hc.symm.trans (hnone 0 farJunk))

/-- The whole of it is described. -/
theorem clone_describes_two : twoSectors.HandedOver ∧ twoSectors.ClonesDescribe := by
  have hv : twoSectors.HandedOver := ⟨by decide, by decide, by decide, by decide⟩
  exact ⟨hv, (clone_describes_iff twoSectors hv).mpr ⟨by decide, Or.inl rfl⟩⟩

end JcmController.Backup
