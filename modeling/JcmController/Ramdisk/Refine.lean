import JcmController.Ramdisk.Model

/-!
# The ramdisk is a flat byte array

`AsFlat` is what a byte array of `size` bytes holding `before` answers to a bio, and `writesOf`
the history a sequence of bios makes on it. The ramdisk's data stands for the array
`Flat.ofList data 0`.

* `copySegments_read`, `copySegments_write`: the segment loop moves the device cursor and the
  segment bytes together, so it is one transfer of the joined segments.
* `vrdMakeRequest_spec`: one call is one request on the byte array.
* `ramdisk_refines_flat`: over a run of any length, each bio is answered from the latest values
  written before it, and the data left is the latest values.
-/

namespace JcmController.Ramdisk

open JcmController.Lib

/-- What a byte array of `size` bytes holding `before` answers to `bio`. -/
structure AsFlat (size : Nat) (before : Nat → UInt8) (bio : Bio) (ans : Served) : Prop where
  /-- The bio is ended once, with an error iff it is out of range. -/
  ends : ans.ends = if size < bio.endByte then [.ioError] else [.endio]
  /-- An in-range read fills the segments, in order, with the bytes at its addresses. -/
  read : bio.endByte ≤ size → bio.dir = .read →
    ans.segs.map List.length = bio.segs.map List.length ∧
      ans.segs.flatten = Flat.read before bio.start bio.biSize.toNat
  /-- Every other bio leaves its segments alone. -/
  keep : size < bio.endByte ∨ bio.dir = .write → ans.segs = bio.segs

/-- The writes that reach the array, oldest first. -/
def writesOf (size : Nat) (bios : List Bio) : List (Flat.Entry UInt8) :=
  bios.filterMap fun bio =>
    if bio.dir = .write ∧ bio.endByte ≤ size then some (bio.start, bio.bytes) else none

theorem writesOf_snoc (size : Nat) (bios : List Bio) (bio : Bio) :
    writesOf size (bios ++ [bio]) = writesOf size bios ++ writesOf size [bio] := by
  simp [writesOf]

/-! ## The segment loop -/

/-- A read fills the segments with consecutive runs of the data, which it leaves alone. -/
theorem copySegments_read :
    ∀ (segs : List (List UInt8)) (cur : Nat) (data : List UInt8),
      cur + segs.flatten.length ≤ data.length →
      (copySegments .read segs cur data).1 = data ∧
      (copySegments .read segs cur data).2.map List.length = segs.map List.length ∧
      (copySegments .read segs cur data).2.flatten =
        Flat.read (Flat.ofList data 0) cur segs.flatten.length
  | [], _, _, _ => ⟨rfl, rfl, rfl⟩
  | seg :: segs, cur, data, h => by
    rw [List.flatten_cons, List.length_append] at h
    obtain ⟨hd, hl, hf⟩ := copySegments_read segs (cur + seg.length) data (by omega)
    have hlen : ((data.drop cur).take seg.length).length = seg.length := by
      rw [List.length_take, List.length_drop]
      omega
    refine ⟨hd, ?_, ?_⟩
    · simp only [copySegments, List.map_cons, hlen, hl]
    · simp only [copySegments, List.flatten_cons, hf, List.length_append]
      rw [Flat.read_add, Flat.take_drop_eq_read 0 (by omega)]

/-- A write stores the joined segments and leaves them alone. -/
theorem copySegments_write :
    ∀ (segs : List (List UInt8)) (cur : Nat) (data : List UInt8),
      cur + segs.flatten.length ≤ data.length →
      (copySegments .write segs cur data).2 = segs ∧
      (copySegments .write segs cur data).1.length = data.length ∧
      Flat.ofList (copySegments .write segs cur data).1 0 =
        Flat.write (Flat.ofList data 0) cur segs.flatten
  | [], _, _, _ => ⟨rfl, rfl, (Flat.write_nil _ _).symm⟩
  | seg :: segs, cur, data, h => by
    rw [List.flatten_cons, List.length_append] at h
    have hs : (Flat.splice data cur seg).length = data.length := Flat.splice_length (by omega)
    obtain ⟨hk, hl, hw⟩ := copySegments_write segs (cur + seg.length) (Flat.splice data cur seg)
      (by omega)
    refine ⟨?_, ?_, ?_⟩
    · simp only [copySegments, hk]
    · simp only [copySegments, hl, hs]
    · simp only [copySegments, hw, List.flatten_cons]
      rw [Flat.write_append, Flat.ofList_splice 0 (by omega)]

/-! ## One call -/

/-- **One call of `vrd_make_request` is one request on the byte array.** -/
theorem vrdMakeRequest_spec {device : VrdDevice} {bio : Bio}
    (hfull : device.data.length = device.size.toNat) (hw : bio.endByte < 2 ^ 64) :
    let r := vrdMakeRequest device bio
    AsFlat device.size.toNat (Flat.ofList device.data 0) bio r ∧
      r.device.size = device.size ∧ r.device.data.length = device.data.length ∧
      Flat.ofList r.device.data 0 =
        Flat.latest (Flat.ofList device.data 0) (writesOf device.size.toNat [bio]) := by
  have hguard : bio.biSector * VRD_SECTOR_SIZE + bio.biSize.toUInt64 > device.size ↔
      device.size.toNat < bio.endByte := by
    rw [gt_iff_lt, UInt64.lt_iff_toNat_lt, guard_toNat hw]
  have hlen : bio.segs.flatten.length = bio.biSize.toNat := bio.bytes_length
  unfold vrdMakeRequest
  by_cases hout : device.size.toNat < bio.endByte
  · have hnone : writesOf device.size.toNat [bio] = [] := by
      simp only [writesOf, List.filterMap_cons, List.filterMap_nil]
      rw [if_neg (by omega)]
    rw [if_pos (hguard.mpr hout), hnone]
    exact ⟨⟨(if_pos hout).symm, fun h => absurd h (by omega), fun _ => rfl⟩, rfl, rfl, rfl⟩
  · rw [if_neg (fun h => hout (hguard.mp h)), start_toNat hw]
    have hin : bio.start + bio.segs.flatten.length ≤ device.data.length := by
      unfold Bio.endByte at hout
      omega
    cases hdir : bio.dir with
    | read =>
      obtain ⟨hd, hl, hf⟩ := copySegments_read bio.segs bio.start device.data hin
      have hnone : writesOf device.size.toNat [bio] = [] := by
        simp [writesOf, hdir]
      rw [hnone]
      refine ⟨⟨(if_neg hout).symm, fun _ _ => ⟨hl, ?_⟩, fun h => ?_⟩, rfl, ?_, ?_⟩
      · rw [← hlen]
        exact hf
      · rcases h with h | h
        · exact absurd h hout
        · exact absurd h (by simp [hdir])
      · simp only [hd]
      · simp only [hd, Flat.latest_nil]
    | write =>
      obtain ⟨hk, hl, hs⟩ := copySegments_write bio.segs bio.start device.data hin
      have hone : writesOf device.size.toNat [bio] = [] ++ [(bio.start, bio.bytes)] := by
        simp only [writesOf, List.filterMap_cons, List.filterMap_nil, hdir]
        rw [if_pos ⟨trivial, Nat.le_of_not_lt hout⟩]
        rfl
      rw [hone, Flat.latest_snoc]
      refine ⟨⟨(if_neg hout).symm, fun _ h => absurd h (by simp [hdir]), fun _ => hk⟩, rfl, hl,
        hs⟩

/-! ## Runs -/

theorem vrdRun_snoc (bios : List Bio) (bio : Bio) :
    ∀ device : VrdDevice, vrdRun device (bios ++ [bio]) =
      ((vrdMakeRequest (vrdRun device bios).1 bio).device,
        (vrdRun device bios).2 ++ [vrdMakeRequest (vrdRun device bios).1 bio]) := by
  induction bios with
  | nil => exact fun _ => rfl
  | cons b bios ih =>
    intro device
    simp only [List.cons_append, vrdRun, ih]

theorem vrdRun_length : ∀ (bios : List Bio) (device : VrdDevice),
    (vrdRun device bios).2.length = bios.length
  | [], _ => rfl
  | _ :: bios, _ => by simp [vrdRun, vrdRun_length bios]

/-- **The ramdisk refines a byte array over whole runs.** Bio `k` of the run is answered from the
latest values written by the bios before it, and the data at the end is the latest values. -/
theorem ramdisk_refines_flat (size : UInt64) (mem : List UInt8) (hmem : mem.length = size.toNat)
    (bios : List Bio) (hw : ∀ bio ∈ bios, bio.endByte < 2 ^ 64) :
    let r := vrdRun (vrdInit size mem) bios
    r.2.length = bios.length ∧
      (∀ k bio ans, bios[k]? = some bio → r.2[k]? = some ans →
        AsFlat size.toNat (Flat.latest (Flat.ofList mem 0) (writesOf size.toNat (bios.take k)))
          bio ans) ∧
      r.1.size = size ∧ r.1.data.length = size.toNat ∧
      Flat.ofList r.1.data 0 = Flat.latest (Flat.ofList mem 0) (writesOf size.toNat bios) := by
  refine ⟨vrdRun_length bios _, ?_⟩
  induction bios using List.reverseRecOn with
  | nil => exact ⟨fun k bio _ h => absurd h (by simp), rfl, hmem, rfl⟩
  | append_singleton bios bio ih =>
    obtain ⟨hans, hsize, hlen, hdata⟩ := ih fun b hb => hw b (List.mem_append_left _ hb)
    have hfull : (vrdRun (vrdInit size mem) bios).1.data.length
        = (vrdRun (vrdInit size mem) bios).1.size.toNat := by rw [hlen, hsize]
    obtain ⟨hflat, hsize', hlen', hdata'⟩ := vrdMakeRequest_spec hfull
      (hw bio (List.mem_append_right _ List.mem_cons_self))
    rw [hsize, hdata] at hflat hdata'
    rw [vrdRun_snoc]
    refine ⟨fun k b ans hb ha => ?_, hsize'.trans hsize, hlen'.trans hlen, ?_⟩
    · by_cases hk : k < bios.length
      · have hk' : k < (vrdRun (vrdInit size mem) bios).2.length := by rwa [vrdRun_length]
        rw [List.getElem?_append_left hk] at hb
        rw [List.getElem?_append_left hk'] at ha
        rw [List.take_append_of_le_length (Nat.le_of_lt hk)]
        exact hans k b ans hb ha
      · have hkl : k = bios.length := by
          have := (List.getElem?_eq_some_iff.mp hb).1
          simp at this
          omega
        subst hkl
        have hb' : bio = b := by simpa using hb
        have ha' : vrdMakeRequest (vrdRun (vrdInit size mem) bios).1 bio = ans := by
          rw [← vrdRun_length bios (vrdInit size mem)] at ha
          simpa using ha
        rw [List.take_left' rfl, ← hb', ← ha']
        exact hflat
    · rw [hdata', writesOf_snoc, Flat.latest_append]

/-- A disk of 512 bytes: a write of two segments, a read of three, and a write past the end. -/
def threeBios : List Bio :=
  [⟨0, 4, .write, [[1, 2], [3, 4]], rfl⟩, ⟨0, 3, .read, [[0], [0], [0]], rfl⟩,
    ⟨1, 1, .write, [[9]], rfl⟩]

theorem ramdisk_refines_flat_three :
    let r := vrdRun (vrdInit 512 (List.replicate 512 7)) threeBios
    r.2.length = 3 ∧
      (∀ k bio ans, threeBios[k]? = some bio → r.2[k]? = some ans →
        AsFlat 512 (Flat.latest (Flat.ofList (List.replicate 512 7) 0)
          (writesOf 512 (threeBios.take k))) bio ans) ∧
      r.1.size = 512 ∧ r.1.data.length = 512 ∧
      Flat.ofList r.1.data 0 =
        Flat.latest (Flat.ofList (List.replicate 512 7) 0) (writesOf 512 threeBios) :=
  ramdisk_refines_flat 512 (List.replicate 512 7) List.length_replicate threeBios (by decide)

end JcmController.Ramdisk
