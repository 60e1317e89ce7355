import JcmController.Ramdisk.Model

/-!
# Index safety of the ramdisk (`bestio/main.c`, `bestio/ramdisk.c`)

Model of `my_init`, and of the `memcpy` calls of `vrd_make_request` by their places in the ramdisk.

* `memory_size` is in MiB. `memory_size*1024*1024` wraps at 64 bits, like the product
  `bi_sector*VRD_SECTOR_SIZE` of the guard and of the address, and the sum of the guard.
* `vrdCopies` lists the calls of one request. `copySegments_copies` says that they are the ones
  `copySegments` makes.

Results:
* `vrdCopies_below_iff`: what the guard leaves of a bound on the offsets.
* **`index_safe_iff`**: every byte lies in the `memory_size` MiB of the ramdisk exactly when the
  guard's sum stays below 2^64, or the size in bytes does not, or the wrapped sum is past the disk.
* `inside_vmalloc_iff`: the same for the bytes `vmalloc` was asked for.
-/

namespace JcmController.Ramdisk

open JcmController.Lib

/-- `my_init`: `mem` is what `vmalloc` returns. -/
def myInit (memorySize : UInt64) (mem : List UInt8) : VrdDevice :=
  vrdInit (memorySize * 1024 * 1024) mem

/-- A `memcpy` of the segment loop: its offset into `data`, and its length. -/
structure Copy where
  offset : Nat
  len : Nat
  deriving DecidableEq, Repr

/-- The `memcpy` calls of the segment loop, at offset `cur` of `data`. -/
def copies : List (List UInt8) → Nat → List Copy
  | [], _ => []
  | seg :: segs, cur => ⟨cur, seg.length⟩ :: copies segs (cur + seg.length)

/-- The `memcpy` calls of `vrd_make_request`. -/
def vrdCopies (device : VrdDevice) (bio : Bio) : List Copy :=
  if bio.biSector * VRD_SECTOR_SIZE + bio.biSize.toUInt64 > device.size then []
  else copies bio.segs (bio.biSector * VRD_SECTOR_SIZE).toNat

/-- The first byte of the request, as the driver computes it. -/
def Bio.wrappedStart (bio : Bio) : Nat := 512 * bio.biSector.toNat % 2 ^ 64

/-! ## The calls are those of the segment loop -/

/-- **The segment loop is its `memcpy` calls**: a read takes them out of the data, a write makes
them one after the other. -/
theorem copySegments_copies (segs : List (List UInt8)) (cur : Nat) (data : List UInt8) :
    copySegments .read segs cur data =
        (data, (copies segs cur).map fun c => (data.drop c.offset).take c.len) ∧
      copySegments .write segs cur data =
        (((copies segs cur).zip segs).foldl (fun d p => Flat.splice d p.1.offset p.2) data,
          segs) := by
  induction segs generalizing cur data with
  | nil => exact ⟨rfl, rfl⟩
  | cons seg segs ih =>
    obtain ⟨hread, -⟩ := ih (cur + seg.length) data
    obtain ⟨-, hwrite⟩ := ih (cur + seg.length) (Flat.splice data cur seg)
    constructor
    · simp only [copySegments, hread, copies, List.map_cons]
    · simp only [copySegments, hwrite, copies, List.zip_cons_cons, List.foldl_cons]

/-- The calls cover one run of bytes, from `cur` on. -/
theorem exists_mem_copies_iff {segs : List (List UInt8)} {cur x : Nat} :
    (∃ c ∈ copies segs cur, c.offset ≤ x ∧ x < c.offset + c.len) ↔
      cur ≤ x ∧ x < cur + segs.flatten.length := by
  induction segs generalizing cur with
  | nil => simp [copies]
  | cons seg segs ih =>
    rw [List.flatten_cons, List.length_append, copies, List.exists_mem_cons_iff, ih]
    show (cur ≤ x ∧ x < cur + seg.length) ∨ _ ↔ _
    omega

/-! ## What the guard leaves -/

theorem wrappedStart_toNat (bio : Bio) :
    (bio.biSector * VRD_SECTOR_SIZE).toNat = bio.wrappedStart := by
  simp only [UInt64.toNat_mul, sectorSize_toNat, Bio.wrappedStart]
  omega

theorem wrappedEnd_toNat (bio : Bio) :
    (bio.biSector * VRD_SECTOR_SIZE + bio.biSize.toUInt64).toNat =
      (bio.wrappedStart + bio.biSize.toNat) % 2 ^ 64 := by
  rw [UInt64.toNat_add, wrappedStart_toNat, UInt32.toNat_toUInt64]

/-- Every byte the request copies is below `bound`. -/
def Below (device : VrdDevice) (bio : Bio) (bound : Nat) : Prop :=
  ∀ c ∈ vrdCopies device bio, ∀ x, c.offset ≤ x → x < c.offset + c.len → x < bound

/-- **A bound holds** when the guard stops the request, or it is empty, or ends inside the bound. -/
theorem vrdCopies_below_iff {device : VrdDevice} {bio : Bio} {bound : Nat} :
    Below device bio bound ↔
      device.size.toNat < (bio.wrappedStart + bio.biSize.toNat) % 2 ^ 64 ∨
        bio.biSize.toNat = 0 ∨ bio.wrappedStart + bio.biSize.toNat ≤ bound := by
  have hlen : bio.segs.flatten.length = bio.biSize.toNat := bio.bytes_length
  unfold Below vrdCopies
  by_cases hout : device.size.toNat < (bio.wrappedStart + bio.biSize.toNat) % 2 ^ 64
  · rw [if_pos (by rwa [gt_iff_lt, UInt64.lt_iff_toNat_lt, wrappedEnd_toNat])]
    exact iff_of_true (fun c hc => absurd hc List.not_mem_nil) (Or.inl hout)
  · rw [if_neg (by rwa [gt_iff_lt, UInt64.lt_iff_toNat_lt, wrappedEnd_toNat]), wrappedStart_toNat,
      or_iff_right hout]
    constructor
    · intro h
      by_contra hc
      -- the last byte of the request is copied by some call
      have hlast : bio.wrappedStart ≤ bio.wrappedStart + bio.biSize.toNat - 1 ∧
          bio.wrappedStart + bio.biSize.toNat - 1 <
            bio.wrappedStart + bio.segs.flatten.length := by omega
      obtain ⟨c, hmem, hlo, hhi⟩ := exists_mem_copies_iff.mpr hlast
      have := h c hmem _ hlo hhi
      omega
    · intro h c hmem x hlo hhi
      obtain ⟨hx, hx'⟩ := exists_mem_copies_iff.mp ⟨c, hmem, hlo, hhi⟩
      omega

/-! ## The ramdisk of `my_init` -/

theorem myInit_size (memorySize : UInt64) (mem : List UInt8) :
    (myInit memorySize mem).size.toNat = 1048576 * memorySize.toNat % 2 ^ 64 := by
  simp only [myInit, vrdInit, UInt64.toNat_mul, UInt64.reduceToNat]
  omega

/-- **Index safety.** For every `memory_size` and every bio, the bytes a request copies lie in the
`memory_size` MiB of the ramdisk, computed without wrapping, exactly when the sum of the guard
does not wrap, or the size does, or the wrapped sum is past the size. -/
theorem index_safe_iff (memorySize : UInt64) (mem : List UInt8) (bio : Bio) :
    Below (myInit memorySize mem) bio (1048576 * memorySize.toNat) ↔
      bio.wrappedStart + bio.biSize.toNat < 2 ^ 64 ∨ 2 ^ 44 ≤ memorySize.toNat ∨
        1048576 * memorySize.toNat + 2 ^ 64 < bio.wrappedStart + bio.biSize.toNat := by
  rw [vrdCopies_below_iff, myInit_size]
  have hstart : bio.wrappedStart < 2 ^ 64 := Nat.mod_lt _ (by decide)
  have hsize := bio.biSize.toNat_lt
  have hmem := memorySize.toNat_lt
  omega

/-- The bytes lie in what `vmalloc` was asked for exactly when the guard's sum does not wrap, or is
past the device after wrapping. -/
theorem inside_vmalloc_iff (device : VrdDevice) (bio : Bio) :
    Below device bio device.size.toNat ↔
      bio.wrappedStart + bio.biSize.toNat < 2 ^ 64 ∨
        device.size.toNat + 2 ^ 64 < bio.wrappedStart + bio.biSize.toNat := by
  rw [vrdCopies_below_iff]
  have hstart : bio.wrappedStart < 2 ^ 64 := Nat.mod_lt _ (by decide)
  have hsize := bio.biSize.toNat_lt
  have hdev := device.size.toNat_lt
  omega

/-- A write of one sector at sector 2^55-1, whose end wraps to 0. -/
def lastSector : Bio :=
  ⟨36028797018963967, 512, .write, [List.replicate 512 9],
    by rw [List.map_singleton, List.length_replicate, List.sum_singleton]; rfl⟩

/-- On a ramdisk of 1 MiB it passes the guard, and is stored at offset 2^64-512. -/
theorem lastSector_outside :
    vrdCopies (myInit 1 (List.replicate 1048576 0)) lastSector =
        [⟨18446744073709551104, 512⟩] ∧
      ¬ Below (myInit 1 (List.replicate 1048576 0)) lastSector (1048576 * (1 : UInt64).toNat) := by
  have hguard : ¬ lastSector.biSector * VRD_SECTOR_SIZE + lastSector.biSize.toUInt64 >
      (1 * 1024 * 1024 : UInt64) := by decide
  have hcopies : vrdCopies (myInit 1 (List.replicate 1048576 0)) lastSector =
      [⟨18446744073709551104, 512⟩] := by
    refine (if_neg hguard).trans ?_
    simp only [copies, lastSector, List.length_replicate]
    rfl
  refine ⟨hcopies, fun h => ?_⟩
  rw [Below, hcopies] at h
  exact absurd (h _ List.mem_cons_self 18446744073709551104 (le_refl _) (by decide)) (by decide)

end JcmController.Ramdisk
