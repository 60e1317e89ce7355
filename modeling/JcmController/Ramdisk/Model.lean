import Mathlib.Data.UInt
import JcmController.Lib.Flat

/-!
# The ramdisk (`bestio/ramdisk.c`)

Model of `vrd_init` and `vrd_make_request`.

* `VrdDevice` is the part of `vrd_device` the request path uses: `data`, as the bytes `vmalloc`
  returned, and `size`, the `VRD_SIZE` macro.
* `Bio` lists its segments in the order of `bio_for_each_segment`, each as the bytes of its page
  from `bv_offset`, `bv_len` of them; the lengths sum to `bi_size`, as in every bio.
* `pVHDDData` is an offset into `data`: `bi_sector*VRD_SECTOR_SIZE` wraps at 64 bits, the
  additions of the loop are pointer arithmetic. `memcpy` out of `data` and into it are
  `Flat.splice` and a run of the list.
* `Served` is what one call leaves: the device, the segments of the bio, and its calls of
  `bio_endio` and `bio_io_error`.

`bio_data_dir` has two values, so the `default` case of the `switch` has no branch here.
-/

namespace JcmController.Ramdisk

open JcmController.Lib

/-- `VRD_SECTOR_SIZE`. -/
def VRD_SECTOR_SIZE : UInt64 := 512

@[simp] theorem sectorSize_toNat : VRD_SECTOR_SIZE.toNat = 512 := rfl

/-- `vrd_device`. -/
structure VrdDevice where
  size : UInt64
  data : List UInt8

/-- `bio_data_dir`. -/
inductive Dir where
  | read
  | write
  deriving DecidableEq, Repr

/-- `struct bio`. -/
structure Bio where
  biSector : UInt64
  biSize : UInt32
  dir : Dir
  segs : List (List UInt8)
  segs_sum : (segs.map List.length).sum = biSize.toNat

/-- How a bio is ended. -/
inductive End where
  | endio
  | ioError
  deriving DecidableEq, Repr

/-- What one call of `vrd_make_request` leaves. -/
structure Served where
  device : VrdDevice
  segs : List (List UInt8)
  ends : List End

/-- `vrd_init`: `mem` is what `vmalloc(VRD_SIZE)` returns. -/
def vrdInit (size : UInt64) (mem : List UInt8) : VrdDevice := ⟨size, mem⟩

/-- The `bio_for_each_segment` loop, at offset `cur` of `data`. -/
def copySegments (dir : Dir) : List (List UInt8) → Nat → List UInt8 →
    List UInt8 × List (List UInt8)
  | [], _, data => (data, [])
  | seg :: segs, cur, data =>
    match dir with
    | .read =>
      let r := copySegments dir segs (cur + seg.length) data
      (r.1, (data.drop cur).take seg.length :: r.2)
    | .write =>
      let r := copySegments dir segs (cur + seg.length) (Flat.splice data cur seg)
      (r.1, seg :: r.2)

/-- `vrd_make_request`. -/
def vrdMakeRequest (device : VrdDevice) (bio : Bio) : Served :=
  if bio.biSector * VRD_SECTOR_SIZE + bio.biSize.toUInt64 > device.size then
    ⟨device, bio.segs, [.ioError]⟩
  else
    let r := copySegments bio.dir bio.segs (bio.biSector * VRD_SECTOR_SIZE).toNat device.data
    ⟨{ device with data := r.1 }, r.2, [.endio]⟩

/-- A run of requests, in the order the block layer hands them over: the device at the end and
what each call left. -/
def vrdRun : VrdDevice → List Bio → VrdDevice × List Served
  | device, [] => (device, [])
  | device, bio :: bios =>
    let r := vrdMakeRequest device bio
    let t := vrdRun r.device bios
    (t.1, r :: t.2)

/-! ## The same in natural numbers -/

/-- The first byte of the request, computed without wrapping. -/
def Bio.start (bio : Bio) : Nat := 512 * bio.biSector.toNat

/-- The first byte after it. -/
def Bio.endByte (bio : Bio) : Nat := bio.start + bio.biSize.toNat

/-- The bytes of the segments, in order. -/
def Bio.bytes (bio : Bio) : List UInt8 := bio.segs.flatten

theorem Bio.bytes_length (bio : Bio) : bio.bytes.length = bio.biSize.toNat := by
  rw [Bio.bytes, List.length_flatten, bio.segs_sum]

theorem start_toNat {bio : Bio} (hw : bio.endByte < 2 ^ 64) :
    (bio.biSector * VRD_SECTOR_SIZE).toNat = bio.start := by
  unfold Bio.endByte Bio.start at *
  simp only [UInt64.toNat_mul, sectorSize_toNat]
  omega

theorem guard_toNat {bio : Bio} (hw : bio.endByte < 2 ^ 64) :
    (bio.biSector * VRD_SECTOR_SIZE + bio.biSize.toUInt64).toNat = bio.endByte := by
  rw [UInt64.toNat_add, start_toNat hw, UInt32.toNat_toUInt64]
  exact Nat.mod_eq_of_lt hw

end JcmController.Ramdisk
