import JcmController.Lib.Concat

/-!
# The concatenated virtual disk (`vrd_2018_04_18.c`)

Model of `device_init` and `device_make_request`, the module that joins the local ramdisk and the
remote nbd devices into one disk.

* `sector_t` and `unsigned long` are `UInt64`, `unsigned int` is `UInt32`; every sum, product and
  comparison wraps and widens as in the C expression it stands for.
* `RootDevice` holds what `device_init` leaves: the member list in `list_add_tail` order,
  `total_size` and the capacity given to `set_capacity`. `initRoot` is the part of `device_init`
  after the member list is built, for any list; `deviceInit` is the source's list of two.
* A member's `dev_size` is `get_capacity` of its block device, so it is read off the device.
* `Bio` keeps the part of `struct bio` the driver and `bio_split` touch, and a payload `data` of
  one element a sector, which stands for the pages the bio points to.
* `deviceMakeRequest` returns the calls it makes, in order (`Action`).
* `bioSplit` is the kernel's: `BUG_ON` unless `0 < sectors < bio_sectors(bio)`, otherwise a new
  bio for the first `sectors` sectors, and the old bio advanced to the rest. Its `sectors` is an
  `int`, to which the driver's 64-bit sum is narrowed.
-/

namespace JcmController.Disk

open JcmController.Lib

/-- `DEVICE_SECTOR_SIZE`. -/
def DEVICE_SECTOR_SIZE : UInt64 := 512

@[simp] theorem sectorSize_toNat : DEVICE_SECTOR_SIZE.toNat = 512 := rfl

/-- A block device: which one, and its `get_capacity` in sectors. -/
structure BlockDevice where
  id : Nat
  capacity : UInt64
  deriving DecidableEq, Repr

/-- `get_capacity(bdev->bd_disk)`. -/
def getCapacity (bdev : BlockDevice) : UInt64 := bdev.capacity

/-- `struct dev_list`. -/
structure DevList where
  devSize : UInt64
  bdev : BlockDevice

/-- `struct root_device_t`; `capacity` is the `set_capacity` of its `gd`. -/
structure RootDevice where
  totalSize : UInt32
  totalList : List DevList
  capacity : UInt64

/-- The list node `device_init` fills for one member. -/
def devListOf (bdev : BlockDevice) : DevList := ⟨getCapacity bdev, bdev⟩

/-- `root_device.total_size += (lh->dev_size*DEVICE_SECTOR_SIZE)`: added in 64 bits, stored in
32. -/
def addSize (totalSize : UInt32) (lh : DevList) : UInt32 :=
  (totalSize.toUInt64 + lh.devSize * DEVICE_SECTOR_SIZE).toUInt32

/-- `device_init` once the member list is built. -/
def initRoot (members : List BlockDevice) : RootDevice :=
  let totalList := members.map devListOf
  let totalSize := totalList.foldl addSize 0
  { totalSize, totalList, capacity := (totalSize / 512).toUInt64 }

/-- `device_init`: `/dev/bestioa`, then `/dev/nbd0`. -/
def deviceInit (jcm back : BlockDevice) : RootDevice := initRoot [jcm, back]

/-- The part of `struct bio` the driver works on. `biBdev` is `none` while the bio still points
at the virtual disk. -/
structure Bio (α : Type) where
  biSector : UInt64
  biSize : UInt32
  biBdev : Option BlockDevice
  data : List α
  deriving DecidableEq, Repr

/-- `bio_sectors(bio)`. -/
def Bio.sectors {α : Type} (bio : Bio α) : UInt32 := bio.biSize / 512

/-- `bio_end_sector(bio)`. -/
def Bio.endSector {α : Type} (bio : Bio α) : UInt64 := bio.biSector + bio.sectors.toUInt64

/-- The conversion of a 64-bit argument to an `int` parameter. -/
def toInt (n : UInt64) : Int := (n.toBitVec.setWidth 32).toInt

/-- The kernel's `bio_split`: the new bio with the first `sectors` sectors, and the original one
advanced past them; `none` is `BUG_ON`. -/
def bioSplit {α : Type} (bio : Bio α) (sectors : Int) : Option (Bio α × Bio α) :=
  if 0 < sectors ∧ sectors < bio.sectors.toNat then
    let n := sectors.toNat
    some ({ bio with biSize := UInt32.ofNat (n * 512), data := bio.data.take n },
      { bio with
        biSector := bio.biSector + UInt64.ofNat n
        biSize := bio.biSize - UInt32.ofNat (n * 512)
        data := bio.data.drop n })
  else none

/-- A call of the driver: `bio_split` with its arguments, the kernel's `BUG_ON` in it,
`generic_make_request` or `bio_io_error`. -/
inductive Action (α : Type) where
  | split (bio : Bio α) (sectors : Int)
  | bug
  | submit (bio : Bio α)
  | ioError (bio : Bio α)
  deriving DecidableEq, Repr

/-- `bio->bi_bdev = lh->bdev; bio->bi_iter.bi_sector -= before_sector`. -/
def Bio.redirect {α : Type} (bio : Bio α) (lh : DevList) (before : UInt64) : Bio α :=
  { bio with biSector := bio.biSector - before, biBdev := some lh.bdev }

/-- The `list_for_each_entry` loop of `device_make_request`, with its `before_sector` and the bio
it works on. -/
def routeLoop {α : Type} : List DevList → UInt64 → Bio α → List (Action α)
  | [], _, _ => []
  | lh :: rest, before, bio =>
    if bio.biSector ≥ lh.devSize + before then
      routeLoop rest (before + lh.devSize) bio
    else if bio.biSector < lh.devSize + before then
      if bio.endSector > lh.devSize + before then
        let sectors := toInt (lh.devSize + before)
        match bioSplit bio sectors with
        | none => [.split bio sectors, .bug]
        | some (split, bio') =>
          -- the advanced original goes to this member, the loop goes on with the first part
          .split bio sectors :: .submit (bio'.redirect lh before) ::
            routeLoop rest (before + lh.devSize) split
      else [.submit (bio.redirect lh before)]
    else routeLoop rest before bio

/-- `device_make_request`. -/
def deviceMakeRequest {α : Type} (root : RootDevice) (bio : Bio α) : List (Action α) :=
  if bio.biSector * DEVICE_SECTOR_SIZE + bio.biSize.toUInt64 > root.totalSize.toUInt64 then
    [.ioError bio]
  else routeLoop root.totalList 0 bio

/-! ## The same in natural numbers -/

/-- The member sizes in sectors. -/
def sizes (members : List BlockDevice) : List Nat := members.map fun d => d.capacity.toNat

/-- The first byte after the request, computed without wrapping. -/
def Bio.endByte {α : Type} (bio : Bio α) : Nat := 512 * bio.biSector.toNat + bio.biSize.toNat

@[simp] theorem sizes_length (members : List BlockDevice) :
    (sizes members).length = members.length := by simp [sizes]

@[simp] theorem sizes_cons (d : BlockDevice) (members : List BlockDevice) :
    sizes (d :: members) = d.capacity.toNat :: sizes members := rfl

theorem sizes_getElem {members : List BlockDevice} {i : Nat} {d : BlockDevice}
    (h : members[i]? = some d) (hi : i < (sizes members).length) :
    (sizes members)[i] = d.capacity.toNat := by
  obtain ⟨hi', rfl⟩ := List.getElem?_eq_some_iff.mp h
  simp [sizes]

theorem sectors_toNat {α : Type} (bio : Bio α) : bio.sectors.toNat = bio.biSize.toNat / 512 := by
  simp [Bio.sectors, UInt32.toNat_div]

theorem sectors_lt {α : Type} (bio : Bio α) : bio.sectors.toNat < 2 ^ 23 := by
  have := bio.biSize.toNat_lt
  rw [sectors_toNat]
  omega

theorem endSector_toNat {α : Type} (bio : Bio α)
    (h : bio.biSector.toNat + bio.sectors.toNat < 2 ^ 64) :
    bio.endSector.toNat = bio.biSector.toNat + bio.sectors.toNat := by
  simp only [Bio.endSector, UInt64.toNat_add, UInt32.toNat_toUInt64]
  omega

/-- The accumulated `total_size`, modulo its 32 bits. -/
theorem foldl_addSize (members : List BlockDevice) (t : UInt32) :
    ((members.map devListOf).foldl addSize t).toNat
      = (t.toNat + 512 * (sizes members).sum) % 2 ^ 32 := by
  induction members generalizing t with
  | nil => simp [sizes, Nat.mod_eq_of_lt t.toNat_lt]
  | cons d members ih =>
    have hstep : (addSize t (devListOf d)).toNat
        = (t.toNat + 512 * d.capacity.toNat) % 2 ^ 32 := by
      simp only [addSize, devListOf, getCapacity, UInt64.toNat_toUInt32, UInt64.toNat_add,
        UInt64.toNat_mul, UInt32.toNat_toUInt64, sectorSize_toNat]
      omega
    rw [List.map_cons, List.foldl_cons, ih, hstep, sizes_cons, List.sum_cons]
    omega

/-- `total_size` after `device_init`. -/
theorem totalSize_toNat (members : List BlockDevice) :
    (initRoot members).totalSize.toNat = 512 * (sizes members).sum % 2 ^ 32 := by
  have h := foldl_addSize members 0
  rw [show (0 : UInt32).toNat = 0 from rfl, Nat.zero_add] at h
  exact h

/-- The capacity `device_init` publishes, in sectors. -/
theorem capacity_toNat (members : List BlockDevice) :
    (initRoot members).capacity.toNat = 512 * (sizes members).sum % 2 ^ 32 / 512 := by
  rw [← totalSize_toNat]
  simp [initRoot]

/-- The bound the driver compares with is the request's end modulo 2^64. -/
theorem guard_toNat {α : Type} (bio : Bio α) :
    (bio.biSector * DEVICE_SECTOR_SIZE + bio.biSize.toUInt64).toNat = bio.endByte % 2 ^ 64 := by
  simp only [Bio.endByte, UInt64.toNat_add, UInt64.toNat_mul, UInt32.toNat_toUInt64,
    sectorSize_toNat]
  omega

/-- A request that ends inside a disk below 4 GiB passes the guard. -/
theorem guard_passes {α : Type} {members : List BlockDevice} {bio : Bio α}
    (htotal : 512 * (sizes members).sum < 2 ^ 32)
    (hend : bio.endByte ≤ 512 * (sizes members).sum) :
    deviceMakeRequest (initRoot members) bio = routeLoop (members.map devListOf) 0 bio := by
  unfold deviceMakeRequest
  rw [if_neg]
  · rfl
  · rw [gt_iff_lt, UInt64.lt_iff_toNat_lt, guard_toNat, UInt32.toNat_toUInt64, totalSize_toNat]
    omega

end JcmController.Disk
