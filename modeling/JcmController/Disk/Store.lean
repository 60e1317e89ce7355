import JcmController.Disk.Routing
import JcmController.Lib.Volume
import JcmController.Ramdisk.Refine

/-!
# The virtual disk as a store

`device_make_request` over members that keep data: local ramdisks, served by `vrd_make_request`,
and nbd devices. An nbd device keeps its data on another host, so its driver is a parameter
(`Nbd`), of which `Nbd.Stores` says that it behaves as a byte array.

* A request is its sectors, of 512 bytes each; a member gets the sectors of its fragment as the
  segments of a bio. The payload of `Disk.Bio` is the list of them.
* `carryOut` runs the calls of the driver in order. `BUG_ON` ends them.
* `heldBy` is what the members hold, laid end to end.

Results:
* `member_stores`: a member of either kind behaves as a byte array.
* `storeRequest_fits`: a request inside one member is the same request of the volume.
* **`virtual_disk_refines_flat`**: over a run of any length in which every request lies inside one
  member or ends behind the disk, the virtual disk is one byte array of the joined size.
-/

namespace JcmController.Disk

open JcmController.Lib JcmController.Lib.Concat
open JcmController.Ramdisk (Dir End VrdDevice vrdMakeRequest)

variable {ρ : Type}

/-! ## The members -/

/-- What a call of a driver leaves of its bio: the segments, and how it was ended. -/
structure Answer where
  segs : List (List UInt8)
  ends : List End
  deriving DecidableEq, Repr

/-- The driver of an nbd device, and what the device holds. -/
structure Nbd (ρ : Type) where
  makeRequest : ρ → Ramdisk.Bio → ρ × Answer
  holds : ρ → Nat → UInt8

/-- What is behind a member. -/
inductive Member (ρ : Type) where
  | ramdisk (device : VrdDevice)
  | nbd (remote : ρ)

/-- What is behind each block device, by its `id`. -/
abbrev Members (ρ : Type) := Nat → Member ρ

/-- The driver of a member. -/
def Member.makeRequest (nbd : Nbd ρ) (bio : Ramdisk.Bio) : Member ρ → Member ρ × Answer
  | .ramdisk device =>
    let r := vrdMakeRequest device bio
    (.ramdisk r.device, ⟨r.segs, r.ends⟩)
  | .nbd remote =>
    let r := nbd.makeRequest remote bio
    (.nbd r.1, r.2)

/-- The bytes a member holds. -/
def Member.holds (nbd : Nbd ρ) : Member ρ → Nat → UInt8
  | .ramdisk device => Flat.ofList device.data 0
  | .nbd remote => nbd.holds remote

/-! ## Requests -/

/-- A request to the virtual disk: whole sectors. -/
structure Request where
  dir : Dir
  bio : Bio (List UInt8)
  whole : ∀ sector ∈ bio.data, sector.length = 512
  filled : 512 * bio.data.length = bio.biSize.toNat

/-- A fragment as the bio its member gets. -/
def handOn (dir : Dir) (f : Bio (List UInt8)) : Option Ramdisk.Bio :=
  if h : (f.data.map List.length).sum = f.biSize.toNat then
    some ⟨f.biSector, f.biSize, dir, f.data, h⟩
  else none

/-- `generic_make_request` of a fragment. -/
def submit (nbd : Nbd ρ) (dir : Dir) (parts : Members ρ) (f : Bio (List UInt8)) :
    Members ρ × Answer :=
  match f.biBdev, handOn dir f with
  | some d, some bio =>
    let r := (parts d.id).makeRequest nbd bio
    (Function.update parts d.id r.1, r.2)
  | _, _ => (parts, ⟨f.data, []⟩)

/-- The calls of the driver, one after the other, with the answers to its fragments. -/
def carryOut (nbd : Nbd ρ) (dir : Dir) :
    Members ρ → List (Action (List UInt8)) → Members ρ × List Answer
  | parts, [] => (parts, [])
  | parts, .split _ _ :: acts => carryOut nbd dir parts acts
  | parts, .bug :: _ => (parts, [])
  | parts, .submit f :: acts =>
    let r := submit nbd dir parts f
    let t := carryOut nbd dir r.1 acts
    (t.1, r.2 :: t.2)
  | parts, .ioError bio :: acts =>
    let t := carryOut nbd dir parts acts
    (t.1, ⟨bio.data, [.ioError]⟩ :: t.2)

/-- One request: `device_make_request`, and the members it calls. -/
def storeRequest (nbd : Nbd ρ) (members : List BlockDevice) (parts : Members ρ) (r : Request) :
    Members ρ × List Answer :=
  carryOut nbd r.dir parts (deviceMakeRequest (initRoot members) r.bio)

/-! ## A byte array -/

/-- The first byte of the request. -/
def Request.start (r : Request) : Nat := 512 * r.bio.biSector.toNat

/-- The bytes of its sectors. -/
def Request.bytes (r : Request) : List UInt8 := r.bio.data.flatten

/-- What a byte array of `size` bytes holding `before` answers: one ended bio, with the bytes at
its addresses where it is a read in range. -/
structure Flatly (size : Nat) (before : Nat → UInt8) (dir : Dir) (start : Nat)
    (segs : List (List UInt8)) (len : Nat) (ans : Answer) : Prop where
  ends : ans.ends = if size < start + len then [.ioError] else [.endio]
  read : start + len ≤ size → dir = .read →
    ans.segs.map List.length = segs.map List.length ∧
      ans.segs.flatten = Flat.read before start len
  keep : size < start + len ∨ dir = .write → ans.segs = segs

/-- The writes that reach the array. -/
def writesAt (size : Nat) (dir : Dir) (start : Nat) (bytes : List UInt8) :
    List (Flat.Entry UInt8) :=
  if dir = .write ∧ start + bytes.length ≤ size then [(start, bytes)] else []

/-- **An nbd device of `size` bytes behaves as a byte array** on the requests in its range, in the
states with `Inv`. -/
structure Nbd.Stores (nbd : Nbd ρ) (Inv : Nat → ρ → Prop) : Prop where
  keeps : ∀ size s bio, Inv size s → bio.endByte ≤ size → Inv size (nbd.makeRequest s bio).1
  holds : ∀ size s bio, Inv size s → bio.endByte ≤ size →
    nbd.holds (nbd.makeRequest s bio).1 =
      Flat.latest (nbd.holds s) (writesAt size bio.dir bio.start bio.bytes)
  answers : ∀ size s bio, Inv size s → bio.endByte ≤ size →
    Flatly size (nbd.holds s) bio.dir bio.start bio.segs bio.biSize.toNat (nbd.makeRequest s bio).2

/-- What each member of a disk holds. -/
def storesOf (nbd : Nbd ρ) (members : List BlockDevice) (parts : Members ρ) (i : Nat) :
    Nat → UInt8 :=
  match members[i]? with
  | some d => (parts d.id).holds nbd
  | none => fun _ => 0

/-- What the members hold, laid end to end. -/
def heldBy (nbd : Nbd ρ) (members : List BlockDevice) (parts : Members ρ) : Nat → UInt8 :=
  Volume.joined ((sizes members).map fun n => 512 * n) (storesOf nbd members parts) 0

/-- A ramdisk of `size` bytes, with its memory. -/
def HasMemory (size : Nat) (device : VrdDevice) : Prop :=
  device.size.toNat = size ∧ device.data.length = size

/-- A member of `size` bytes is in working order: the ramdisk has its memory, an nbd device is in a
state with `Inv`. -/
def Member.Ready (Inv : Nat → ρ → Prop) (size : Nat) : Member ρ → Prop
  | .ramdisk device => HasMemory size device
  | .nbd remote => Inv size remote

/-- Every member of the disk is, with the capacity it has told. -/
def Ready (Inv : Nat → ρ → Prop) (members : List BlockDevice) (parts : Members ρ) : Prop :=
  ∀ d ∈ members, (parts d.id).Ready Inv (512 * d.capacity.toNat)

/-! ## One member -/

variable {nbd : Nbd ρ} {Inv : Nat → ρ → Prop}

/-- What ends in the range of a ramdisk does not wrap. -/
theorem HasMemory.no_wrap {size : Nat} {device : VrdDevice} (h : HasMemory size device) {n : Nat}
    (hn : n ≤ size) : n < 2 ^ 64 := by
  have hbound := device.size.toNat_lt
  have hsize := h.1
  omega

/-- **A ramdisk behaves as a byte array.** -/
theorem ramdisk_stores {size : Nat} {device : VrdDevice} (h : HasMemory size device)
    {bio : Ramdisk.Bio} (hwrap : bio.endByte < 2 ^ 64) :
    HasMemory size (vrdMakeRequest device bio).device ∧
      Flat.ofList (vrdMakeRequest device bio).device.data 0 =
        Flat.latest (Flat.ofList device.data 0) (writesAt size bio.dir bio.start bio.bytes) ∧
      Flatly size (Flat.ofList device.data 0) bio.dir bio.start bio.segs bio.biSize.toNat
        ⟨(vrdMakeRequest device bio).segs, (vrdMakeRequest device bio).ends⟩ := by
  obtain ⟨hsize, hlen⟩ := h
  have hfull : device.data.length = device.size.toNat := hlen.trans hsize.symm
  obtain ⟨hflat, hsize', hlen', hdata⟩ := Ramdisk.vrdMakeRequest_spec hfull hwrap
  rw [hsize] at hflat hdata
  have hlength := bio.bytes_length
  have hwrites : Ramdisk.writesOf size [bio] = writesAt size bio.dir bio.start bio.bytes := by
    unfold Ramdisk.writesOf writesAt
    rw [List.filterMap_cons, List.filterMap_nil, hlength]
    unfold Ramdisk.Bio.endByte
    by_cases h : bio.dir = .write ∧ bio.start + bio.biSize.toNat ≤ size
    · simp only [if_pos h]
    · simp only [if_neg h]
  rw [hwrites] at hdata
  exact ⟨⟨by rw [hsize', hsize], by rw [hlen', hlen]⟩, hdata, hflat.ends, hflat.read, hflat.keep⟩

/-- **A member of either kind behaves as a byte array.** -/
theorem member_stores (hnbd : nbd.Stores Inv) {m : Member ρ} {size : Nat} (hm : m.Ready Inv size)
    {bio : Ramdisk.Bio} (hin : bio.endByte ≤ size) :
    (m.makeRequest nbd bio).1.Ready Inv size ∧
      (m.makeRequest nbd bio).1.holds nbd =
        Flat.latest (m.holds nbd) (writesAt size bio.dir bio.start bio.bytes) ∧
      Flatly size (m.holds nbd) bio.dir bio.start bio.segs bio.biSize.toNat
        (m.makeRequest nbd bio).2 := by
  cases m with
  | ramdisk device => exact ramdisk_stores hm (HasMemory.no_wrap hm hin)
  | nbd remote =>
    exact ⟨hnbd.keeps size remote bio hm hin, hnbd.holds size remote bio hm hin,
      hnbd.answers size remote bio hm hin⟩

/-! ## One request -/

theorem Request.length (r : Request) :
    (r.bio.data.map List.length).sum = r.bio.biSize.toNat := by
  rw [List.map_congr_left r.whole, List.map_const', List.sum_replicate, ← r.filled]
  exact Nat.mul_comm _ _

theorem Request.bytes_length (r : Request) : r.bytes.length = r.bio.biSize.toNat := by
  rw [Request.bytes, List.length_flatten, r.length]

theorem sizes_bytes_getElem {members : List BlockDevice} {i : Nat} {d : BlockDevice}
    (h : members[i]? = some d) (hi : i < ((sizes members).map fun n => 512 * n).length) :
    ((sizes members).map fun n => 512 * n)[i] = 512 * d.capacity.toNat := by
  rw [List.getElem_map, sizes_getElem h]

theorem storesOf_eq {members : List BlockDevice} {i : Nat} {d : BlockDevice}
    (hd : members[i]? = some d) (parts : Members ρ) :
    storesOf nbd members parts i = (parts d.id).holds nbd := by
  unfold storesOf
  rw [hd]

/-- One member has gone on, and the others hold what they held. -/
theorem storesOf_update {members : List BlockDevice} (hids : (members.map BlockDevice.id).Nodup)
    {i : Nat} {d : BlockDevice} (hd : members[i]? = some d) (parts : Members ρ) (m : Member ρ) :
    storesOf nbd members (Function.update parts d.id m) =
      Function.update (storesOf nbd members parts) i (m.holds nbd) := by
  have hid : ∀ {j : Nat} {e : BlockDevice}, members[j]? = some e →
      (members.map BlockDevice.id)[j]? = some e.id := by
    intro j e he
    rw [List.getElem?_map, he]
    rfl
  funext j
  by_cases hj : j = i
  · subst hj
    rw [storesOf_eq hd, Function.update_self, Function.update_self]
  · rw [Function.update_of_ne hj]
    cases he : members[j]? with
    | none =>
      unfold storesOf
      rw [he]
    | some e =>
      -- another number is another device
      have hne : e.id ≠ d.id := fun heq => by
        refine hj ((List.getElem?_inj (List.getElem?_eq_some_iff.mp (hid he)).1 hids).mp ?_)
        rw [hid he, hid hd, heq]
      rw [storesOf_eq he, storesOf_eq he, Function.update_of_ne hne]

/-- The member that a fragment goes to answers it. -/
theorem submit_eq {dir : Dir} {f : Bio (List UInt8)} {d : BlockDevice} {bio : Ramdisk.Bio}
    (hd : f.biBdev = some d) (hbio : handOn dir f = some bio) (parts : Members ρ) :
    submit nbd dir parts f =
      (Function.update parts d.id ((parts d.id).makeRequest nbd bio).1,
        ((parts d.id).makeRequest nbd bio).2) := by
  unfold submit
  rw [hd, hbio]

/-- A write in range, or no write. -/
theorem writesAt_in {size : Nat} {dir : Dir} {start : Nat} {bytes : List UInt8}
    (h : start + bytes.length ≤ size) :
    writesAt size dir start bytes = if dir = .write then [(start, bytes)] else [] := by
  unfold writesAt
  by_cases hdir : dir = .write
  · rw [if_pos hdir, if_pos ⟨hdir, h⟩]
  · rw [if_neg hdir, if_neg fun hw => hdir hw.1]

/-- **A transfer inside one member** is the same transfer of the volume: what is held, and what is
answered. -/
theorem transfer_joined {bytes : List Nat} {mems : Nat → Nat → UInt8} {i : Nat}
    (hi : i < bytes.length) {dir : Dir} {a : Nat} {segs : List (List UInt8)} {len : Nat}
    (hlen : segs.flatten.length = len) (hin : a + len ≤ bytes[i]) {ans : Answer}
    (hans : Flatly bytes[i] (mems i) dir a segs len ans) :
    Volume.joined bytes (Function.update mems i (Flat.latest (mems i)
        (writesAt bytes[i] dir a segs.flatten))) 0 =
      Flat.latest (Volume.joined bytes mems 0)
        (writesAt bytes.sum dir (base bytes i + a) segs.flatten) ∧
      Flatly bytes.sum (Volume.joined bytes mems 0) dir (base bytes i + a) segs len ans := by
  have hend := end_le_sum bytes i hi
  have hroom : a + segs.flatten.length ≤ bytes[i] := by omega
  constructor
  · rw [writesAt_in (by omega), writesAt_in (by omega)]
    by_cases hdir : dir = .write
    · rw [if_pos hdir, if_pos hdir, ← List.nil_append [(a, segs.flatten)],
        ← List.nil_append [(base bytes i + a, segs.flatten)], Flat.latest_snoc, Flat.latest_snoc,
        Flat.latest_nil, Flat.latest_nil]
      exact Volume.joined_write hi hroom
    · rw [if_neg hdir, if_neg hdir, Flat.latest_nil, Flat.latest_nil, Function.update_eq_self]
  · refine ⟨?_, fun _ hdir => ?_, fun h => hans.keep (h.imp_left (by omega))⟩
    · rw [hans.ends, if_neg (by omega), if_neg (by omega)]
    · rw [Volume.read_joined hi hin]
      exact hans.read hin hdir

/-- What a byte array of `size` bytes answers to a request. -/
def AsStore (size : Nat) (before : Nat → UInt8) (r : Request) (out : List Answer) : Prop :=
  ∃ ans, out = [ans] ∧
    Flatly size before r.dir r.start r.bio.data r.bio.biSize.toNat ans

theorem ready_update {members : List BlockDevice} (hids : (members.map BlockDevice.id).Nodup)
    {parts : Members ρ} (h : Ready Inv members parts) {d : BlockDevice} (hd : d ∈ members)
    {m : Member ρ} (hm : m.Ready Inv (512 * d.capacity.toNat)) :
    Ready Inv members (Function.update parts d.id m) := by
  intro e he
  by_cases hid : e.id = d.id
  · rw [List.inj_on_of_nodup_map hids he hd hid, Function.update_self]
    exact hm
  · rw [Function.update_of_ne hid]
    exact h e he

/-- A fragment with all its sectors reaches its member as it is. -/
theorem handOn_filled {dir : Dir} {f : Bio (List UInt8)}
    (h : (f.data.map List.length).sum = f.biSize.toNat) :
    ∃ bio, handOn dir f = some bio ∧ bio.biSector = f.biSector ∧ bio.biSize = f.biSize ∧
      bio.dir = dir ∧ bio.segs = f.data :=
  ⟨⟨f.biSector, f.biSize, dir, f.data, h⟩, dif_pos h, rfl, rfl, rfl, rfl⟩

/-- **A request inside one member** is the same request of the volume. -/
theorem storeRequest_fits (hnbd : nbd.Stores Inv) {members : List BlockDevice}
    (hids : (members.map BlockDevice.id).Nodup) (htotal : 512 * (sizes members).sum < 2 ^ 32)
    {parts : Members ρ} (hready : Ready Inv members parts) {i : Nat} {d : BlockDevice}
    {r : Request} (hfits : Fits members i d r.bio) :
    Ready Inv members (storeRequest nbd members parts r).1 ∧
      heldBy nbd members (storeRequest nbd members parts r).1 =
        Flat.latest (heldBy nbd members parts)
          (writesAt (512 * (sizes members).sum) r.dir r.start r.bytes) ∧
      AsStore (512 * (sizes members).sum) (heldBy nbd members parts) r
        (storeRequest nbd members parts r).2 := by
  have hd := hfits.member
  obtain ⟨honly, htarget, hsector, hsize, hdata, hinside⟩ := fits_routed htotal hfits
  generalize r.bio.redirect _ _ = f at *
  -- the bio the member gets
  obtain ⟨bio, hbio, hsec, hlen, hdir, hsegs⟩ : ∃ bio, handOn r.dir f = some bio ∧
      bio.biSector = f.biSector ∧ bio.biSize = f.biSize ∧ bio.dir = r.dir ∧ bio.segs = f.data :=
    handOn_filled (by rw [hdata, hsize, r.length])
  have hend : bio.endByte ≤ 512 * d.capacity.toNat := by
    unfold Ramdisk.Bio.endByte Ramdisk.Bio.start
    rw [hsec, hlen]
    exact hinside
  obtain ⟨hready', hheld, hflat⟩ := member_stores hnbd (hready d (List.mem_of_getElem? hd)) hend
  have hstore : storeRequest nbd members parts r =
      (Function.update parts d.id ((parts d.id).makeRequest nbd bio).1,
        [((parts d.id).makeRequest nbd bio).2]) := by
    unfold storeRequest
    rw [honly]
    simp only [carryOut, submit_eq htarget hbio]
  -- the same transfer in bytes
  have hi : i < ((sizes members).map fun n => 512 * n).length := by
    rw [List.length_map, sizes_length]
    exact (List.getElem?_eq_some_iff.mp hd).1
  have hcap := sizes_bytes_getElem hd hi
  have htransfer := @transfer_joined _ (storesOf nbd members parts) _ hi _ _ _ bio.biSize.toNat
    bio.bytes_length (by rw [hcap]; exact hend) _ (by rw [hcap, storesOf_eq hd]; exact hflat)
  have hstart : 512 * base (sizes members) i + bio.start = r.start := by
    unfold Ramdisk.Bio.start Request.start
    rw [hsec, ← hsector, Nat.mul_add]
  rw [hcap, storesOf_eq hd, Volume.base_map_mul, List.sum_map_mul_left, List.map_id', hstart, hdir,
    hsegs, hdata, hlen, hsize] at htransfer
  rw [hstore]
  refine ⟨ready_update hids hready (List.mem_of_getElem? hd) hready', ?_, _, rfl, htransfer.2⟩
  unfold heldBy
  rw [storesOf_update hids hd, hheld, Ramdisk.Bio.bytes, hdir, hsegs, hdata]
  exact htransfer.1

/-- A request that ends behind the disk is failed, and changes nothing. -/
theorem storeRequest_beyond {members : List BlockDevice}
    (htotal : 512 * (sizes members).sum < 2 ^ 32) (parts : Members ρ) {r : Request}
    (hend : 512 * (sizes members).sum < r.bio.endByte) (hw : r.bio.endByte < 2 ^ 64) :
    (storeRequest nbd members parts r).1 = parts ∧
      AsStore (512 * (sizes members).sum) (heldBy nbd members parts) r
        (storeRequest nbd members parts r).2 := by
  have hfail : deviceMakeRequest (initRoot members) r.bio = [.ioError r.bio] := by
    unfold deviceMakeRequest
    rw [if_pos]
    rw [gt_iff_lt, UInt64.lt_iff_toNat_lt, guard_toNat, UInt32.toNat_toUInt64, totalSize_toNat,
      Nat.mod_eq_of_lt htotal, Nat.mod_eq_of_lt hw]
    exact hend
  have hstore : storeRequest nbd members parts r = (parts, [⟨r.bio.data, [.ioError]⟩]) := by
    unfold storeRequest
    rw [hfail]
    rfl
  rw [hstore]
  refine ⟨rfl, _, rfl, (if_pos hend).symm, fun h => ?_, fun _ => rfl⟩
  exact absurd h (Nat.not_le_of_lt hend)

/-! ## Runs -/

/-- A request inside one member, or one that ends behind the disk. -/
def Served (members : List BlockDevice) (r : Request) : Prop :=
  (∃ i d, Fits members i d r.bio) ∨
    512 * (sizes members).sum < r.bio.endByte ∧ r.bio.endByte < 2 ^ 64

/-- The writes of a run that reach the disk, oldest first. -/
def writesTo (members : List BlockDevice) (rs : List Request) : List (Flat.Entry UInt8) :=
  rs.flatMap fun r => writesAt (512 * (sizes members).sum) r.dir r.start r.bytes

theorem storeRequest_behaves (hnbd : nbd.Stores Inv) {members : List BlockDevice}
    (hids : (members.map BlockDevice.id).Nodup) (htotal : 512 * (sizes members).sum < 2 ^ 32) :
    Volume.Behaves (storeRequest nbd members) (heldBy nbd members)
      (fun r => writesAt (512 * (sizes members).sum) r.dir r.start r.bytes)
      (AsStore (512 * (sizes members).sum)) (Ready Inv members) (Served members) := by
  have hbeyond : ∀ parts r, 512 * (sizes members).sum < r.bio.endByte →
      r.bio.endByte < 2 ^ 64 → (storeRequest nbd members parts r).1 = parts ∧
        writesAt (512 * (sizes members).sum) r.dir r.start r.bytes = [] := by
    intro parts r hend hw
    refine ⟨(storeRequest_beyond htotal parts hend hw).1, if_neg ?_⟩
    rintro ⟨_, hle⟩
    rw [r.bytes_length] at hle
    exact absurd hle (Nat.not_le_of_lt hend)
  refine ⟨fun parts r hready hr => ?_, fun parts r hready hr => ?_, fun parts r hready hr => ?_⟩
  · rcases hr with ⟨i, d, hfits⟩ | ⟨hend, hw⟩
    · exact (storeRequest_fits hnbd hids htotal hready hfits).1
    · rw [(hbeyond parts r hend hw).1]
      exact hready
  · rcases hr with ⟨i, d, hfits⟩ | ⟨hend, hw⟩
    · exact (storeRequest_fits hnbd hids htotal hready hfits).2.1
    · rw [(hbeyond parts r hend hw).1, (hbeyond parts r hend hw).2, Flat.latest_nil]
  · rcases hr with ⟨i, d, hfits⟩ | ⟨hend, hw⟩
    · exact (storeRequest_fits hnbd hids htotal hready hfits).2.2
    · exact (storeRequest_beyond htotal parts hend hw).2

/-- **The virtual disk is one byte array.** Over every run of requests that each lie inside one
member or end behind the disk, request `k` is answered from the latest values written before it,
whichever members they went to, and what the members hold in the end, laid end to end, is the
latest values. -/
theorem virtual_disk_refines_flat (nbd : Nbd ρ) (Inv : Nat → ρ → Prop) (hnbd : nbd.Stores Inv)
    (members : List BlockDevice) (hids : (members.map BlockDevice.id).Nodup)
    (htotal : 512 * (sizes members).sum < 2 ^ 32) (parts : Members ρ)
    (hready : Ready Inv members parts) (rs : List Request) (hrs : ∀ r ∈ rs, Served members r) :
    let run := Volume.serveAll (storeRequest nbd members) parts rs
    run.2.length = rs.length ∧
      (∀ k r out, rs[k]? = some r → run.2[k]? = some out →
        AsStore (512 * (sizes members).sum)
          (Flat.latest (heldBy nbd members parts) (writesTo members (rs.take k))) r out) ∧
      heldBy nbd members run.1 =
        Flat.latest (heldBy nbd members parts) (writesTo members rs) := by
  obtain ⟨hlen, _, hheld, hans⟩ :=
    Volume.serveAll_latest (storeRequest_behaves hnbd hids htotal) rs parts hready hrs
  exact ⟨hlen, hans, hheld⟩

/-! ## Two members -/

/-- An nbd device whose server exports the ramdisk of another host. -/
def exported : Nbd VrdDevice where
  makeRequest device bio :=
    let r := vrdMakeRequest device bio
    (r.device, ⟨r.segs, r.ends⟩)
  holds device := Flat.ofList device.data 0

/-- It behaves as a byte array, as the ramdisk does. -/
theorem exported_stores : exported.Stores HasMemory :=
  ⟨fun _ _ _ hm hin => (ramdisk_stores hm (hm.no_wrap hin)).1,
    fun _ _ _ hm hin => (ramdisk_stores hm (hm.no_wrap hin)).2.1,
    fun _ _ _ hm hin => (ramdisk_stores hm (hm.no_wrap hin)).2.2⟩

/-- A request of one sector. -/
def oneSector (dir : Dir) (biSector : UInt64) (b : UInt8) : Request where
  dir := dir
  bio := ⟨biSector, 512, none, [List.replicate 512 b]⟩
  whole := by
    intro sector hs
    rw [List.mem_singleton.mp hs, List.length_replicate]
  filled := rfl

/-- A ramdisk of one sector. -/
def oneSectorDisk : VrdDevice := ⟨512, List.replicate 512 0⟩

/-- `/dev/bestioa` and `/dev/nbd0`, a sector each. -/
def sectorEach : List BlockDevice := [⟨0, 1⟩, ⟨1, 1⟩]

/-- What is behind them. -/
def sectorParts : Members VrdDevice
  | 0 => .ramdisk oneSectorDisk
  | _ => .nbd oneSectorDisk

/-- A write to each member, a read of the second, and a request behind the disk. -/
def fourRequests : List Request :=
  [oneSector .write 0 7, oneSector .write 1 9, oneSector .read 1 0, oneSector .write 2 5]

theorem virtual_disk_refines_flat_four :
    let run := Volume.serveAll (storeRequest exported sectorEach) sectorParts fourRequests
    run.2.length = fourRequests.length ∧
      (∀ k r out, fourRequests[k]? = some r → run.2[k]? = some out →
        AsStore (512 * (sizes sectorEach).sum)
          (Flat.latest (heldBy exported sectorEach sectorParts)
            (writesTo sectorEach (fourRequests.take k))) r out) ∧
      heldBy exported sectorEach run.1 =
        Flat.latest (heldBy exported sectorEach sectorParts)
          (writesTo sectorEach fourRequests) := by
  have hmemory : HasMemory 512 oneSectorDisk := ⟨rfl, List.length_replicate⟩
  have hready : Ready HasMemory sectorEach sectorParts :=
    List.forall_mem_cons.mpr ⟨hmemory, List.forall_mem_singleton.mpr hmemory⟩
  refine virtual_disk_refines_flat exported HasMemory exported_stores sectorEach (by decide)
    (by decide) sectorParts hready fourRequests ?_
  have hfirst : Fits sectorEach 0 ⟨0, 1⟩ (oneSector .write 0 7).bio :=
    ⟨rfl, by decide, by decide, by decide⟩
  have hsecond : Fits sectorEach 1 ⟨1, 1⟩ (oneSector .write 1 9).bio :=
    ⟨rfl, by decide, by decide, by decide⟩
  have hread : Fits sectorEach 1 ⟨1, 1⟩ (oneSector .read 1 0).bio :=
    ⟨rfl, by decide, by decide, by decide⟩
  simp only [fourRequests, List.forall_mem_cons]
  exact ⟨Or.inl ⟨0, _, hfirst⟩, Or.inl ⟨1, _, hsecond⟩, Or.inl ⟨1, _, hread⟩, Or.inr (by decide),
    fun _ h => by cases h⟩

end JcmController.Disk
