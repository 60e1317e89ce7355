import JcmController.Disk.Store

/-!
# The devices of one disk

`device_init` opens `/dev/bestioa` and `/dev/nbd0` without claiming them, so both stay in use beside
the virtual disk: it is `/dev/bestioa` that the `mount` command mounts. An access is a request to
the virtual disk, or a bio to the device of one of its members.

* A device is a `Window` of what the members hold, laid end to end: the virtual disk the whole of
  it, the device of a member the bytes from the member's base on.
* A bio that ends behind its device is failed by `vrd_make_request`. An nbd device gets none
  (`Reaches`).

Results:
* `member_accessed`: a bio to a member's device is the same transfer of its window.
* **`devices_are_windows`**: over every run of accesses, through whichever devices, each is answered
  from its window of the latest bytes written through any of them.
-/

namespace JcmController.Disk

open JcmController.Lib JcmController.Lib.Concat
open JcmController.Ramdisk (VrdDevice vrdMakeRequest)

variable {ρ : Type}

/-! ## Accesses -/

/-- A request to the virtual disk, or a bio to the device of its member `i`. -/
inductive Access where
  | disk (r : Request)
  | member (i : Nat) (bio : Ramdisk.Bio)

/-- One access. -/
def serveAccess (nbd : Nbd ρ) (members : List BlockDevice) (parts : Members ρ) :
    Access → Members ρ × List Answer
  | .disk r => storeRequest nbd members parts r
  | .member i bio =>
    match members[i]? with
    | some d =>
      let t := (parts d.id).makeRequest nbd bio
      (Function.update parts d.id t.1, [t.2])
    | none => (parts, [])

/-- A request as the bio it is. -/
def Request.asBio (r : Request) : Ramdisk.Bio :=
  ⟨r.bio.biSector, r.bio.biSize, r.dir, r.bio.data, r.length⟩

/-- The bio of an access. -/
def Access.bio : Access → Ramdisk.Bio
  | .disk r => r.asBio
  | .member _ bio => bio

/-- `size` bytes, from byte `first` on. -/
structure Window where
  first : Nat
  size : Nat

/-- The bytes of the device that an access is made through. -/
def Access.window (members : List BlockDevice) : Access → Window
  | .disk _ => ⟨0, 512 * (sizes members).sum⟩
  | .member i _ => ⟨512 * base (sizes members) i, 512 * ((sizes members)[i]?.getD 0)⟩

/-- The writes of an access that reach its device, where they are in what the members hold. -/
def Access.writes (members : List BlockDevice) (a : Access) : List (Flat.Entry UInt8) :=
  Volume.shifted (a.window members).first
    (writesAt (a.window members).size a.bio.dir a.bio.start a.bio.bytes)

/-- What the window of a byte array answers to a bio. -/
def AsWindow (win : Window) (before : Nat → UInt8) (bio : Ramdisk.Bio) (out : List Answer) : Prop :=
  ∃ ans, out = [ans] ∧ Flatly win.size (fun y => before (win.first + y)) bio.dir bio.start bio.segs
    bio.biSize.toNat ans

/-! ## Members -/

/-- The member keeps its data on this host. -/
def Member.IsRamdisk : Member ρ → Prop
  | .ramdisk _ => True
  | .nbd _ => False

/-- The members are in working order, and `own` of them are ramdisks. -/
structure Placed (Inv : Nat → ρ → Prop) (own : Nat → Prop) (members : List BlockDevice)
    (parts : Members ρ) : Prop where
  ready : Ready Inv members parts
  ramdisk : ∀ d ∈ members, own d.id → (parts d.id).IsRamdisk

/-- What an access may be: a request that the virtual disk serves, or a bio to a member's device in
its range. A ramdisk also gets those that end behind it. -/
def Reaches (own : Nat → Prop) (members : List BlockDevice) : Access → Prop
  | .disk r => Served members r
  | .member i bio => ∃ d, members[i]? = some d ∧
      (bio.endByte ≤ 512 * d.capacity.toNat ∨ own d.id ∧ bio.endByte < 2 ^ 64)

variable {nbd : Nbd ρ} {Inv : Nat → ρ → Prop} {own : Nat → Prop} {members : List BlockDevice}

theorem Member.makeRequest_isRamdisk (m : Member ρ) (bio : Ramdisk.Bio) :
    (m.makeRequest nbd bio).1.IsRamdisk ↔ m.IsRamdisk := by
  cases m <;> exact Iff.rfl

theorem update_isRamdisk (parts : Members ρ) (bio : Ramdisk.Bio) (id id' : Nat) :
    (Function.update parts id ((parts id).makeRequest nbd bio).1 id').IsRamdisk ↔
      (parts id').IsRamdisk := by
  by_cases h : id' = id
  · rw [h, Function.update_self]
    exact Member.makeRequest_isRamdisk _ bio
  · rw [Function.update_of_ne h]

/-- What is a ramdisk stays one. -/
theorem carryOut_isRamdisk (dir : Ramdisk.Dir) (acts : List (Action (List UInt8)))
    (parts : Members ρ) (id : Nat) :
    ((carryOut nbd dir parts acts).1 id).IsRamdisk ↔ (parts id).IsRamdisk := by
  induction acts generalizing parts with
  | nil => exact Iff.rfl
  | cons act acts ih =>
    cases act with
    | split => exact ih parts
    | bug => exact Iff.rfl
    | ioError => exact ih parts
    | submit f =>
      refine (ih (submit nbd dir parts f).1).trans ?_
      unfold submit
      split
      · exact update_isRamdisk parts _ _ id
      · exact Iff.rfl

/-! ## One access -/

/-- **The member's device answers**, as a byte array of its size. -/
theorem member_served (hnbd : nbd.Stores Inv) {parts : Members ρ}
    (hplaced : Placed Inv own members parts) {d : BlockDevice} (hd : d ∈ members)
    {bio : Ramdisk.Bio}
    (hin : bio.endByte ≤ 512 * d.capacity.toNat ∨ own d.id ∧ bio.endByte < 2 ^ 64) :
    ((parts d.id).makeRequest nbd bio).1.Ready Inv (512 * d.capacity.toNat) ∧
      ((parts d.id).makeRequest nbd bio).1.holds nbd =
        Flat.latest ((parts d.id).holds nbd)
          (writesAt (512 * d.capacity.toNat) bio.dir bio.start bio.bytes) ∧
      Flatly (512 * d.capacity.toNat) ((parts d.id).holds nbd) bio.dir bio.start bio.segs
        bio.biSize.toNat ((parts d.id).makeRequest nbd bio).2 := by
  have hready := hplaced.ready d hd
  rcases hin with hin | ⟨hown, hwrap⟩
  · exact member_stores hnbd hready hin
  · have hram := hplaced.ramdisk d hd hown
    cases hm : parts d.id with
    | ramdisk device =>
      rw [hm] at hready
      exact ramdisk_stores hready hwrap
    | nbd remote =>
      rw [hm] at hram
      exact hram.elim

/-- Writes that reach a device lie in it. -/
theorem writesAt_inside {size : Nat} {dir : Ramdisk.Dir} {start : Nat} {bytes : List UInt8} :
    ∀ e ∈ writesAt size dir start bytes, e.1 + e.2.length ≤ size := by
  intro e he
  unfold writesAt at he
  obtain ⟨⟨_, hle⟩, he⟩ := List.mem_ite_nil_right.mp he
  rw [List.mem_singleton.mp he]
  exact hle

/-- What a member answers it answers from the volume, at its base. -/
theorem Flatly.window {bytes : List Nat} {mems : Nat → Nat → UInt8} {i : Nat}
    (hi : i < bytes.length) {dir : Ramdisk.Dir} {start : Nat} {segs : List (List UInt8)}
    {len : Nat} {ans : Answer} (h : Flatly bytes[i] (mems i) dir start segs len ans) :
    Flatly bytes[i] (fun y => Volume.joined bytes mems 0 (base bytes i + y)) dir start segs len
      ans := by
  refine ⟨h.ends, fun hin hdir => ?_, h.keep⟩
  rw [Volume.read_window hi hin]
  exact h.read hin hdir

/-- **A bio to a member's device** is the same transfer of its window. -/
theorem member_accessed (hnbd : nbd.Stores Inv) (hids : (members.map BlockDevice.id).Nodup)
    {parts : Members ρ} (hplaced : Placed Inv own members parts) {i : Nat} {bio : Ramdisk.Bio}
    (hreach : Reaches own members (.member i bio)) :
    Placed Inv own members (serveAccess nbd members parts (.member i bio)).1 ∧
      heldBy nbd members (serveAccess nbd members parts (.member i bio)).1 =
        Flat.latest (heldBy nbd members parts) (Access.writes members (.member i bio)) ∧
      AsWindow (Access.window members (.member i bio)) (heldBy nbd members parts) bio
        (serveAccess nbd members parts (.member i bio)).2 := by
  obtain ⟨d, hd, hin⟩ := hreach
  have hmem := List.mem_of_getElem? hd
  obtain ⟨hready, hheld, hflat⟩ := member_served hnbd hplaced hmem hin
  have hserve : serveAccess nbd members parts (.member i bio) =
      (Function.update parts d.id ((parts d.id).makeRequest nbd bio).1,
        [((parts d.id).makeRequest nbd bio).2]) := by
    simp only [serveAccess, hd]
  have hi : i < ((sizes members).map fun n => 512 * n).length := by
    rw [List.length_map, sizes_length]
    exact (List.getElem?_eq_some_iff.mp hd).1
  have hcap := sizes_bytes_getElem hd hi
  have hbase := Volume.base_map_mul 512 (sizes members) i
  have hwindow : Access.window members (.member i bio) =
      ⟨512 * base (sizes members) i, 512 * d.capacity.toNat⟩ := by
    simp only [Access.window, sizes, List.getElem?_map, hd, Option.map_some, Option.getD_some]
  rw [hserve, hwindow]
  refine ⟨⟨ready_update hids hplaced.ready hmem hready, fun e he hown => ?_⟩, ?_, _, rfl, ?_⟩
  · exact (update_isRamdisk parts bio d.id e.id).mpr (hplaced.ramdisk e he hown)
  · have hjoined := @Volume.joined_latest _ _ (storesOf nbd members parts) 0 _ hi
      (writesAt (512 * d.capacity.toNat) bio.dir bio.start bio.bytes)
      (by rw [hcap]; exact writesAt_inside)
    unfold heldBy Access.writes
    rw [storesOf_update hids hd, hheld, ← storesOf_eq hd, hjoined, hbase, hwindow]
    rfl
  · rw [← storesOf_eq hd parts, ← hcap] at hflat
    have hwin := hflat.window hi
    rw [hcap, hbase] at hwin
    exact hwin

/-- **A request to the virtual disk** is the same transfer of all that the members hold. -/
theorem disk_accessed (hnbd : nbd.Stores Inv) (hids : (members.map BlockDevice.id).Nodup)
    (htotal : 512 * (sizes members).sum < 2 ^ 32) {parts : Members ρ}
    (hplaced : Placed Inv own members parts) {r : Request} (hreach : Served members r) :
    Placed Inv own members (serveAccess nbd members parts (.disk r)).1 ∧
      heldBy nbd members (serveAccess nbd members parts (.disk r)).1 =
        Flat.latest (heldBy nbd members parts) (Access.writes members (.disk r)) ∧
      AsWindow (Access.window members (.disk r)) (heldBy nbd members parts) r.asBio
        (serveAccess nbd members parts (.disk r)).2 := by
  have hbehaves := storeRequest_behaves hnbd hids htotal
  have hshift : Access.writes members (.disk r) =
      writesAt (512 * (sizes members).sum) r.dir r.start r.bytes := by
    unfold Access.writes Volume.shifted
    refine (List.map_congr_left fun e _ => ?_).trans (List.map_id _)
    exact Prod.ext (Nat.zero_add e.1) rfl
  have hwhole : (fun y => heldBy nbd members parts ((Access.window members (.disk r)).first + y)) =
      heldBy nbd members parts := by
    funext y
    exact congrArg _ (Nat.zero_add y)
  refine ⟨⟨hbehaves.keeps parts r hplaced.ready hreach, fun d hd hown => ?_⟩, ?_, ?_⟩
  · exact (carryOut_isRamdisk r.dir _ parts d.id).mpr (hplaced.ramdisk d hd hown)
  · rw [hshift]
    exact hbehaves.holds parts r hplaced.ready hreach
  · unfold AsWindow
    rw [hwhole]
    exact hbehaves.answers parts r hplaced.ready hreach

theorem serveAccess_behaves (hnbd : nbd.Stores Inv) (hids : (members.map BlockDevice.id).Nodup)
    (htotal : 512 * (sizes members).sum < 2 ^ 32) :
    Volume.Behaves (serveAccess nbd members) (heldBy nbd members) (Access.writes members)
      (fun before a => AsWindow (a.window members) before a.bio) (Placed Inv own members)
      (Reaches own members) := by
  have hstep : ∀ parts a, Placed Inv own members parts → Reaches own members a →
      Placed Inv own members (serveAccess nbd members parts a).1 ∧
        heldBy nbd members (serveAccess nbd members parts a).1 =
          Flat.latest (heldBy nbd members parts) (a.writes members) ∧
        AsWindow (a.window members) (heldBy nbd members parts) a.bio
          (serveAccess nbd members parts a).2 := by
    intro parts a hplaced hreach
    cases a with
    | disk r => exact disk_accessed hnbd hids htotal hplaced hreach
    | member i bio => exact member_accessed hnbd hids hplaced hreach
  exact ⟨fun parts a hp ha => (hstep parts a hp ha).1,
    fun parts a hp ha => (hstep parts a hp ha).2.1, fun parts a hp ha => (hstep parts a hp ha).2.2⟩

/-! ## Runs -/

/-- **The devices are windows of one byte array.** Over every run of accesses, to the virtual disk
and to the devices of its members in any order, access `k` is answered from its window of the
latest bytes written before it, through whichever device; and these are what the members hold in
the end. -/
theorem devices_are_windows (nbd : Nbd ρ) (Inv : Nat → ρ → Prop) (hnbd : nbd.Stores Inv)
    (own : Nat → Prop) (members : List BlockDevice) (hids : (members.map BlockDevice.id).Nodup)
    (htotal : 512 * (sizes members).sum < 2 ^ 32) (parts : Members ρ)
    (hplaced : Placed Inv own members parts) (accesses : List Access)
    (hreach : ∀ a ∈ accesses, Reaches own members a) :
    let run := Volume.serveAll (serveAccess nbd members) parts accesses
    run.2.length = accesses.length ∧
      (∀ k a out, accesses[k]? = some a → run.2[k]? = some out →
        AsWindow (a.window members) (Flat.latest (heldBy nbd members parts)
          ((accesses.take k).flatMap (Access.writes members))) a.bio out) ∧
      heldBy nbd members run.1 =
        Flat.latest (heldBy nbd members parts) (accesses.flatMap (Access.writes members)) := by
  obtain ⟨hlen, _, hheld, hans⟩ :=
    Volume.serveAll_latest (serveAccess_behaves hnbd hids htotal) accesses parts hplaced hreach
  exact ⟨hlen, hans, hheld⟩

/-! ## Two members -/

/-- A write to `/dev/nbd0`, a read of the virtual disk there, a write to the virtual disk, a read of
`/dev/bestioa` where it was written, and one behind its end. -/
def fiveAccesses : List Access :=
  [.member 1 (oneSector .write 0 9).asBio, .disk (oneSector .read 1 0),
    .disk (oneSector .write 0 7), .member 0 (oneSector .read 0 0).asBio,
    .member 0 (oneSector .read 1 0).asBio]

theorem devices_are_windows_five :
    let run := Volume.serveAll (serveAccess exported sectorEach) sectorParts fiveAccesses
    run.2.length = fiveAccesses.length ∧
      (∀ k a out, fiveAccesses[k]? = some a → run.2[k]? = some out →
        AsWindow (a.window sectorEach) (Flat.latest (heldBy exported sectorEach sectorParts)
          ((fiveAccesses.take k).flatMap (Access.writes sectorEach))) a.bio out) ∧
      heldBy exported sectorEach run.1 = Flat.latest (heldBy exported sectorEach sectorParts)
        (fiveAccesses.flatMap (Access.writes sectorEach)) := by
  have hmemory : HasMemory 512 oneSectorDisk := ⟨rfl, List.length_replicate⟩
  have hready : Ready HasMemory sectorEach sectorParts :=
    List.forall_mem_cons.mpr ⟨hmemory, List.forall_mem_singleton.mpr hmemory⟩
  have hplaced : Placed HasMemory (· = 0) sectorEach sectorParts :=
    ⟨hready, fun d _ hown => by rw [hown]; trivial⟩
  refine devices_are_windows exported HasMemory exported_stores (· = 0) sectorEach (by decide)
    (by decide) sectorParts hplaced fiveAccesses ?_
  have hread : Fits sectorEach 1 ⟨1, 1⟩ (oneSector .read 1 0).bio :=
    ⟨rfl, by decide, by decide, by decide⟩
  have hwrite : Fits sectorEach 0 ⟨0, 1⟩ (oneSector .write 0 7).bio :=
    ⟨rfl, by decide, by decide, by decide⟩
  simp only [fiveAccesses, List.forall_mem_cons]
  refine ⟨⟨⟨1, 1⟩, rfl, Or.inl ?_⟩, Or.inl ⟨1, _, hread⟩, Or.inl ⟨0, _, hwrite⟩,
    ⟨⟨0, 1⟩, rfl, Or.inl ?_⟩, ⟨⟨0, 1⟩, rfl, Or.inr ⟨rfl, ?_⟩⟩, fun _ h => by cases h⟩
  · decide
  · decide
  · decide

end JcmController.Disk
