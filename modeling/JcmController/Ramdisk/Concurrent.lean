import JcmController.Lib.InFlight
import JcmController.Lib.Machine
import JcmController.Ramdisk.Refine

/-!
# Concurrent calls of `vrd_make_request` (`bestio/ramdisk.c`)

The block layer calls `vrd_make_request` from any number of contexts at once, and the driver takes
no lock: the calls share `data`, and their `memcpy`s come in any order.

* A `Call` is one call under way: `cur` is `pVHDDData`, `filled` the segments behind it, `part` what
  the running `memcpy` has moved, `todo` the segments from there on. A `memcpy` moves its bytes in
  order, and another call can go on after any of them.
* `callStep` is one step of one context: it enters with a bio, moves `n` bytes, goes to the next
  segment, or ends the bio. A context has one call at a time.
* `Free`: a bio that is in range is `Apart` from those under way: they are all reads, or have no
  byte in common.

Results:
* `copy_follows`, `next_follows`, `ret_follows`: what each step is to the transfers in flight.
* **`concurrent_calls_linearize`**: every interleaving answers each bio as the calls made one after
  the other, in the order they end; and leaves the same data.
-/

namespace JcmController.Ramdisk

open JcmController.Lib JcmController.Lib.InFlight

variable {ι : Type}

/-! ## Calls under way -/

/-- A call of `vrd_make_request` in its segment loop. -/
structure Call where
  bio : Bio
  cur : Nat
  filled : List (List UInt8)
  part : List UInt8
  todo : List (List UInt8)

/-- The call has passed the guard. -/
def Call.enter (bio : Bio) : Call := ⟨bio, (bio.biSector * VRD_SECTOR_SIZE).toNat, [], [], bio.segs⟩

/-- The `memcpy` of the current segment has moved these bytes too. -/
def Call.onward (c : Call) (bytes : List UInt8) : Call := { c with part := c.part ++ bytes }

/-- `n` bytes of the `memcpy` of the current segment. -/
def Call.copy (c : Call) (n : Nat) (data : List UInt8) : Call × List UInt8 :=
  match c.todo with
  | [] => (c, data)
  | seg :: _ =>
    if c.part.length + n ≤ seg.length then
      match c.bio.dir with
      | .read => (c.onward ((data.drop (c.cur + c.part.length)).take n), data)
      | .write =>
        let bytes := (seg.drop c.part.length).take n
        (c.onward bytes, Flat.splice data (c.cur + c.part.length) bytes)
    else (c, data)

/-- The `memcpy` returns, and the loop takes the next segment. -/
def Call.next (c : Call) : Call :=
  match c.todo with
  | [] => c
  | seg :: segs =>
    if c.part.length = seg.length then
      { c with cur := c.cur + seg.length, filled := c.filled ++ [c.part], part := [], todo := segs }
    else c

/-- The device, and the call of each context. -/
structure Shared (ι : Type) where
  device : VrdDevice
  calls : ι → Option Call

/-- The call of `i` is now `o`. -/
def Shared.put [DecidableEq ι] (s : Shared ι) (i : ι) (o : Option Call) : Shared ι :=
  { s with calls := Function.update s.calls i o }

/-- The bytes of the device are now `data`. -/
def Shared.store (s : Shared ι) (data : List UInt8) : Shared ι :=
  { s with device := { s.device with data := data } }

/-- What a context does. -/
inductive CallAct (ι : Type) where
  | enter (i : ι) (bio : Bio)
  | copy (i : ι) (n : Nat)
  | next (i : ι)
  | ret (i : ι)

/-- A bio that a context has ended, and its segments. -/
structure Ending (ι : Type) where
  context : ι
  bio : Bio
  segs : List (List UInt8)
  how : End

/-- One step of one context. -/
def callStep [DecidableEq ι] (s : Shared ι) : CallAct ι → Shared ι × List (Ending ι)
  | .enter i bio =>
    match s.calls i with
    | some _ => (s, [])
    | none =>
      if bio.biSector * VRD_SECTOR_SIZE + bio.biSize.toUInt64 > s.device.size then
        (s, [⟨i, bio, bio.segs, .ioError⟩])
      else (s.put i (some (Call.enter bio)), [])
  | .copy i n =>
    match s.calls i with
    | none => (s, [])
    | some c =>
      let r := c.copy n s.device.data
      ((s.store r.2).put i (some r.1), [])
  | .next i =>
    match s.calls i with
    | none => (s, [])
    | some c => (s.put i (some c.next), [])
  | .ret i =>
    match s.calls i with
    | none => (s, [])
    | some c =>
      match c.todo with
      | [] => (s.put i none, [⟨i, c.bio, c.filled, .endio⟩])
      | _ :: _ => (s, [])

/-- No context is in the driver. -/
def idle (device : VrdDevice) : Shared ι := ⟨device, fun _ => none⟩

/-! ## What the callers keep -/

/-- Both are reads, or they have no byte in common. -/
def Bio.Apart (a b : Bio) : Prop :=
  (a.dir = .read ∧ b.dir = .read) ∨ a.endByte ≤ b.start ∨ b.endByte ≤ a.start

/-- A bio that enters does not wrap, and in range it is apart from those under way. -/
def Free (s : Shared ι) : CallAct ι → Prop
  | .enter i bio => s.calls i = none → bio.endByte < 2 ^ 64 ∧
      (bio.endByte ≤ s.device.size.toNat → ∀ j c, s.calls j = some c → bio.Apart c.bio)
  | _ => True

/-- What a bio gets: its segments, and how it is ended. -/
def Ending.answer (e : Ending ι) : List (List UInt8) × List End := (e.segs, [e.how])

def Served.answer (r : Served) : List (List UInt8) × List End := (r.segs, r.ends)

/-! ## A call as a transfer -/

namespace Call

/-- The bytes that the call has moved. -/
def moved (c : Call) : List UInt8 := c.filled.flatten ++ c.part

/-- The call as a transfer in flight. -/
def transfer (c : Call) : Transfer UInt8 :=
  match c.bio.dir with
  | .read => .read c.bio.start c.bio.biSize.toNat c.moved
  | .write => .write c.bio.start c.bio.bytes c.moved.length

@[simp] theorem onward_moved (c : Call) (bytes : List UInt8) :
    (c.onward bytes).moved = c.moved ++ bytes := (List.append_assoc _ _ _).symm

theorem transfer_read {c : Call} (h : c.bio.dir = .read) :
    c.transfer = .read c.bio.start c.bio.biSize.toNat c.moved := by
  simp only [transfer, h]

theorem transfer_write {c : Call} (h : c.bio.dir = .write) :
    c.transfer = .write c.bio.start c.bio.bytes c.moved.length := by
  simp only [transfer, h]

/-- The call goes through its bio in order, inside `size` bytes. -/
structure OnItsWay (size : Nat) (c : Call) : Prop where
  inside : c.bio.endByte ≤ size
  lens : (c.filled ++ c.todo).map List.length = c.bio.segs.map List.length
  cur : c.cur = c.bio.start + c.filled.flatten.length
  part : c.part.length ≤ (c.todo.headD []).length
  kept : c.bio.dir = .write →
    c.filled ++ c.todo = c.bio.segs ∧ c.part = (c.todo.headD []).take c.part.length

variable {size : Nat} {c : Call}

theorem OnItsWay.biSize (h : c.OnItsWay size) :
    c.bio.biSize.toNat = c.filled.flatten.length + c.todo.flatten.length := by
  rw [← c.bio.segs_sum, ← h.lens, List.map_append, List.sum_append, List.length_flatten,
    List.length_flatten]

end Call

theorem transfer_apart {c d : Call} (h : c.bio.Apart d.bio) : c.transfer.Apart d.transfer := by
  have hspan : ∀ e : Call, e.transfer.start = e.bio.start ∧
      e.transfer.len = e.bio.biSize.toNat ∧ (e.bio.dir = .read → e.transfer.isRead = true) := by
    intro e
    cases hdir : e.bio.dir with
    | read =>
      rw [Call.transfer_read hdir]
      exact ⟨rfl, rfl, fun _ => rfl⟩
    | write =>
      rw [Call.transfer_write hdir]
      exact ⟨rfl, e.bio.bytes_length, nofun⟩
  obtain ⟨hcs, hcl, hcr⟩ := hspan c
  obtain ⟨hds, hdl, hdr⟩ := hspan d
  unfold Transfer.Apart
  rw [hcs, hcl, hds, hdl]
  rcases h with ⟨hc, hd⟩ | h
  · exact Or.inl ⟨hcr hc, hdr hd⟩
  · exact Or.inr h

/-! ## The invariant -/

/-- The transfers in flight. -/
def Shared.flights (s : Shared ι) : ι → Option (Transfer UInt8) :=
  Option.map Call.transfer ∘ s.calls

/-- The bios of `bios` have ended, in this order, and the calls under way are on their way. -/
structure Follows (size : UInt64) (mem : List UInt8) (bios : List Bio) (s : Shared ι) : Prop where
  size_eq : s.device.size = size
  filled : s.device.data.length = size.toNat
  calls : ∀ i c, s.calls i = some c → c.OnItsWay size.toNat
  pending : Pending (Flat.ofList mem 0) (writesOf size.toNat bios) (Flat.ofList s.device.data 0)
    s.flights

variable {size : UInt64} {mem : List UInt8} {bios : List Bio} {s : Shared ι}

theorem flights_some {i : ι} {c : Call} (h : s.calls i = some c) :
    s.flights i = some c.transfer := congrArg (Option.map Call.transfer) h

variable [DecidableEq ι]

theorem flights_put (s : Shared ι) (i : ι) (o : Option Call) :
    (s.put i o).flights = Function.update s.flights i (o.map Call.transfer) :=
  Function.comp_update _ _ _ _

theorem put_calls (s : Shared ι) (i : ι) (o : Option Call) :
    (s.put i o).calls = Function.update s.calls i o := rfl

theorem put_self {i : ι} {o : Option Call} (h : s.calls i = o) : s.put i o = s := by
  unfold Shared.put
  rw [← h, Function.update_eq_self]

/-- The calls under way are still on their way when one of them is replaced. -/
theorem Follows.calls_put (h : Follows size mem bios s) {i : ι} {o : Option Call}
    (ho : ∀ c, o = some c → c.OnItsWay size.toNat) :
    ∀ j c, (s.put i o).calls j = some c → c.OnItsWay size.toNat := by
  intro j c hj
  rw [put_calls] at hj
  by_cases hji : j = i
  · subst hji
    rw [Function.update_self] at hj
    exact ho c hj
  · rw [Function.update_of_ne hji] at hj
    exact h.calls j c hj

/-! ## One step -/

/-- **A bio in range enters.** -/
theorem enter_follows (h : Follows size mem bios s) {i : ι} {bio : Bio} (hi : s.calls i = none)
    (hwrap : bio.endByte < 2 ^ 64) (hin : bio.endByte ≤ size.toNat)
    (happart : ∀ j c, s.calls j = some c → bio.Apart c.bio) :
    Follows size mem bios (s.put i (some (Call.enter bio))) := by
  have hnone : s.flights i = none := congrArg (Option.map Call.transfer) hi
  have hfresh : (Call.enter bio).transfer.Fresh := by
    cases hdir : bio.dir with
    | read =>
      rw [Call.transfer_read (show (Call.enter bio).bio.dir = .read from hdir)]
      rfl
    | write =>
      rw [Call.transfer_write (show (Call.enter bio).bio.dir = .write from hdir)]
      rfl
  refine ⟨h.size_eq, h.filled, h.calls_put ?_, ?_⟩
  · rintro c ⟨⟩
    exact ⟨hin, rfl, start_toNat hwrap, Nat.zero_le _, fun _ => ⟨rfl, rfl⟩⟩
  · rw [flights_put]
    refine h.pending.begin hnone hfresh fun j u hu => ?_
    obtain ⟨c, hc, rfl⟩ := Option.map_eq_some_iff.mp hu
    exact transfer_apart (happart j c hc)

namespace Call

variable {n k : Nat} {c : Call} {seg : List UInt8} {segs : List (List UInt8)} {data : List UInt8}

theorem copy_nil (h : c.todo = []) : c.copy k data = (c, data) := by
  simp only [copy, h]

theorem copy_stuck (h : c.todo = seg :: segs) (hk : ¬ c.part.length + k ≤ seg.length) :
    c.copy k data = (c, data) := by
  simp only [copy, h, if_neg hk]

theorem copy_read (h : c.todo = seg :: segs) (hk : c.part.length + k ≤ seg.length)
    (hdir : c.bio.dir = .read) :
    c.copy k data = (c.onward ((data.drop (c.cur + c.part.length)).take k), data) := by
  simp only [copy, h, if_pos hk, hdir]

theorem copy_write (h : c.todo = seg :: segs) (hk : c.part.length + k ≤ seg.length)
    (hdir : c.bio.dir = .write) :
    c.copy k data = (c.onward ((seg.drop c.part.length).take k),
      Flat.splice data (c.cur + c.part.length) ((seg.drop c.part.length).take k)) := by
  simp only [copy, h, if_pos hk, hdir]

/-- The next bytes of a `memcpy` lie behind those moved, in the bio and in the data. -/
theorem OnItsWay.room (h : c.OnItsWay n) (htodo : c.todo = seg :: segs)
    (hk : c.part.length + k ≤ seg.length) :
    c.cur + c.part.length = c.bio.start + c.moved.length ∧
      c.moved.length + k ≤ c.bio.biSize.toNat ∧ c.cur + c.part.length + k ≤ n := by
  have hsize := h.biSize
  have hin := h.inside
  have hcur := h.cur
  rw [htodo, List.flatten_cons, List.length_append] at hsize
  unfold Bio.endByte at hin
  unfold moved
  rw [List.length_append]
  omega

/-- The bytes that a write moves next are the next ones of its bio. -/
theorem OnItsWay.next_bytes (h : c.OnItsWay n) (hdir : c.bio.dir = .write)
    (htodo : c.todo = seg :: segs) (hk : c.part.length + k ≤ seg.length) :
    (c.bio.bytes.drop c.moved.length).take k = (seg.drop c.part.length).take k := by
  obtain ⟨hkept, -⟩ := h.kept hdir
  have hbytes : c.bio.bytes = c.filled.flatten ++ (seg ++ segs.flatten) := by
    rw [Bio.bytes, ← hkept, htodo, List.flatten_append, List.flatten_cons]
  have hroom : k ≤ (seg.drop c.part.length).length := by
    rw [List.length_drop]
    omega
  rw [hbytes, moved, List.length_append, ← List.drop_drop, List.drop_left,
    List.drop_append_of_le_length (by omega), List.take_append_of_le_length hroom]

/-- A call that moves the bytes of its bio is still on its way. -/
theorem OnItsWay.onward (h : c.OnItsWay n) (htodo : c.todo = seg :: segs) {bytes : List UInt8}
    (hk : c.part.length + bytes.length ≤ seg.length)
    (hown : c.bio.dir = .write → bytes = (seg.drop c.part.length).take bytes.length) :
    (c.onward bytes).OnItsWay n where
  inside := h.inside
  lens := h.lens
  cur := h.cur
  part := by
    unfold Call.onward
    rw [htodo, List.length_append]
    exact hk
  kept hdir := by
    obtain ⟨hkept, hpart⟩ := h.kept hdir
    refine ⟨hkept, ?_⟩
    rw [htodo] at hpart
    unfold Call.onward
    rw [htodo, List.length_append, List.take_add]
    exact congrArg₂ (· ++ ·) hpart (hown hdir)

end Call

/-- **A `memcpy` moves bytes out of the data.** -/
theorem read_follows (h : Follows size mem bios s) {i : ι} {c : Call} (hi : s.calls i = some c)
    {seg : List UInt8} {segs : List (List UInt8)} (htodo : c.todo = seg :: segs) {k : Nat}
    (hk : c.part.length + k ≤ seg.length) (hdir : c.bio.dir = .read) :
    Follows size mem bios
      (s.put i (some (c.onward ((s.device.data.drop (c.cur + c.part.length)).take k)))) := by
  have hway := h.calls i c hi
  obtain ⟨hplace, hmoved, hroom⟩ := hway.room htodo hk
  rw [← h.filled] at hroom
  have hpiece := Flat.take_drop_eq_read 0 hroom
  have hlen : ((s.device.data.drop (c.cur + c.part.length)).take k).length = k := by
    rw [hpiece, Flat.read_length]
  refine ⟨h.size_eq, h.filled, h.calls_put ?_, ?_⟩
  · rintro c' ⟨⟩
    refine hway.onward htodo (by rwa [hlen]) fun hw => ?_
    cases hdir.symm.trans hw
  · have hflight := (flights_some hi).trans (congrArg some (Call.transfer_read hdir))
    have hon := h.pending.readOn hflight hmoved
    rw [← hplace, ← hpiece, ← Call.onward_moved] at hon
    rw [flights_put, Option.map_some, Call.transfer_read (c := c.onward _) hdir]
    exact hon

/-- **A `memcpy` moves bytes into the data.** -/
theorem write_follows (h : Follows size mem bios s) {i : ι} {c : Call} (hi : s.calls i = some c)
    {seg : List UInt8} {segs : List (List UInt8)} (htodo : c.todo = seg :: segs) {k : Nat}
    (hk : c.part.length + k ≤ seg.length) (hdir : c.bio.dir = .write) :
    let bytes := (seg.drop c.part.length).take k
    Follows size mem bios ((s.store (Flat.splice s.device.data (c.cur + c.part.length) bytes)).put i
      (some (c.onward bytes))) := by
  intro bytes
  have hway := h.calls i c hi
  obtain ⟨hplace, hmoved, hroom⟩ := hway.room htodo hk
  have hpiece := hway.next_bytes hdir htodo hk
  have hlen : bytes.length = k := by
    rw [List.length_take, List.length_drop]
    omega
  have hsplice : (c.cur + c.part.length) + bytes.length ≤ s.device.data.length := by
    rwa [hlen, h.filled]
  refine ⟨h.size_eq, (Flat.splice_length hsplice).trans h.filled, h.calls_put ?_, ?_⟩
  · rintro c' ⟨⟩
    exact hway.onward htodo (by rwa [hlen]) fun _ => by rw [hlen]
  · have hflight := (flights_some hi).trans (congrArg some (Call.transfer_write hdir))
    rw [← c.bio.bytes_length] at hmoved
    have hon := h.pending.writeOn hflight hmoved
    rw [hpiece, ← hplace, ← Flat.ofList_splice 0 hsplice] at hon
    rw [flights_put, Option.map_some, Call.transfer_write (c := c.onward _) hdir,
      Call.onward_moved, List.length_append, hlen]
    exact hon

/-- **A `memcpy` moves bytes.** -/
theorem copy_follows (h : Follows size mem bios s) {i : ι} {c : Call} (hi : s.calls i = some c)
    (k : Nat) :
    Follows size mem bios ((s.store (c.copy k s.device.data).2).put i
      (some (c.copy k s.device.data).1)) := by
  have hsame : Follows size mem bios ((s.store s.device.data).put i (some c)) :=
    (put_self hi).symm ▸ h
  cases htodo : c.todo with
  | nil =>
    rw [Call.copy_nil htodo]
    exact hsame
  | cons seg segs =>
    by_cases hk : c.part.length + k ≤ seg.length
    · cases hdir : c.bio.dir with
      | read =>
        rw [Call.copy_read htodo hk hdir]
        exact read_follows h hi htodo hk hdir
      | write =>
        rw [Call.copy_write htodo hk hdir]
        exact write_follows h hi htodo hk hdir
    · rw [Call.copy_stuck htodo hk]
      exact hsame

/-- The call at its next segment: nothing is moved. -/
theorem Call.OnItsWay.next {n : Nat} {c : Call} (h : c.OnItsWay n) :
    c.next.OnItsWay n ∧ c.next.transfer = c.transfer := by
  cases htodo : c.todo with
  | nil =>
    have hnext : c.next = c := by simp only [Call.next, htodo]
    rw [hnext]
    exact ⟨h, rfl⟩
  | cons seg segs =>
    by_cases hfull : c.part.length = seg.length
    · have hnext : c.next = ⟨c.bio, c.cur + seg.length, c.filled ++ [c.part], [], segs⟩ := by
        simp only [Call.next, htodo, if_pos hfull]
      have hmoved : c.next.moved = c.moved := by
        rw [hnext]
        simp only [Call.moved, List.flatten_append, List.flatten_singleton, List.append_nil]
      have hbio : c.next.bio = c.bio := by rw [hnext]
      refine ⟨?_, ?_⟩
      · rw [hnext]
        refine ⟨h.inside, ?_, ?_, Nat.zero_le _, fun hdir => ⟨?_, rfl⟩⟩
        · rw [← h.lens, htodo, List.append_assoc]
          simp only [List.map_append, List.map_cons, hfull, List.singleton_append]
        · rw [h.cur, List.flatten_append, List.flatten_singleton, List.length_append, hfull,
            Nat.add_assoc]
        · obtain ⟨hkept, hpart⟩ := h.kept hdir
          rw [htodo] at hkept hpart
          have hseg : c.part = seg := by
            rw [hpart, hfull]
            exact List.take_length
          rw [hseg, List.append_assoc]
          exact hkept
      · unfold Call.transfer
        rw [hbio, hmoved]
    · have hnext : c.next = c := by simp only [Call.next, htodo, if_neg hfull]
      rw [hnext]
      exact ⟨h, rfl⟩

/-- **The loop takes the next segment.** -/
theorem next_follows (h : Follows size mem bios s) {i : ι} {c : Call} (hi : s.calls i = some c) :
    Follows size mem bios (s.put i (some c.next)) := by
  obtain ⟨hway, hsame⟩ := (h.calls i c hi).next
  refine ⟨h.size_eq, h.filled, h.calls_put ?_, ?_⟩
  · rintro c' ⟨⟩
    exact hway
  · rw [flights_put, Option.map_some, hsame, ← flights_some hi, Function.update_eq_self]
    exact h.pending

/-- **A call ends its bio**, as the byte array answers it after the bios that have ended. -/
theorem ret_follows (h : Follows size mem bios s) {i : ι} {c : Call} (hi : s.calls i = some c)
    (htodo : c.todo = []) :
    Follows size mem (bios ++ [c.bio]) (s.put i none) ∧
      ∀ device, AsFlat size.toNat
        (Flat.latest (Flat.ofList mem 0) (writesOf size.toNat bios)) c.bio
        ⟨device, c.filled, [.endio]⟩ := by
  have hway := h.calls i c hi
  have hin := hway.inside
  have hsize := hway.biSize
  have hpart : c.part = [] := by
    have hle := hway.part
    rw [htodo] at hle
    exact List.length_eq_zero_iff.mp (Nat.le_zero.mp hle)
  have hmoved : c.moved = c.filled.flatten := by rw [Call.moved, hpart, List.append_nil]
  rw [htodo, List.flatten_nil, List.length_nil, Nat.add_zero] at hsize
  have hcalls := h.calls_put (i := i) (o := none) nofun
  cases hdir : c.bio.dir with
  | read =>
    have hflight := (flights_some hi).trans (congrArg some (Call.transfer_read hdir))
    rw [hmoved] at hflight
    obtain ⟨hgot, hend⟩ := h.pending.endRead hflight hsize.symm
    have hnone : writesOf size.toNat [c.bio] = [] := by
      simp [writesOf, hdir]
    refine ⟨⟨h.size_eq, h.filled, hcalls, ?_⟩, fun device => ⟨?_, fun _ _ => ⟨?_, hgot⟩, ?_⟩⟩
    · rw [writesOf_snoc, hnone, List.append_nil, flights_put]
      exact hend
    · exact (if_neg (Nat.not_lt.mpr hin)).symm
    · have hlens := hway.lens
      rwa [htodo, List.append_nil] at hlens
    · rintro (hout | hw)
      · exact absurd hin (Nat.not_le.mpr hout)
      · cases hdir.symm.trans hw
  | write =>
    have hflight := (flights_some hi).trans (congrArg some (Call.transfer_write hdir))
    rw [hmoved, ← hsize, ← c.bio.bytes_length] at hflight
    have hone : writesOf size.toNat [c.bio] = [(c.bio.start, c.bio.bytes)] := by
      simp only [writesOf, List.filterMap_cons, List.filterMap_nil, hdir]
      rw [if_pos ⟨trivial, hin⟩]
    refine ⟨⟨h.size_eq, h.filled, hcalls, ?_⟩, fun device => ⟨?_, fun _ hr => ?_, fun _ => ?_⟩⟩
    · rw [writesOf_snoc, hone, flights_put]
      exact h.pending.endWrite hflight
    · exact (if_neg (Nat.not_lt.mpr hin)).symm
    · cases hdir.symm.trans hr
    · have hkept := (hway.kept hdir).1
      rwa [htodo, List.append_nil] at hkept

/-! ## Runs -/

/-- The device after these bios one after the other. -/
structure Sequential (size : UInt64) (mem : List UInt8) (bios : List Bio) : Prop where
  size_eq : (vrdRun (vrdInit size mem) bios).1.size = size
  filled : (vrdRun (vrdInit size mem) bios).1.data.length = size.toNat
  holds : Flat.ofList (vrdRun (vrdInit size mem) bios).1.data 0 =
    Flat.latest (Flat.ofList mem 0) (writesOf size.toNat bios)

theorem Sequential.snoc (h : Sequential size mem bios) {bio : Bio} (hwrap : bio.endByte < 2 ^ 64) :
    Sequential size mem (bios ++ [bio]) ∧
      AsFlat size.toNat (Flat.latest (Flat.ofList mem 0) (writesOf size.toNat bios)) bio
        (vrdMakeRequest (vrdRun (vrdInit size mem) bios).1 bio) := by
  have hfull : (vrdRun (vrdInit size mem) bios).1.data.length =
      (vrdRun (vrdInit size mem) bios).1.size.toNat := by rw [h.filled, h.size_eq]
  obtain ⟨hflat, hsize, hlen, hdata⟩ := vrdMakeRequest_spec hfull hwrap
  rw [h.size_eq, h.holds] at hflat hdata
  refine ⟨⟨?_, ?_, ?_⟩, hflat⟩
  · rw [vrdRun_snoc]
    exact hsize.trans h.size_eq
  · rw [vrdRun_snoc]
    exact hlen.trans h.filled
  · rw [vrdRun_snoc, writesOf_snoc, Flat.latest_append]
    exact hdata

/-- A byte array has one answer. -/
theorem AsFlat.answer_eq {n : Nat} {before : Nat → UInt8} {bio : Bio} {a b : Served}
    (ha : AsFlat n before bio a) (hb : AsFlat n before bio b) : a.answer = b.answer := by
  have hsegs : a.segs = b.segs := by
    by_cases hread : bio.endByte ≤ n ∧ bio.dir = .read
    · obtain ⟨hla, hfa⟩ := ha.read hread.1 hread.2
      obtain ⟨hlb, hfb⟩ := hb.read hread.1 hread.2
      exact List.eq_iff_flatten_eq.mpr ⟨hfa.trans hfb.symm, hla.trans hlb.symm⟩
    · have hkeep : n < bio.endByte ∨ bio.dir = .write := by
        cases hdir : bio.dir with
        | read => exact Or.inl (Nat.lt_of_not_le fun hin => hread ⟨hin, hdir⟩)
        | write => exact Or.inr rfl
      exact (ha.keep hkeep).trans (hb.keep hkeep).symm
  exact Prod.ext hsegs (ha.ends.trans hb.ends.symm)

omit [DecidableEq ι] in
/-- **A bio out of range** is ended at once. -/
theorem refuse_follows (h : Follows size mem bios s) {bio : Bio} (hout : size.toNat < bio.endByte) :
    Follows size mem (bios ++ [bio]) s ∧
      ∀ device, AsFlat size.toNat
        (Flat.latest (Flat.ofList mem 0) (writesOf size.toNat bios)) bio
        ⟨device, bio.segs, [.ioError]⟩ := by
  have hnone : writesOf size.toNat [bio] = [] := by
    simp only [writesOf, List.filterMap_cons, List.filterMap_nil]
    rw [if_neg (by omega)]
  refine ⟨⟨h.size_eq, h.filled, h.calls, ?_⟩, fun device => ⟨(if_pos hout).symm, ?_, fun _ => rfl⟩⟩
  · rw [writesOf_snoc, hnone, List.append_nil]
    exact h.pending
  · exact fun hin => absurd hout (Nat.not_lt.mpr hin)

/-- **One step** ends no bio, or one, as the byte array answers it. -/
theorem callStep_follows (h : Follows size mem bios s) {a : CallAct ι} (hfree : Free s a) :
    ((callStep s a).2 = [] ∧ Follows size mem bios (callStep s a).1) ∨
    ∃ e, (callStep s a).2 = [e] ∧ Follows size mem (bios ++ [e.bio]) (callStep s a).1 ∧
      e.bio.endByte < 2 ^ 64 ∧
      AsFlat size.toNat (Flat.latest (Flat.ofList mem 0) (writesOf size.toNat bios)) e.bio
        ⟨s.device, e.segs, [e.how]⟩ := by
  cases a with
  | enter i bio =>
    cases hi : s.calls i with
    | some c =>
      simp only [callStep, hi]
      exact Or.inl ⟨trivial, h⟩
    | none =>
      obtain ⟨hwrap, happart⟩ := hfree hi
      have hguard : bio.biSector * VRD_SECTOR_SIZE + bio.biSize.toUInt64 > s.device.size ↔
          size.toNat < bio.endByte := by
        rw [gt_iff_lt, UInt64.lt_iff_toNat_lt, guard_toNat hwrap, h.size_eq]
      rw [h.size_eq] at happart
      by_cases hout : size.toNat < bio.endByte
      · simp only [callStep, hi, if_pos (hguard.mpr hout)]
        obtain ⟨hfollows, hflat⟩ := refuse_follows h hout
        exact Or.inr ⟨_, rfl, hfollows, hwrap, hflat _⟩
      · simp only [callStep, hi, if_neg (fun hg => hout (hguard.mp hg))]
        have hin := Nat.le_of_not_lt hout
        exact Or.inl ⟨trivial, enter_follows h hi hwrap hin (happart hin)⟩
  | copy i k =>
    left
    cases hi : s.calls i with
    | none =>
      simp only [callStep, hi]
      exact ⟨trivial, h⟩
    | some c =>
      simp only [callStep, hi]
      exact ⟨trivial, copy_follows h hi k⟩
  | next i =>
    left
    cases hi : s.calls i with
    | none =>
      simp only [callStep, hi]
      exact ⟨trivial, h⟩
    | some c =>
      simp only [callStep, hi]
      exact ⟨trivial, next_follows h hi⟩
  | ret i =>
    cases hi : s.calls i with
    | none =>
      simp only [callStep, hi]
      exact Or.inl ⟨trivial, h⟩
    | some c =>
      cases htodo : c.todo with
      | cons seg segs =>
        simp only [callStep, hi, htodo]
        exact Or.inl ⟨trivial, h⟩
      | nil =>
        simp only [callStep, hi, htodo]
        obtain ⟨hfollows, hflat⟩ := ret_follows h hi htodo
        have hbound := size.toNat_lt
        have hin := (h.calls i c hi).inside
        exact Or.inr ⟨_, rfl, hfollows, Nat.lt_of_le_of_lt hin hbound, hflat _⟩

/-- The bios ended in a run, in the order they end. -/
def endings (acts : List (CallAct ι)) (s : Shared ι) : List (Ending ι) :=
  (trace callStep s acts).flatMap Taken.events

/-- **A run** ends its bios as the calls one after the other do. -/
theorem run_follows : ∀ (acts : List (CallAct ι)) (s : Shared ι) (bios : List Bio),
    Follows size mem bios s → Sequential size mem bios →
    (∀ t ∈ trace callStep s acts, Free t.before t.input) →
    let bios' := bios ++ (endings acts s).map Ending.bio
    Follows size mem bios' (final callStep s acts) ∧ Sequential size mem bios' ∧
      (vrdRun (vrdInit size mem) bios').2.map Served.answer =
        (vrdRun (vrdInit size mem) bios).2.map Served.answer ++
          (endings acts s).map Ending.answer
  | [], s, bios, h, hseq, _ => by
    simp only [endings, trace, List.flatMap_nil, List.map_nil, List.append_nil]
    exact ⟨h, hseq, trivial⟩
  | a :: acts, s, bios, h, hseq, hfree => by
    obtain ⟨hfree₀, hfrees⟩ := List.forall_mem_cons.mp hfree
    have hsplit : endings (a :: acts) s = (callStep s a).2 ++ endings acts (callStep s a).1 := rfl
    rw [hsplit]
    rcases callStep_follows h hfree₀ with ⟨hnil, hnext⟩ | ⟨e, hone, hnext, hwrap, hflat⟩
    · rw [hnil, List.nil_append]
      exact run_follows acts _ bios hnext hseq hfrees
    · obtain ⟨hseq', hsame⟩ := hseq.snoc hwrap
      obtain ⟨hend, hseqEnd, hans⟩ := run_follows acts _ (bios ++ [e.bio]) hnext hseq' hfrees
      rw [hone, List.singleton_append, List.map_cons, List.map_cons, List.append_cons bios]
      refine ⟨hend, hseqEnd, hans.trans ?_⟩
      rw [vrdRun_snoc, List.map_append, List.map_singleton, List.append_assoc,
        List.singleton_append, hsame.answer_eq hflat]
      rfl

/-- **Concurrent calls linearize.** In every interleaving of calls of `vrd_make_request`, where each
bio in range that enters is apart from those under way, each bio is answered as by the calls one
after the other in the order they end; and with no call under way the data is what these leave. -/
theorem concurrent_calls_linearize (size : UInt64) (mem : List UInt8)
    (hmem : mem.length = size.toNat) (acts : List (CallAct ι))
    (hfree : ∀ t ∈ trace callStep (idle (vrdInit size mem)) acts, Free t.before t.input) :
    let ended := endings acts (idle (vrdInit size mem))
    let sequential := vrdRun (vrdInit size mem) (ended.map Ending.bio)
    let left := final callStep (idle (vrdInit size mem)) acts
    ended.map Ending.answer = sequential.2.map Served.answer ∧
      ((∀ i, left.calls i = none) → left.device = sequential.1) := by
  have hstart : Follows size mem [] (idle (ι := ι) (vrdInit size mem)) :=
    ⟨rfl, hmem, nofun, Pending.start _⟩
  obtain ⟨hend, hseq, hans⟩ := run_follows acts _ [] hstart ⟨rfl, hmem, rfl⟩ hfree
  refine ⟨hans.symm, fun hnone => ?_⟩
  have hquiet := hend.pending.quiet fun i => congrArg (Option.map Call.transfer) (hnone i)
  have hdata := Flat.ofList_inj (hend.filled.trans hseq.filled.symm) (hquiet.trans hseq.holds.symm)
  have hsize := hend.size_eq.trans hseq.size_eq.symm
  exact congrArg₂ VrdDevice.mk hsize hdata

/-- Two writes of two bytes. -/
def twoBytes (sector : UInt64) (byte : UInt8) : Bio :=
  ⟨sector, 2, .write, [[byte, byte]], rfl⟩

/-- A read of one byte at the second sector. -/
def oneByte : Bio := ⟨1, 1, .read, [[0]], rfl⟩

/-- A write to the first sector stops half way while another goes to the second one, which is read
once that has ended. -/
def overlapping : List (CallAct Bool) :=
  [.enter false (twoBytes 0 1), .copy false 1, .enter true (twoBytes 1 2), .copy true 2,
    .next true, .ret true, .enter true oneByte, .copy true 1, .copy false 1, .next false,
    .ret false, .next true, .ret true]

theorem concurrent_calls_linearize_overlapping :
    let ended := endings overlapping (idle (vrdInit 1024 (List.replicate 1024 0)))
    let sequential := vrdRun (vrdInit 1024 (List.replicate 1024 0)) (ended.map Ending.bio)
    let left := final callStep (idle (vrdInit 1024 (List.replicate 1024 0))) overlapping
    ended.map Ending.answer = sequential.2.map Served.answer ∧
      ((∀ i, left.calls i = none) → left.device = sequential.1) := by
  refine concurrent_calls_linearize 1024 (List.replicate 1024 0) List.length_replicate
    overlapping ?_
  simp only [overlapping, trace, List.forall_mem_cons]
  refine ⟨fun _ => ⟨by decide, fun _ j c hj => ?_⟩, trivial,
    fun _ => ⟨by decide, fun _ j c hj => ?_⟩, trivial, trivial, trivial,
    fun _ => ⟨by decide, fun _ j c hj => ?_⟩, trivial, trivial, trivial, trivial, trivial, trivial,
    fun _ ht => nomatch ht⟩
  · cases hj
  · cases j with
    | false =>
      cases hj
      exact Or.inr (Or.inr (by decide))
    | true => cases hj
  · cases j with
    | false =>
      cases hj
      exact Or.inr (Or.inr (by decide))
    | true => cases hj

/-- Two writes of the same bytes at once leave what no order of them leaves. -/
example :
    (final callStep (idle (vrdInit 2 [0, 0])) [.enter false (twoBytes 0 1),
      .enter true (twoBytes 0 2), .copy false 1, .copy true 2, .copy false 1]).device.data =
        [2, 1] := by decide

end JcmController.Ramdisk
