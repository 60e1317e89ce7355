import JcmController.Controller.NbdReplication
import JcmController.Lib.Flat

/-!
# The replica table (`json_file.c`, `ReadDMBDReplication`)

One call returns three things: the table, `*len` and `*info_len`. They are locals that are only
assigned when a server has the own address, and `replica_info_length` is one variable for all the
nodes.

* `Locals` is what the two lengths hold before they are assigned. The table that is returned
  without a match is an indeterminate pointer.
* A `replica_info` is a block of memory, of `DMBD_INFORMATION` records. A store outside of it is
  `none`, the end of the process. `calloc` gives what it is asked for.

Results:
* `fillInfos_spec`, `readNodes_spec`: what each loop leaves, and when it can go on.
* **`replica_table_iff`**: the call describes the table when the lists of the nodes have one length
  and their addresses stay in their block, or, for an address that no server has, when the local
  was 0.
* `Describes.reads`: then `ReadNBDReplication` stays inside the table.
* `replica_table_lies`: two nodes with lists of different lengths, and an address no server has.
-/

namespace JcmController.Controller

open JcmController.Lib JcmController.Lib.Flat

/-! ## `ReadDMBDReplication` -/

/-- `sizeof(DMBD_INFORMATION)` -/
def informationSize : Nat := 96

/-- A store of these bytes at `off` in a block. -/
def store (block : Bytes) (off : Nat) (bs : Bytes) : Option Bytes :=
  if off + bs.length ≤ block.length then some (splice block off bs) else none

/-- The body of the loop over `j`. -/
def fillInfo (jc : JsonC) (j : Nat) (block : Bytes) (attr : Option Json) : Option Bytes := do
  let replicaIp ← jc.getString (objectGetEx attr (ascii "replica_ip"))
  -- strcpy
  let block ← store block (informationSize * j) (replicaIp ++ [0])
  let replicaDev ← jc.getString (objectGetEx attr (ascii "dev_name"))
  let block ← store block (informationSize * j + 16) (charField 32 replicaDev)
  let nbdExport ← jc.getString (objectGetEx attr (ascii "nbd_export"))
  let block ← store block (informationSize * j + 48) (charField 32 nbdExport)
  let nbdPort ← jc.getString (objectGetEx attr (ascii "dmbd_nbd_port"))
  store block (informationSize * j + 80) (charField 16 nbdPort)

/-- The loop over `j`, from `j` on. -/
def fillInfos (jc : JsonC) : Nat → Bytes → List (Option Json) → Option Bytes
  | _, block, [] => some block
  | j, block, attr :: attrs => (fillInfo jc j block attr).bind fun block =>
    fillInfos jc (j + 1) block attrs

/-- A `DMBD_CONFIG_REPLICATION`: its `ip` and the block its `replica_info` points to. -/
structure ReplicaRecord where
  ip : Bytes
  info : Bytes

/-- The body of the loop over `k`, and what it leaves in `replica_info_length`. -/
def readNode (jc : JsonC) (replica : Option Json) : Option (ReplicaRecord × Int) := do
  let nodeIp ← jc.getString (objectGetEx replica (ascii "node_ip"))
  let attrs ← arrayOf (objectGetEx replica (ascii "replica_info"))
  let info ← fillInfos jc 0 (List.replicate (informationSize * attrs.length) 0) attrs
  return (⟨charField 16 nodeIp, info⟩, attrs.length)

/-- The loop over `k`. -/
def readNodes (jc : JsonC) (infoLen : Int) :
    List (Option Json) → Option (List ReplicaRecord × Int)
  | [] => some ([], infoLen)
  | replica :: rest => do
    let (record, infoLen) ← readNode jc replica
    let (records, infoLen) ← readNodes jc infoLen rest
    return (record :: records, infoLen)

/-- `replica_length` and `replica_info_length` before they are assigned. -/
structure Locals where
  replicaLength : Int
  replicaInfoLength : Int

/-- What the call returns, and leaves in `*len` and `*info_len`. -/
structure ReplicaTable where
  table : Option (List ReplicaRecord)
  len : Int
  infoLen : Int

/-- The loop over `i`, which ends at the first match. -/
def findReplica (jc : JsonC) (stack : Locals) (myIp : Bytes) :
    List (Option Json) → Option ReplicaTable
  | [] => some ⟨none, stack.replicaLength, stack.replicaInfoLength⟩
  | new :: rest => do
    let localIp ← jc.getString (objectGetEx new (ascii "local_ip"))
    if myIp = localIp then
      let nodes ← arrayOf (objectGetEx new (ascii "set_info"))
      let (records, infoLen) ← readNodes jc stack.replicaInfoLength nodes
      return ⟨some records, nodes.length, infoLen⟩
    else findReplica jc stack myIp rest

/-- `ReadDMBDReplication` of a file with this contents. -/
def readDMBDReplication (jc : JsonC) (stack : Locals) (file : Option Bytes) (myIp : Bytes) :
    Option ReplicaTable := do
  let servers ← arrayOf (objectGetEx (jc.fromFile file) (ascii "replica"))
  findReplica jc stack myIp servers

/-! ## Blocks -/

/-- The attributes of an entry as its record has them behind the address. -/
def ReplicaEntry.attributes (e : ReplicaEntry) : Bytes :=
  charField 32 e.devName ++ charField 32 e.nbdExport ++ charField 16 e.nbdPort

/-- The entry is in record `j` of the block, of its address what fits there. -/
structure HoldsAt (block : Bytes) (j : Nat) (e : ReplicaEntry) : Prop where
  address : (e.replicaIp ++ [0]).take 16 <+: block.drop (informationSize * j)
  attributes : (block.drop (informationSize * j + 16)).take 80 = e.attributes

/-- The address of entry `j` ends in a block of `n` records. -/
def InBlock (n j : Nat) (e : ReplicaEntry) : Prop :=
  informationSize * j + e.replicaIp.length < informationSize * n

instance (n j : Nat) (e : ReplicaEntry) : Decidable (InBlock n j e) :=
  inferInstanceAs (Decidable (_ < _))

theorem attributes_length (e : ReplicaEntry) : e.attributes.length = 80 := by
  simp [ReplicaEntry.attributes, charField_length]

theorem store_of_le {block bs : Bytes} {off : Nat} (h : off + bs.length ≤ block.length) :
    store block off bs = some (splice block off bs) := if_pos h

theorem store_of_not_le {block bs : Bytes} {off : Nat} (h : ¬ off + bs.length ≤ block.length) :
    store block off bs = none := if_neg h

/-- A record is inside its block. -/
theorem record_le {n j : Nat} (h : j < n) :
    informationSize * j + informationSize ≤ informationSize * n := Nat.mul_le_mul_left _ h

/-- The three fields behind the address, stored one after the other. -/
theorem store_attributes {block : Bytes} {off : Nat} (e : ReplicaEntry)
    (h : off + 96 ≤ block.length) :
    ((store block (off + 16) (charField 32 e.devName)).bind fun block =>
      (store block (off + 48) (charField 32 e.nbdExport)).bind fun block =>
        store block (off + 80) (charField 16 e.nbdPort)) =
      some (splice block (off + 16) e.attributes) := by
  have hdev : off + 16 + (charField 32 e.devName).length ≤ block.length := by
    rw [charField_length]
    omega
  have hlen := splice_length hdev
  have hexport : off + 16 + (charField 32 e.devName ++ charField 32 e.nbdExport).length ≤
      block.length := by
    rw [List.length_append, charField_length, charField_length]
    omega
  have htwo : splice (splice block (off + 16) (charField 32 e.devName)) (off + 48)
      (charField 32 e.nbdExport) =
        splice block (off + 16) (charField 32 e.devName ++ charField 32 e.nbdExport) := by
    rw [← splice_splice _ hdev, charField_length]
  have hthree : splice (splice block (off + 16)
      (charField 32 e.devName ++ charField 32 e.nbdExport)) (off + 80) (charField 16 e.nbdPort) =
        splice block (off + 16) e.attributes := by
    rw [ReplicaEntry.attributes, ← splice_splice _ hexport, List.length_append, charField_length,
      charField_length]
  rw [store_of_le hdev, Option.bind_some, store_of_le (by rw [hlen, charField_length]; omega),
    Option.bind_some, htwo,
    store_of_le (by rw [splice_length hexport, charField_length]; omega), hthree]

/-! ## The loops -/

section Loops

variable {jc : JsonC} {n : Nat}

/-- **One entry**: its address ends in the block, and its attributes are stored behind it. -/
theorem fillInfo_spec {attr : Option Json} {e : ReplicaEntry} (he : EntryReads jc attr e) {j : Nat}
    {block : Bytes} (hlen : block.length = informationSize * n) (hj : j < n) :
    fillInfo jc j block attr = if InBlock n j e then
      some (splice (splice block (informationSize * j) (e.replicaIp ++ [0]))
        (informationSize * j + 16) e.attributes) else none := by
  have hip : informationSize * j + (e.replicaIp ++ [0]).length ≤ block.length ↔
      InBlock n j e := by
    rw [hlen, List.length_append]
    exact Iff.rfl
  simp only [fillInfo, he.replicaIp, he.devName, he.nbdExport, he.nbdPort, Option.bind_eq_bind,
    Option.bind_some]
  by_cases hin : InBlock n j e
  · have hle := hip.mpr hin
    have hrecord : informationSize * j + 96 ≤
        (splice block (informationSize * j) (e.replicaIp ++ [0])).length := by
      rw [splice_length hle, hlen]
      exact record_le hj
    rw [if_pos hin, store_of_le hle, Option.bind_some, store_attributes e hrecord]
  · rw [if_neg hin, store_of_not_le (mt hip.mp hin), Option.bind_none]

/-- Blocks that agree up to `m` agree in a run of bytes that ends there. -/
theorem take_drop_congr {b b' : Bytes} {m off k : Nat} (h : b.take m = b'.take m)
    (hle : off + k ≤ m) : (b.drop off).take k = (b'.drop off).take k := by
  have hcut : ∀ b : Bytes, (b.drop off).take k = ((b.take m).drop off).take k := by
    intro b
    rw [List.drop_take, List.take_take, Nat.min_eq_left (by omega)]
  rw [hcut, h, ← hcut]

/-- A prefix that blocks have which agree that far. -/
theorem prefix_drop_congr {b b' s : Bytes} {m off : Nat} (h : b.take m = b'.take m)
    (hle : off + s.length ≤ m) (hs : s <+: b.drop off) : s <+: b'.drop off := by
  have hs' := List.prefix_take_iff.mpr ⟨hs, Nat.le_refl _⟩
  rw [take_drop_congr h hle] at hs'
  exact hs'.trans (List.take_prefix _ _)

/-- What an entry leaves: the record, and everything in front of it as it was. -/
theorem fillInfo_leaves {e : ReplicaEntry} {j : Nat} {block : Bytes}
    (hlen : block.length = informationSize * n) (hj : j < n) (hin : InBlock n j e) :
    let block' := splice (splice block (informationSize * j) (e.replicaIp ++ [0]))
      (informationSize * j + 16) e.attributes
    block'.length = informationSize * n ∧ HoldsAt block' j e ∧
      block'.take (informationSize * j) = block.take (informationSize * j) := by
  have hrecord := record_le hj
  have hip : informationSize * j + (e.replicaIp ++ [0]).length ≤ block.length := by
    rw [hlen, List.length_append]
    exact hin
  have hlen' := (splice_length hip).trans hlen
  have hsize : informationSize = 96 := rfl
  have hattributes : informationSize * j + 16 + e.attributes.length ≤
      (splice block (informationSize * j) (e.replicaIp ++ [0])).length := by
    rw [attributes_length, hlen']
    omega
  have hbehind := Nat.le_trans (Nat.le_add_right _ _) hattributes
  refine ⟨(splice_length hattributes).trans hlen', ⟨?_, ?_⟩, ?_⟩
  · -- the attributes are stored behind the first 16 bytes of the address
    have hip' : (e.replicaIp ++ [0]).take 16 <+:
        (splice block (informationSize * j) (e.replicaIp ++ [0])).drop (informationSize * j) :=
      (List.take_prefix _ _).trans
        (prefix_drop_splice _ (Nat.le_trans (Nat.le_add_right _ _) hip))
    refine prefix_drop_congr (take_splice e.attributes hbehind (Nat.le_refl _)).symm ?_ hip'
    exact Nat.add_le_add_left (List.length_take_le _ _) _
  · have := List.prefix_iff_eq_take.mp (prefix_drop_splice e.attributes hbehind)
    rw [attributes_length] at this
    exact this.symm
  · rw [take_splice _ hbehind (Nat.le_add_right _ _), take_splice _ (by omega) (Nat.le_refl _)]

/-- A record that later stores are behind of. -/
theorem HoldsAt.congr {block block' : Bytes} {i j : Nat} {e : ReplicaEntry} (h : HoldsAt block i e)
    (hij : i < j) (htake : block'.take (informationSize * j) = block.take (informationSize * j)) :
    HoldsAt block' i e := by
  have hsize : informationSize = 96 := rfl
  have hle : informationSize * i + 16 + 80 ≤ informationSize * j := by
    have := record_le hij
    omega
  have haddress : ((e.replicaIp ++ [0]).take 16).length ≤ 16 := List.length_take_le _ _
  exact ⟨prefix_drop_congr htake.symm (by omega) h.address,
    (take_drop_congr htake hle).trans h.attributes⟩

/-- **The loop over `j`**: it goes on as long as each address ends in the block, and leaves each
entry in its record. -/
theorem fillInfos_spec {attrs : List (Option Json)} {es : List ReplicaEntry}
    (hes : List.Forall₂ (EntryReads jc) attrs es) :
    ∀ {j : Nat} {block : Bytes}, block.length = informationSize * n → j + es.length = n →
      ((∀ i e, es[i]? = some e → InBlock n (j + i) e) →
        ∃ block', fillInfos jc j block attrs = some block' ∧
          block'.length = informationSize * n ∧
          block'.take (informationSize * j) = block.take (informationSize * j) ∧
          ∀ i e, es[i]? = some e → HoldsAt block' (j + i) e) ∧
        (∀ block', fillInfos jc j block attrs = some block' →
          ∀ i e, es[i]? = some e → InBlock n (j + i) e) := by
  induction hes with
  | nil =>
    intro j block hlen _
    exact ⟨fun _ => ⟨block, rfl, hlen, rfl, fun i e h => by cases h⟩, fun _ _ i e h => by cases h⟩
  | @cons attr e attrs es he _ ih =>
    intro j block hlen hn
    rw [List.length_cons] at hn
    have hj : j < n := by omega
    have hindex : ∀ i, j + 1 + i = j + (i + 1) := fun i => by omega
    unfold fillInfos
    rw [fillInfo_spec he hlen hj]
    by_cases hin : InBlock n j e
    · obtain ⟨hlen', hholds, hfront⟩ := fillInfo_leaves hlen hj hin
      rw [if_pos hin, Option.bind_some]
      obtain ⟨hgo, hback⟩ := ih hlen' (by omega : j + 1 + es.length = n)
      constructor
      · intro hall
        obtain ⟨block', hrest, hlen'', hfront', hheld⟩ := hgo fun i e' h => by
          rw [hindex]
          exact hall (i + 1) e' h
        refine ⟨block', hrest, hlen'', ?_, fun i e' h => ?_⟩
        · have hcut : ∀ b : Bytes, b.take (informationSize * j) =
              (b.take (informationSize * (j + 1))).take (informationSize * j) := by
            intro b
            rw [List.take_take, Nat.min_eq_left (Nat.mul_le_mul_left _ (Nat.le_succ j))]
          rw [hcut, hfront', ← hcut]
          exact hfront
        · cases i with
          | zero =>
            obtain rfl := Option.some.inj h
            exact hholds.congr (Nat.lt_succ_self j) hfront'
          | succ i =>
            rw [← hindex]
            exact hheld i e' h
      · intro block' hrest i e' h
        cases i with
        | zero =>
          obtain rfl := Option.some.inj h
          exact hin
        | succ i =>
          rw [← hindex]
          exact hback block' hrest i e' h
    · rw [if_neg hin]
      refine ⟨fun hall => absurd (hall 0 e rfl) hin, fun block' h => ?_⟩
      cases h

/-- The addresses of a node's entries end in its block. -/
def ReplicaNode.Fits (node : ReplicaNode) : Prop :=
  ∀ j e, node.replicaInfo[j]? = some e → InBlock node.replicaInfo.length j e

/-- Addresses that are shorter than a record do. -/
theorem fits_of_short {node : ReplicaNode}
    (h : ∀ e ∈ node.replicaInfo, e.replicaIp.length < informationSize) : node.Fits := by
  intro j e he
  obtain ⟨hj, _⟩ := List.getElem?_eq_some_iff.mp he
  exact Nat.lt_of_lt_of_le (Nat.add_lt_add_left (h e (List.mem_of_getElem? he)) _) (record_le hj)

/-- The record of this node: a block for its entries, with every entry in it. -/
structure RecordOf (record : ReplicaRecord) (node : ReplicaNode) : Prop where
  ip : record.ip = charField 16 node.nodeIp
  allocated : record.info.length = informationSize * node.replicaInfo.length
  filled : ∀ j e, node.replicaInfo[j]? = some e → HoldsAt record.info j e

/-- One node. -/
theorem readNode_spec {replica : Option Json} {node : ReplicaNode}
    (hnode : NodeReads jc replica node) :
    (node.Fits → ∃ record, readNode jc replica = some (record, (node.replicaInfo.length : Int)) ∧
      RecordOf record node) ∧
    (∀ r, readNode jc replica = some r → node.Fits) := by
  obtain ⟨attrs, hattrs, hes⟩ := hnode.replicaInfo
  have hlen : attrs.length = node.replicaInfo.length := hes.length_eq
  have hzeros : (List.replicate (informationSize * attrs.length) (0 : UInt8)).length =
      informationSize * node.replicaInfo.length := by
    rw [List.length_replicate, hlen]
  obtain ⟨hgo, hback⟩ := fillInfos_spec hes hzeros (Nat.zero_add _)
  simp only [Nat.zero_add] at hgo hback
  simp only [readNode, hnode.nodeIp, hattrs, Option.bind_eq_bind, Option.bind_some, Option.pure_def]
  constructor
  · intro hfits
    obtain ⟨block, hfill, hblock, _, hheld⟩ := hgo hfits
    rw [hfill, hlen]
    exact ⟨_, rfl, rfl, hblock, hheld⟩
  · intro r hr
    obtain ⟨block, hfill, _⟩ := Option.bind_eq_some_iff.mp hr
    exact hback block hfill

/-- What is in `replica_info_length` after these nodes. -/
def lastLength (infoLen : Int) (nodes : List ReplicaNode) : Int :=
  (nodes.getLast?.map fun node => (node.replicaInfo.length : Int)).getD infoLen

theorem lastLength_cons (infoLen : Int) (node : ReplicaNode) (nodes : List ReplicaNode) :
    lastLength infoLen (node :: nodes) = lastLength node.replicaInfo.length nodes := by
  unfold lastLength
  rw [List.getLast?_cons]
  cases nodes.getLast? <;> rfl

/-- **The loop over `k`**: a record for each node, and the length of the last one's list. -/
theorem readNodes_spec {replicas : List (Option Json)} {nodes : List ReplicaNode}
    (hnodes : List.Forall₂ (NodeReads jc) replicas nodes) :
    ∀ infoLen,
      ((∀ node ∈ nodes, node.Fits) → ∃ records,
        readNodes jc infoLen replicas = some (records, lastLength infoLen nodes) ∧
          List.Forall₂ RecordOf records nodes) ∧
      (∀ r, readNodes jc infoLen replicas = some r → ∀ node ∈ nodes, node.Fits) := by
  induction hnodes with
  | nil => exact fun infoLen => ⟨fun _ => ⟨[], rfl, .nil⟩, fun _ _ _ h => by cases h⟩
  | @cons replica node replicas nodes hnode _ ih =>
    intro infoLen
    obtain ⟨hone, hone'⟩ := readNode_spec hnode
    obtain ⟨hrest, hrest'⟩ := ih node.replicaInfo.length
    constructor
    · intro hall
      obtain ⟨hfits, hall⟩ := List.forall_mem_cons.mp hall
      obtain ⟨record, hrecord, hof⟩ := hone hfits
      obtain ⟨records, hrecords, hofs⟩ := hrest hall
      refine ⟨record :: records, ?_, .cons hof hofs⟩
      simp only [readNodes, hrecord, hrecords, Option.bind_eq_bind, Option.bind_some,
        Option.pure_def, lastLength_cons]
    · intro r hr
      obtain ⟨⟨record, infoLen'⟩, hrecord, hr⟩ := Option.bind_eq_some_iff.mp hr
      have hfits := hone' _ hrecord
      obtain ⟨records, hrecord', _⟩ := hone hfits
      obtain ⟨-, rfl⟩ := Prod.mk.inj (Option.some.inj (hrecord.symm.trans hrecord'))
      obtain ⟨_, hrecords, _⟩ := Option.bind_eq_some_iff.mp hr
      exact List.forall_mem_cons.mpr ⟨hfits, hrest' _ hrecords⟩

/-- The server with the own address. -/
def ownServer (doc : List ReplicaServer) (myIp : Bytes) : Option ReplicaServer :=
  doc.find? fun s => s.localIp = myIp

/-- **The loop over `i`** ends at the first server with the own address. -/
theorem findReplica_spec {servers : List (Option Json)} {doc : List ReplicaServer}
    (hdoc : List.Forall₂ (ServerReads jc) servers doc) (stack : Locals) (myIp : Bytes) :
    (ownServer doc myIp = none ∧
      findReplica jc stack myIp servers =
        some ⟨none, stack.replicaLength, stack.replicaInfoLength⟩) ∨
    ∃ s replicas, ownServer doc myIp = some s ∧
      List.Forall₂ (NodeReads jc) replicas s.setInfo ∧
      findReplica jc stack myIp servers =
        (readNodes jc stack.replicaInfoLength replicas).map fun r =>
          ⟨some r.1, s.setInfo.length, r.2⟩ := by
  induction hdoc with
  | nil => exact Or.inl ⟨rfl, rfl⟩
  | @cons new s servers doc hs _ ih =>
    obtain ⟨replicas, hreplicas, hnodes⟩ := hs.setInfo
    simp only [findReplica, hs.localIp, hreplicas, Option.bind_eq_bind, Option.bind_some,
      ownServer, List.find?_cons]
    by_cases hip : s.localIp = myIp
    · refine Or.inr ⟨s, replicas, ?_, hnodes, ?_⟩
      · simp [hip]
      · rw [if_pos hip.symm, hnodes.length_eq]
        cases readNodes jc stack.replicaInfoLength replicas <;> rfl
    · have hne : decide (s.localIp = myIp) = false := decide_eq_false hip
      rw [if_neg fun h => hip h.symm, hne]
      exact ih

end Loops

/-! ## What the call should say -/

/-- **The table is described by its lengths**: a record for each node, in order, and for each of
them `*info_len` entries. -/
structure Describes (nodes : List ReplicaNode) (r : ReplicaTable) : Prop where
  records : ∃ records, r.table = some records ∧ List.Forall₂ RecordOf records nodes
  len : r.len = nodes.length
  infoLen : ∀ node ∈ nodes, r.infoLen = node.replicaInfo.length

/-- The call returns, with the table of the server that has the own address, or an empty one. -/
def Reports (doc : List ReplicaServer) (myIp : Bytes) (r : Option ReplicaTable) : Prop :=
  ∃ t, r = some t ∧
    match ownServer doc myIp with
    | some s => Describes s.setInfo t
    | none => t.len = 0

/-- The lists of a server's nodes have one length, and their addresses end in their blocks. -/
structure Even (nodes : List ReplicaNode) : Prop where
  lengths : ∀ node ∈ nodes, ∀ node' ∈ nodes,
    node.replicaInfo.length = node'.replicaInfo.length
  fits : ∀ node ∈ nodes, node.Fits

theorem describes_iff {jc : JsonC} {replicas : List (Option Json)} {nodes : List ReplicaNode}
    (hnodes : List.Forall₂ (NodeReads jc) replicas nodes) (infoLen : Int) :
    (∃ t, (readNodes jc infoLen replicas).map (fun r =>
      (⟨some r.1, nodes.length, r.2⟩ : ReplicaTable)) = some t ∧ Describes nodes t) ↔
      Even nodes := by
  obtain ⟨hgo, hback⟩ := readNodes_spec hnodes infoLen
  constructor
  · rintro ⟨t, ht, hd⟩
    obtain ⟨r, hr, _⟩ := Option.map_eq_some_iff.mp ht
    refine ⟨fun node hn node' hn' => ?_, hback r hr⟩
    exact Int.ofNat_inj.mp ((hd.infoLen node hn).symm.trans (hd.infoLen node' hn'))
  · intro heven
    obtain ⟨records, hrecords, hof⟩ := hgo heven.fits
    rw [hrecords]
    refine ⟨_, rfl, ⟨records, rfl, hof⟩, rfl, fun node hn => ?_⟩
    obtain ⟨last, hlast⟩ : ∃ last, nodes.getLast? = some last := by
      cases h : nodes.getLast? with
      | none =>
        rw [List.getLast?_eq_none_iff.mp h] at hn
        exact absurd hn List.not_mem_nil
      | some last => exact ⟨last, rfl⟩
    show lastLength infoLen nodes = _
    rw [lastLength, hlast]
    exact congrArg Nat.cast (heven.lengths last (List.mem_of_getLast? hlast) node hn)

/-- **The table is described by its lengths** when the lists of the own server's nodes are even, or,
without an own server, when the local that becomes `*len` was 0. -/
theorem replica_table_iff (jc : JsonC) (stack : Locals) (file : Option Bytes)
    (doc : List ReplicaServer) (hdoc : ReadsAs jc file doc) (myIp : Bytes) :
    Reports doc myIp (readDMBDReplication jc stack file myIp) ↔
      match ownServer doc myIp with
      | some s => Even s.setInfo
      | none => stack.replicaLength = 0 := by
  obtain ⟨servers, hservers, hall⟩ := hdoc
  have hcall : readDMBDReplication jc stack file myIp = findReplica jc stack myIp servers := by
    rw [readDMBDReplication, hservers]
    rfl
  unfold Reports
  rcases findReplica_spec hall stack myIp with ⟨hnone, hfind⟩ | ⟨s, replicas, hs, hnodes, hfind⟩
  · rw [hcall, hfind, hnone]
    constructor
    · rintro ⟨t, ht, hlen⟩
      obtain rfl := Option.some.inj ht
      exact hlen
    · exact fun h => ⟨_, rfl, h⟩
  · rw [hcall, hfind, hs]
    exact describes_iff hnodes stack.replicaInfoLength

/-! ## The caller -/

/-- The row that the caller sees for a record, with as many replicas as its block holds. -/
structure RowOf (row : DmbdConfigReplication) (record : ReplicaRecord) : Prop where
  ip : row.ip = record.ip
  infos : informationSize * row.replicaInfo.length = record.info.length

/-- **The lengths of a described table are those of its rows.** -/
theorem Describes.room {nodes : List ReplicaNode} {t : ReplicaTable} (h : Describes nodes t)
    {records : List ReplicaRecord} (htable : t.table = some records)
    {rows : List DmbdConfigReplication} (hrows : List.Forall₂ RowOf rows records) :
    Room t.infoLen.toNat t.len.toNat rows := by
  obtain ⟨records', hrecords, hof⟩ := h.records
  obtain rfl := Option.some.inj (htable.symm.trans hrecords)
  refine ⟨?_, fun row hrow => ?_⟩
  · rw [h.len, hrows.length_eq, hof.length_eq]
    exact Nat.le_refl _
  · obtain ⟨k, hk, rfl⟩ := List.getElem_of_mem hrow
    have hk' : k < records.length := hrows.length_eq ▸ hk
    have hk'' : k < nodes.length := hof.length_eq ▸ hk'
    have hrow := (hrows.get hk hk').infos
    have hrecord := (hof.get hk' hk'').allocated
    have hlen : rows[k].replicaInfo.length = nodes[k].replicaInfo.length :=
      Nat.eq_of_mul_eq_mul_left (by decide) (hrow.trans hrecord)
    rw [h.infoLen _ (List.getElem_mem hk''), hlen]
    exact Nat.le_refl _

/-- `ReadNBDReplication` stays inside these rows. -/
theorem Describes.reads {nodes : List ReplicaNode} {t : ReplicaTable} (h : Describes nodes t)
    {records : List ReplicaRecord} (htable : t.table = some records)
    {rows : List DmbdConfigReplication} (hrows : List.Forall₂ RowOf rows records) {jc : JsonC}
    {file : Option Bytes} {doc : List ReplicaServer} (hdoc : ReadsAs jc file doc) (myIp : Bytes) :
    ∃ rows', readNBDReplication jc file myIp rows t.infoLen.toNat t.len.toNat = some rows' :=
  ⟨_, readNBDReplication_spec hdoc myIp (h.room htable hrows)⟩

/-! ## Two documents -/

/-- The own server's table from the document of `nbdText`. -/
theorem replica_table_own :
    Reports nbdDoc (ascii "10.0.0.2")
      (readDMBDReplication nbdJson ⟨7, 7⟩ (some nbdText) (ascii "10.0.0.2")) := by
  refine (replica_table_iff nbdJson ⟨7, 7⟩ (some nbdText) nbdDoc nbdDoc_reads
    (ascii "10.0.0.2")).mpr ?_
  show Even [⟨ascii "10.0.0.2", _⟩]
  constructor
  · intro node hn node' hn'
    rw [List.mem_singleton.mp hn, List.mem_singleton.mp hn']
  · intro node hn
    rw [List.mem_singleton.mp hn]
    exact fits_of_short (by decide +kernel)

/-- A server with two nodes, the first without replicas and the second with one. -/
def unevenText : Bytes := ascii ("\x7b\"replica\":[\x7b\"local_ip\":\"10.0.0.2\"," ++
  "\"set_info\":[\x7b\"node_ip\":\"10.0.0.4\",\"replica_info\":[]\x7d," ++
  "\x7b\"node_ip\":\"10.0.0.2\",\"replica_info\":[\x7b\"replica_ip\":\"10.0.0.3\"," ++
  "\"dev_name\":\"/dev/sdb\",\"nbd_export\":\"disk\"," ++
  "\"dmbd_nbd_port\":\"1111\"\x7d]\x7d]\x7d]\x7d")

/-- Its first node. -/
def bareNode : Json :=
  .obj [(ascii "node_ip", some (.str (ascii "10.0.0.4"))), (ascii "replica_info", some (.arr []))]

/-- Its second node. -/
def diskNode : Json :=
  .obj [(ascii "node_ip", some (.str (ascii "10.0.0.2"))),
    (ascii "replica_info", some (.arr [some (nbdEntry "/dev/sdb" "disk" "1111")]))]

/-- Its server. -/
def unevenServer : Json :=
  .obj [(ascii "local_ip", some (.str (ascii "10.0.0.2"))),
    (ascii "set_info", some (.arr [some bareNode, some diskNode]))]

/-- json-c on this text. -/
def unevenJson : JsonC where
  tokenerParse := fun text =>
    if text = unevenText then some (.obj [(ascii "replica", some (.arr [some unevenServer]))])
    else none
  toJsonString := fun _ => []
  parseInt64 := fun _ => 0

/-- The document. -/
def unevenDoc : List ReplicaServer :=
  [⟨ascii "10.0.0.2", [⟨ascii "10.0.0.4", []⟩,
    ⟨ascii "10.0.0.2", [⟨ascii "10.0.0.3", ascii "/dev/sdb", ascii "disk", ascii "1111"⟩]⟩]⟩]

theorem unevenDoc_reads : ReadsAs unevenJson (some unevenText) unevenDoc := by
  have hparse : unevenJson.fromFile (some unevenText) =
      some (.obj [(ascii "replica", some (.arr [some unevenServer]))]) := by
    simp only [JsonC.fromFile, unevenJson, Option.bind_some, if_true]
  refine ⟨[some unevenServer], by rw [hparse]; rfl, .cons ⟨by rfl, [some bareNode, some diskNode],
    by rfl, .cons ⟨by rfl, [], by rfl, .nil⟩ (.cons ⟨by rfl,
      [some (nbdEntry "/dev/sdb" "disk" "1111")], by rfl, .cons ⟨?_, ?_, ?_, ?_⟩ .nil⟩ .nil)⟩ .nil⟩
  all_goals decide +kernel

/-- `*info_len` is 1 while the first record has no entry; and an address that no server has gets a
table of the length that the local happened to hold. -/
theorem replica_table_lies :
    (ReadsAs unevenJson (some unevenText) unevenDoc ∧
      (readDMBDReplication unevenJson ⟨0, 0⟩ (some unevenText) (ascii "10.0.0.2")).map
        (fun t => (t.infoLen, t.table.map fun records => records.map (·.info.length))) =
          some (1, some [0, informationSize]) ∧
      ¬ Reports unevenDoc (ascii "10.0.0.2")
        (readDMBDReplication unevenJson ⟨0, 0⟩ (some unevenText) (ascii "10.0.0.2"))) ∧
    ReadsAs nbdJson (some nbdText) nbdDoc ∧
      ¬ Reports nbdDoc (ascii "10.0.0.1")
        (readDMBDReplication nbdJson ⟨3, 0⟩ (some nbdText) (ascii "10.0.0.1")) := by
  have huneven : (readDMBDReplication unevenJson ⟨0, 0⟩ (some unevenText) (ascii "10.0.0.2")).map
      (fun t => (t.infoLen, t.table.map fun records => records.map (·.info.length))) =
        some (1, some [0, informationSize]) := by
    decide +kernel
  have hnone : (readDMBDReplication nbdJson ⟨3, 0⟩ (some nbdText) (ascii "10.0.0.1")).map (·.len) =
      some 3 := by
    decide +kernel
  refine ⟨⟨unevenDoc_reads, huneven, ?_⟩, nbdDoc_reads, ?_⟩
  · rintro ⟨t, ht, hd⟩
    rw [ht] at huneven
    have hone : t.infoLen = 1 := (Prod.mk.inj (Option.some.inj huneven)).1
    have hzero : t.infoLen = 0 := Describes.infoLen hd ⟨ascii "10.0.0.4", []⟩ List.mem_cons_self
    rw [hone] at hzero
    exact absurd hzero (by decide)
  · rintro ⟨t, ht, hd⟩
    rw [ht] at hnone
    have hthree : t.len = 3 := Option.some.inj hnone
    have hzero : t.len = 0 := hd
    rw [hthree] at hzero
    exact absurd hzero (by decide)

end JcmController.Controller
