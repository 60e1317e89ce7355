import Mathlib.Data.List.Infix
import JcmController.Controller.Json
import JcmController.Lib.LastWrite

/-!
# NBD attributes of the replicas (`json_file.c`, `ReadNBDReplication`)

Five loops go over the servers of a document, the replica table, the nodes of a server, the
replicas of a row and the entries of a node; an entry that matches writes the attributes of one
replica.

* `none` is the end of the process, as in `Controller.Json`; here also an index outside the table.
* The addresses of a table are shorter than their fields, so `strcmp` stays inside them.
* `ReplicaServer` and what it holds are the document as a configuration has it, with every string
  there (`ReadsAs`). `attributesOf` is the search the loops stand for.

Results:
* `replicaEntry_effect` to `replicaServer_effect`: what each loop does to the table, from the
  innermost one out.
* `readNBDReplication_spec`: the call gives every replica the attributes of its last match.
* **`nbd_replication_meaning`**: and so by fields, with the rest of the table as it was; a second
  call changes nothing.
-/

namespace JcmController.Controller

open JcmController.Lib JcmController.Lib.LastWrite

/-! ## The table -/

/-- `DMBD_INFORMATION`. -/
structure DmbdInformation where
  ip : Bytes
  dev : Bytes
  nbdExport : Bytes
  nbdPort : Bytes
  ip_length : ip.length = 16
  ip_short : (cstr ip).length < 16

/-- `DMBD_CONFIG_REPLICATION`, with the `replica_info` it points to. -/
@[ext]
structure DmbdConfigReplication where
  ip : Bytes
  replicaInfo : List DmbdInformation
  ip_length : ip.length = 16
  ip_short : (cstr ip).length < 16

/-- `memcpy(nbd_export, nbdExport, 32)` and `memcpy(nbd_port, nbdPort, 16)`. -/
def DmbdInformation.setNbd (info : DmbdInformation) (nbdExport nbdPort : Bytes) :
    DmbdInformation :=
  { info with nbdExport := charField 32 nbdExport, nbdPort := charField 16 nbdPort }

/-- `my_replica[t].replica_info[m]` -/
def infoAt (table : List DmbdConfigReplication) (t m : Nat) : Option DmbdInformation :=
  table[t]?.bind fun row => row.replicaInfo[m]?

/-- A store to the attributes of `my_replica[t].replica_info[m]`. -/
def storeNbd (table : List DmbdConfigReplication) (t m : Nat) (nbdExport nbdPort : Bytes) :
    List DmbdConfigReplication :=
  table.modify t fun row =>
    { row with replicaInfo := row.replicaInfo.modify m (·.setNbd nbdExport nbdPort) }

/-! ## `ReadNBDReplication` -/

/-- The array `json_object_array_length` is asked about. -/
def arrayOf : Option Json → Option (List (Option Json))
  | some (.arr elems) => some elems
  | _ => none

/-- The body of the loop over `j`. -/
def replicaEntry (jc : JsonC) (t m : Nat) (table : List DmbdConfigReplication)
    (attr : Option Json) : Option (List DmbdConfigReplication) := do
  let replicaIp ← jc.getString (objectGetEx attr (ascii "replica_ip"))
  let info ← infoAt table t m
  if replicaIp = cstr info.ip then
    let replicaDev ← jc.getString (objectGetEx attr (ascii "dev_name"))
    -- strstr(replica_dev, "nbd") == NULL
    if ascii "nbd" <:+: replicaDev then return table
    else
      let nbdExport ← jc.getString (objectGetEx attr (ascii "nbd_export"))
      let nbdPort ← jc.getString (objectGetEx attr (ascii "dmbd_nbd_port"))
      return storeNbd table t m nbdExport nbdPort
  else return table

/-- The body of the loop over `m`. -/
def replicaInfo (jc : JsonC) (replica : Option Json) (t : Nat)
    (table : List DmbdConfigReplication) (m : Nat) : Option (List DmbdConfigReplication) := do
  let elems ← arrayOf (objectGetEx replica (ascii "replica_info"))
  elems.foldlM (replicaEntry jc t m) table

/-- The body of the loop over `k`. -/
def replicaNode (jc : JsonC) (replicaInfoLen t : Nat) (table : List DmbdConfigReplication)
    (replica : Option Json) : Option (List DmbdConfigReplication) := do
  let nodeIp ← jc.getString (objectGetEx replica (ascii "node_ip"))
  let row ← table[t]?
  if cstr row.ip = nodeIp then
    (List.range replicaInfoLen).foldlM (replicaInfo jc replica t) table
  else return table

/-- The body of the loop over `t`. -/
def replicaRow (jc : JsonC) (new : Option Json) (replicaInfoLen : Nat)
    (table : List DmbdConfigReplication) (t : Nat) : Option (List DmbdConfigReplication) := do
  let elems ← arrayOf (objectGetEx new (ascii "set_info"))
  elems.foldlM (replicaNode jc replicaInfoLen t) table

/-- The body of the loop over `i`. -/
def replicaServer (jc : JsonC) (myIp : Bytes) (replicaInfoLen replicaLen : Nat)
    (table : List DmbdConfigReplication) (new : Option Json) :
    Option (List DmbdConfigReplication) := do
  let localIp ← jc.getString (objectGetEx new (ascii "local_ip"))
  if localIp ≠ myIp then (List.range replicaLen).foldlM (replicaRow jc new replicaInfoLen) table
  else return table

/-- `ReadNBDReplication` of a file with this contents: what it leaves in `my_replica`. -/
def readNBDReplication (jc : JsonC) (file : Option Bytes) (myIp : Bytes)
    (myReplica : List DmbdConfigReplication) (replicaInfoLen replicaLen : Nat) :
    Option (List DmbdConfigReplication) := do
  let elems ← arrayOf (objectGetEx (jc.fromFile file) (ascii "replica"))
  elems.foldlM (replicaServer jc myIp replicaInfoLen replicaLen) myReplica

/-! ## The document -/

/-- An entry of `replica_info`. -/
structure ReplicaEntry where
  replicaIp : Bytes
  devName : Bytes
  nbdExport : Bytes
  nbdPort : Bytes

/-- An entry of `set_info`. -/
structure ReplicaNode where
  nodeIp : Bytes
  replicaInfo : List ReplicaEntry

/-- An entry of `replica`. -/
structure ReplicaServer where
  localIp : Bytes
  setInfo : List ReplicaNode

/-- The JSON value is this entry. -/
structure EntryReads (jc : JsonC) (attr : Option Json) (e : ReplicaEntry) : Prop where
  replicaIp : jc.getString (objectGetEx attr (ascii "replica_ip")) = some e.replicaIp
  devName : jc.getString (objectGetEx attr (ascii "dev_name")) = some e.devName
  nbdExport : jc.getString (objectGetEx attr (ascii "nbd_export")) = some e.nbdExport
  nbdPort : jc.getString (objectGetEx attr (ascii "dmbd_nbd_port")) = some e.nbdPort

/-- The JSON value is this node. -/
structure NodeReads (jc : JsonC) (replica : Option Json) (n : ReplicaNode) : Prop where
  nodeIp : jc.getString (objectGetEx replica (ascii "node_ip")) = some n.nodeIp
  replicaInfo : ∃ elems, arrayOf (objectGetEx replica (ascii "replica_info")) = some elems ∧
    List.Forall₂ (EntryReads jc) elems n.replicaInfo

/-- The JSON value is this server. -/
structure ServerReads (jc : JsonC) (new : Option Json) (s : ReplicaServer) : Prop where
  localIp : jc.getString (objectGetEx new (ascii "local_ip")) = some s.localIp
  setInfo : ∃ elems, arrayOf (objectGetEx new (ascii "set_info")) = some elems ∧
    List.Forall₂ (NodeReads jc) elems s.setInfo

/-- **The file is this configuration document.** -/
def ReadsAs (jc : JsonC) (file : Option Bytes) (doc : List ReplicaServer) : Prop :=
  ∃ elems, arrayOf (objectGetEx (jc.fromFile file) (ascii "replica")) = some elems ∧
    List.Forall₂ (ServerReads jc) elems doc

/-! ## The search -/

/-- The entry is for this replica, and not on an nbd device. -/
def ReplicaEntry.Matches (e : ReplicaEntry) (replicaIp : Bytes) : Prop :=
  e.replicaIp = replicaIp ∧ ¬ ascii "nbd" <:+: e.devName

instance (e : ReplicaEntry) (replicaIp : Bytes) : Decidable (e.Matches replicaIp) :=
  inferInstanceAs (Decidable (_ ∧ _))

/-- The entries of a node for a replica. -/
def ReplicaNode.matching (n : ReplicaNode) (replicaIp : Bytes) : List ReplicaEntry :=
  n.replicaInfo.filter fun e => e.Matches replicaIp

/-- The nodes of a server with this address. -/
def ReplicaServer.nodes (s : ReplicaServer) (nodeIp : Bytes) : List ReplicaNode :=
  s.setInfo.filter fun n => n.nodeIp = nodeIp

/-- **The search**: in document order, the entries for replica `replicaIp` of node `nodeIp`, in the
servers other than the own one. -/
def attributesOf (doc : List ReplicaServer) (myIp nodeIp replicaIp : Bytes) : List ReplicaEntry :=
  (doc.filter fun s => s.localIp ≠ myIp).flatMap fun s =>
    (s.nodes nodeIp).flatMap fun n => n.matching replicaIp

/-! ## What the loops do to the table -/

/-- A replica of the table, with the strings the loops compare. -/
structure Cell where
  t : Nat
  m : Nat
  nodeIp : Bytes
  replicaIp : Bytes

/-- An entry gives a replica its attributes. -/
def ReplicaEntry.writeTo (e : ReplicaEntry) (info : DmbdInformation) : DmbdInformation :=
  info.setNbd e.nbdExport e.nbdPort

theorem writeTo_absorbs : Absorbs ReplicaEntry.writeTo := fun _ _ _ => rfl

/-- The replicas after the entries `g` has for each of them. -/
def writeRow (g : Cell → List ReplicaEntry) (t : Nat) (row : DmbdConfigReplication) :
    DmbdConfigReplication :=
  { row with
    replicaInfo := row.replicaInfo.mapIdx fun m info =>
      lastWrite ReplicaEntry.writeTo (g ⟨t, m, cstr row.ip, cstr info.ip⟩) info }

/-- The table after the entries `g` has for each replica of it. -/
def writeAll (g : Cell → List ReplicaEntry) (table : List DmbdConfigReplication) :
    List DmbdConfigReplication := table.mapIdx (writeRow g)

theorem lastWrite_same (es : List ReplicaEntry) (info : DmbdInformation) :
    (lastWrite ReplicaEntry.writeTo es info).ip = info.ip ∧
      (lastWrite ReplicaEntry.writeTo es info).dev = info.dev := by
  unfold lastWrite
  cases es.getLast? <;> exact ⟨rfl, rfl⟩

theorem writeAll_getElem? (g : Cell → List ReplicaEntry) (table : List DmbdConfigReplication)
    (t : Nat) : (writeAll g table)[t]? = table[t]?.map (writeRow g t) := List.getElem?_mapIdx

theorem writeRow_getElem? (g : Cell → List ReplicaEntry) (t m : Nat)
    (row : DmbdConfigReplication) :
    (writeRow g t row).replicaInfo[m]? = row.replicaInfo[m]?.map fun info =>
      lastWrite ReplicaEntry.writeTo (g ⟨t, m, cstr row.ip, cstr info.ip⟩) info :=
  List.getElem?_mapIdx

/-- A row after these entries, replica by replica. -/
theorem writeRow_eq {g : Cell → List ReplicaEntry} {t : Nat} {row row' : DmbdConfigReplication}
    (hip : row.ip = row'.ip)
    (h : ∀ m, (row.replicaInfo[m]?.map fun info =>
      lastWrite ReplicaEntry.writeTo (g ⟨t, m, cstr row.ip, cstr info.ip⟩) info) =
        row'.replicaInfo[m]?) : writeRow g t row = row' :=
  DmbdConfigReplication.ext hip
    (List.ext_getElem? fun m => (writeRow_getElem? g t m row).trans (h m))

/-- The table after these entries, row by row. -/
theorem writeAll_eq {g : Cell → List ReplicaEntry} {table table' : List DmbdConfigReplication}
    (h : ∀ t, table[t]?.map (writeRow g t) = table'[t]?) : writeAll g table = table' :=
  List.ext_getElem? fun t => (writeAll_getElem? g table t).trans (h t)

/-- Only the entries for the replicas of the table matter. -/
theorem writeAll_congr {g g' : Cell → List ReplicaEntry} {table : List DmbdConfigReplication}
    (h : ∀ t m row info, table[t]? = some row → row.replicaInfo[m]? = some info →
      g ⟨t, m, cstr row.ip, cstr info.ip⟩ = g' ⟨t, m, cstr row.ip, cstr info.ip⟩) :
    writeAll g table = writeAll g' table := by
  refine writeAll_eq fun t => ?_
  rw [writeAll_getElem?]
  cases hrow : table[t]? with
  | none => rfl
  | some row =>
    refine congrArg some (writeRow_eq rfl fun m => ?_)
    rw [writeRow_getElem?]
    cases hinfo : row.replicaInfo[m]? with
    | none => rfl
    | some info => rw [Option.map_some, Option.map_some, h t m row info hrow hinfo]

/-- No entries leave the table as it is. -/
theorem writeAll_none {g : Cell → List ReplicaEntry} {table : List DmbdConfigReplication}
    (h : ∀ t m row info, table[t]? = some row → row.replicaInfo[m]? = some info →
      g ⟨t, m, cstr row.ip, cstr info.ip⟩ = []) : writeAll g table = table := by
  refine writeAll_eq fun t => ?_
  cases hrow : table[t]? with
  | none => rfl
  | some row =>
    refine congrArg some (writeRow_eq rfl fun m => ?_)
    cases hinfo : row.replicaInfo[m]? with
    | none => rfl
    | some info => rw [Option.map_some, h t m row info hrow hinfo, lastWrite_nil]

theorem writeAll_effect : Effect writeAll where
  nil table := writeAll_none fun _ _ _ _ _ _ => rfl
  append g g' table := by
    refine writeAll_eq fun t => ?_
    rw [writeAll_getElem?, writeAll_getElem?, Option.map_map]
    cases table[t]? with
    | none => rfl
    | some row =>
      refine congrArg some (writeRow_eq rfl fun m => ?_)
      rw [writeRow_getElem?, writeRow_getElem?, Option.map_map]
      cases row.replicaInfo[m]? with
      | none => rfl
      | some info =>
        have hip := (lastWrite_same (g ⟨t, m, cstr row.ip, cstr info.ip⟩) info).1
        simp only [Option.map_some, Function.comp, hip]
        exact congrArg some (lastWrite_append writeTo_absorbs _ _ info)

/-- The table has the rows and replicas the loops go over. -/
def Room (replicaInfoLen replicaLen : Nat) (table : List DmbdConfigReplication) : Prop :=
  replicaLen ≤ table.length ∧ ∀ row ∈ table, replicaInfoLen ≤ row.replicaInfo.length

theorem room_writeAll {replicaInfoLen replicaLen : Nat} (g : Cell → List ReplicaEntry)
    (table : List DmbdConfigReplication) (h : Room replicaInfoLen replicaLen table) :
    Room replicaInfoLen replicaLen (writeAll g table) := by
  refine ⟨by rw [writeAll, List.length_mapIdx]; exact h.1, fun row hrow => ?_⟩
  obtain ⟨t, ht, rfl⟩ := List.mem_mapIdx.mp hrow
  have hlen := h.2 _ (List.getElem_mem ht)
  rw [writeRow, List.length_mapIdx]
  exact hlen

theorem Room.infoAt {replicaInfoLen replicaLen : Nat} {table : List DmbdConfigReplication}
    (h : Room replicaInfoLen replicaLen table) {t m : Nat} (ht : t < replicaLen)
    (hm : m < replicaInfoLen) :
    ∃ row info, table[t]? = some row ∧ row.replicaInfo[m]? = some info := by
  have ht' : t < table.length := Nat.lt_of_lt_of_le ht h.1
  have hm' : m < table[t].replicaInfo.length :=
    Nat.lt_of_lt_of_le hm (h.2 _ (List.getElem_mem ht'))
  exact ⟨_, _, List.getElem?_eq_getElem ht', List.getElem?_eq_getElem hm'⟩

/-- A store to the attributes of one replica. -/
theorem writeAll_one (table : List DmbdConfigReplication) (t m : Nat) (e : ReplicaEntry) :
    writeAll (fun k => if k.t = t ∧ k.m = m then [e] else []) table =
      storeNbd table t m e.nbdExport e.nbdPort := by
  refine writeAll_eq fun t' => ?_
  rw [storeNbd, List.getElem?_modify]
  cases table[t']? with
  | none => rfl
  | some row =>
    refine congrArg some ?_
    show writeRow _ t' row = if t = t' then { row with replicaInfo := _ } else row
    by_cases ht : t = t'
    · subst ht
      rw [if_pos rfl]
      refine writeRow_eq rfl fun m' => ?_
      rw [List.getElem?_modify]
      cases row.replicaInfo[m']? with
      | none => rfl
      | some info =>
        by_cases hm : m = m'
        · subst hm
          simp only [Option.map_some, and_self, if_true]
          rfl
        · have hm' : ¬ m' = m := fun h => hm h.symm
          simp only [Option.map_some, hm, hm', and_false, if_false, lastWrite_nil]
          rfl
    · have ht' : ¬ t' = t := fun h => ht h.symm
      rw [if_neg ht]
      refine writeRow_eq rfl fun m' => ?_
      simp only [ht', false_and, if_false, lastWrite_nil]
      cases row.replicaInfo[m']? <;> rfl

/-! ## The loops -/

section Loops

variable {jc : JsonC} {replicaInfoLen replicaLen : Nat}

/-- A loop that takes what it finds at one place. -/
theorem flatMap_if {β γ : Type} (l : List β) (p : β → Prop) [DecidablePred p] (f : β → List γ) :
    (l.flatMap fun x => if p x then f x else []) = (l.filter p).flatMap f := by
  induction l with
  | nil => rfl
  | cons x l ih =>
    rw [List.flatMap_cons, ih, List.filter_cons]
    by_cases hx : p x
    · rw [if_pos hx, if_pos (decide_eq_true hx), List.flatMap_cons]
    · rw [if_neg hx, if_neg (by rwa [decide_eq_true_iff]), List.nil_append]

/-- A loop over the numbers below `n` that does `L` at `k`. -/
theorem flatMap_range {γ : Type} (n k : Nat) (L : List γ) :
    ((List.range n).flatMap fun m => if k = m then L else []) = if k < n then L else [] := by
  induction n with
  | zero => rfl
  | succ n ih =>
    rw [List.range_succ, List.flatMap_append, ih, List.flatMap_singleton]
    by_cases hk : k < n
    · rw [if_pos hk, if_neg (Nat.ne_of_lt hk), if_pos (Nat.lt_succ_of_lt hk), List.append_nil]
    · rw [if_neg hk, List.nil_append]
      by_cases hn : k = n
      · rw [if_pos hn, if_pos (by omega)]
      · rw [if_neg hn, if_neg (by omega)]

/-- The loop over `j`: an entry gives its attributes to the replica it matches. -/
theorem replicaEntry_effect {attr : Option Json} {e : ReplicaEntry} (he : EntryReads jc attr e)
    {t m : Nat} {table : List DmbdConfigReplication}
    (hroom : Room replicaInfoLen replicaLen table) (ht : t < replicaLen) (hm : m < replicaInfoLen) :
    replicaEntry jc t m table attr = some (writeAll (fun k =>
      if k.t = t ∧ k.m = m then if e.Matches k.replicaIp then [e] else [] else []) table) := by
  obtain ⟨row, info, hrow, hinfo⟩ := hroom.infoAt ht hm
  have hat : infoAt table t m = some info := by rw [infoAt, hrow]; exact hinfo
  have hcell : ∀ t' m' row' info', table[t']? = some row' → row'.replicaInfo[m']? = some info' →
      t' = t → m' = m → info' = info := by
    rintro t' m' row' info' hrow' hinfo' rfl rfl
    obtain rfl : row = row' := Option.some.inj (hrow.symm.trans hrow')
    exact Option.some.inj (hinfo'.symm.trans hinfo)
  have hnone : ¬ e.Matches (cstr info.ip) → writeAll (fun k =>
      if k.t = t ∧ k.m = m then if e.Matches k.replicaIp then [e] else [] else []) table =
        table := by
    refine fun hno => writeAll_none fun t' m' row' info' hrow' hinfo' => ?_
    by_cases htm : t' = t ∧ m' = m
    · rw [if_pos htm, hcell t' m' row' info' hrow' hinfo' htm.1 htm.2, if_neg hno]
    · rw [if_neg htm]
  simp only [replicaEntry, he.replicaIp, hat, he.devName, he.nbdExport, he.nbdPort,
    Option.bind_eq_bind, Option.bind_some, Option.pure_def]
  by_cases hip : e.replicaIp = cstr info.ip
  · rw [if_pos hip]
    by_cases hdev : ascii "nbd" <:+: e.devName
    · rw [if_pos hdev, hnone fun h => h.2 hdev]
    · rw [if_neg hdev, ← writeAll_one]
      refine congrArg some (writeAll_congr fun t' m' row' info' hrow' hinfo' => ?_)
      by_cases htm : t' = t ∧ m' = m
      · have hmatch : e.Matches (cstr info'.ip) := by
          rw [hcell t' m' row' info' hrow' hinfo' htm.1 htm.2]
          exact ⟨hip, hdev⟩
        rw [if_pos htm, if_pos htm, if_pos hmatch]
      · rw [if_neg htm, if_neg htm]
  · rw [if_neg hip, hnone fun h => hip h.1]

/-- The loop over `m`: the entries of a node for one replica. -/
theorem replicaInfo_effect {replica : Option Json} {n : ReplicaNode}
    (hn : NodeReads jc replica n) {t m : Nat} {table : List DmbdConfigReplication}
    (hroom : Room replicaInfoLen replicaLen table) (ht : t < replicaLen) (hm : m < replicaInfoLen) :
    replicaInfo jc replica t table m = some (writeAll (fun k =>
      if k.t = t ∧ k.m = m then n.matching k.replicaIp else []) table) := by
  obtain ⟨elems, helems, hentries⟩ := hn.replicaInfo
  have hstep : ∀ attr e, EntryReads jc attr e → ∀ table, Room replicaInfoLen replicaLen table →
      replicaEntry jc t m table attr = some (writeAll (fun k =>
        if k.t = t ∧ k.m = m then if e.Matches k.replicaIp then [e] else [] else []) table) :=
    fun attr e he table hroom => replicaEntry_effect he hroom ht hm
  simp only [replicaInfo, helems, Option.bind_eq_bind, Option.bind_some,
    foldlM_effect writeAll_effect room_writeAll hstep hentries table hroom]
  refine congrArg some (congrArg (writeAll · table) (funext fun k => ?_))
  by_cases htm : k.t = t ∧ k.m = m
  · simp only [htm, and_self, if_true, flatMap_if, List.flatMap_singleton', ReplicaNode.matching]
  · simp only [htm, if_false, List.flatMap_eq_nil_iff, implies_true]

/-- The loop over `k`: the entries of a node for the replicas of one row. -/
theorem replicaNode_effect {replica : Option Json} {n : ReplicaNode}
    (hn : NodeReads jc replica n) {t : Nat} {table : List DmbdConfigReplication}
    (hroom : Room replicaInfoLen replicaLen table) (ht : t < replicaLen) :
    replicaNode jc replicaInfoLen t table replica = some (writeAll (fun k =>
      if k.t = t ∧ k.m < replicaInfoLen then
        if n.nodeIp = k.nodeIp then n.matching k.replicaIp else [] else []) table) := by
  have ht' : t < table.length := Nat.lt_of_lt_of_le ht hroom.1
  have hstep : ∀ m m', m = m' ∧ m < replicaInfoLen → ∀ table, Room replicaInfoLen replicaLen table →
      replicaInfo jc replica t table m = some (writeAll (fun k =>
        if k.t = t ∧ k.m = m' then n.matching k.replicaIp else []) table) := by
    rintro m _ ⟨rfl, hm⟩ table hroom
    exact replicaInfo_effect hn hroom ht hm
  have hrange : List.Forall₂ (fun m m' => m = m' ∧ m < replicaInfoLen) (List.range replicaInfoLen)
      (List.range replicaInfoLen) :=
    List.forall₂_same.mpr fun m hm => ⟨rfl, List.mem_range.mp hm⟩
  simp only [replicaNode, hn.nodeIp, List.getElem?_eq_getElem ht', Option.bind_eq_bind,
    Option.bind_some, foldlM_effect writeAll_effect room_writeAll hstep hrange table hroom,
    Option.pure_def]
  have hrow : ∀ t' row, table[t']? = some row → t' = t → row.ip = table[t].ip := by
    rintro t' row hrow rfl
    obtain rfl := Option.some.inj ((List.getElem?_eq_getElem ht').symm.trans hrow)
    rfl
  by_cases hip : cstr table[t].ip = n.nodeIp
  · rw [if_pos hip]
    refine congrArg some (writeAll_congr fun t' m' row info hrow' _ => ?_)
    by_cases htt : t' = t
    · have hrange' := flatMap_range replicaInfoLen m' (n.matching (cstr info.ip))
      simp only [htt, true_and, hrange', hrow t' row hrow' htt, hip, if_true]
    · simp only [htt, false_and, if_false, List.flatMap_eq_nil_iff, implies_true]
  · rw [if_neg hip, writeAll_none]
    intro t' m' row info hrow' _
    by_cases htt : t' = t
    · have hne : ¬ n.nodeIp = cstr row.ip := by
        rw [hrow t' row hrow' htt]
        exact fun h => hip h.symm
      simp only [hne, if_false, ite_self]
    · simp only [htt, false_and, if_false]

/-- The loop over `t`: the entries of a server for one row. -/
theorem replicaRow_effect {new : Option Json} {s : ReplicaServer} (hs : ServerReads jc new s)
    {t : Nat} {table : List DmbdConfigReplication} (hroom : Room replicaInfoLen replicaLen table)
    (ht : t < replicaLen) :
    replicaRow jc new replicaInfoLen table t = some (writeAll (fun k =>
      if k.t = t ∧ k.m < replicaInfoLen then
        (s.nodes k.nodeIp).flatMap fun n => n.matching k.replicaIp else []) table) := by
  obtain ⟨elems, helems, hnodes⟩ := hs.setInfo
  have hstep : ∀ replica n, NodeReads jc replica n → ∀ table, Room replicaInfoLen replicaLen table →
      replicaNode jc replicaInfoLen t table replica = some (writeAll (fun k =>
        if k.t = t ∧ k.m < replicaInfoLen then
          if n.nodeIp = k.nodeIp then n.matching k.replicaIp else [] else []) table) :=
    fun replica n hn table hroom => replicaNode_effect hn hroom ht
  simp only [replicaRow, helems, Option.bind_eq_bind, Option.bind_some,
    foldlM_effect writeAll_effect room_writeAll hstep hnodes table hroom]
  refine congrArg some (congrArg (writeAll · table) (funext fun k => ?_))
  by_cases htm : k.t = t ∧ k.m < replicaInfoLen
  · simp only [htm, and_self, if_true, flatMap_if, ReplicaServer.nodes]
  · simp only [htm, if_false, List.flatMap_eq_nil_iff, implies_true]

/-- The loop over `i`: the entries of a server for the whole table. -/
theorem replicaServer_effect {new : Option Json} {s : ReplicaServer} (hs : ServerReads jc new s)
    (myIp : Bytes) {table : List DmbdConfigReplication}
    (hroom : Room replicaInfoLen replicaLen table) :
    replicaServer jc myIp replicaInfoLen replicaLen table new = some (writeAll (fun k =>
      if k.t < replicaLen ∧ k.m < replicaInfoLen then
        if s.localIp ≠ myIp then (s.nodes k.nodeIp).flatMap fun n => n.matching k.replicaIp else []
      else []) table) := by
  have hstep : ∀ t t', t = t' ∧ t < replicaLen → ∀ table, Room replicaInfoLen replicaLen table →
      replicaRow jc new replicaInfoLen table t = some (writeAll (fun k =>
        if k.t = t' ∧ k.m < replicaInfoLen then
          (s.nodes k.nodeIp).flatMap fun n => n.matching k.replicaIp else []) table) := by
    rintro t _ ⟨rfl, ht⟩ table hroom
    exact replicaRow_effect hs hroom ht
  have hrange : List.Forall₂ (fun t t' => t = t' ∧ t < replicaLen) (List.range replicaLen)
      (List.range replicaLen) :=
    List.forall₂_same.mpr fun t ht => ⟨rfl, List.mem_range.mp ht⟩
  simp only [replicaServer, hs.localIp, Option.bind_eq_bind, Option.bind_some,
    foldlM_effect writeAll_effect room_writeAll hstep hrange table hroom, Option.pure_def]
  by_cases hip : s.localIp ≠ myIp
  · rw [if_pos hip]
    refine congrArg some (congrArg (writeAll · table) (funext fun k => ?_))
    by_cases hm : k.m < replicaInfoLen
    · simp only [hm, and_true, flatMap_range]
      rw [if_pos hip]
    · simp only [hm, and_false, if_false, List.flatMap_eq_nil_iff, implies_true]
  · rw [if_neg hip, writeAll_none]
    intro t' m' row info _ _
    simp only [hip, if_false, ite_self]

/-- The entries for the replicas of the table: what the search finds for those the loops go
over. -/
def entriesFor (doc : List ReplicaServer) (myIp : Bytes) (replicaInfoLen replicaLen : Nat)
    (k : Cell) : List ReplicaEntry :=
  if k.t < replicaLen ∧ k.m < replicaInfoLen then attributesOf doc myIp k.nodeIp k.replicaIp else []

/-- **The loops are the search**: the call gives every replica the attributes of its last match. -/
theorem readNBDReplication_spec {file : Option Bytes} {doc : List ReplicaServer}
    (hdoc : ReadsAs jc file doc) (myIp : Bytes) {table : List DmbdConfigReplication}
    (hroom : Room replicaInfoLen replicaLen table) :
    readNBDReplication jc file myIp table replicaInfoLen replicaLen =
      some (writeAll (entriesFor doc myIp replicaInfoLen replicaLen) table) := by
  obtain ⟨elems, helems, hservers⟩ := hdoc
  have hstep : ∀ new s, ServerReads jc new s → ∀ table, Room replicaInfoLen replicaLen table →
      replicaServer jc myIp replicaInfoLen replicaLen table new = some (writeAll (fun k =>
        if k.t < replicaLen ∧ k.m < replicaInfoLen then
          if s.localIp ≠ myIp then (s.nodes k.nodeIp).flatMap fun n => n.matching k.replicaIp
          else [] else []) table) :=
    fun new s hs table hroom => replicaServer_effect hs myIp hroom
  simp only [readNBDReplication, helems, Option.bind_eq_bind, Option.bind_some,
    foldlM_effect writeAll_effect room_writeAll hstep hservers table hroom]
  refine congrArg some (congrArg (writeAll · table) (funext fun k => ?_))
  unfold entriesFor attributesOf
  by_cases htm : k.t < replicaLen ∧ k.m < replicaInfoLen
  · simp only [htm, and_self, if_true, flatMap_if]
  · simp only [htm, if_false, List.flatMap_eq_nil_iff, implies_true]

end Loops

/-! ## What the call means -/

/-- The attributes of the document are shorter than their fields. -/
def ShortAttributes (doc : List ReplicaServer) : Prop :=
  ∀ s ∈ doc, ∀ n ∈ s.setInfo, ∀ e ∈ n.replicaInfo, e.nbdExport.length < 32 ∧ e.nbdPort.length < 16

/-- **The attributes are those of the last match**, for the replicas the loops go over, and the rest
of the table is as it was. -/
structure Resolves (doc : List ReplicaServer) (myIp : Bytes) (replicaInfoLen replicaLen : Nat)
    (table table' : List DmbdConfigReplication) : Prop where
  /-- The rows are there with their addresses and replicas. -/
  rows : table'.map (fun row => (row.ip, row.replicaInfo.length)) =
    table.map fun row => (row.ip, row.replicaInfo.length)
  /-- The other fields of a replica stay. -/
  fields : ∀ t m info info', infoAt table t m = some info → infoAt table' t m = some info' →
    info'.ip = info.ip ∧ info'.dev = info.dev
  /-- A replica with a match reads as the last one. -/
  found : ∀ t m row info info' e, table[t]? = some row → row.replicaInfo[m]? = some info →
    infoAt table' t m = some info' → t < replicaLen → m < replicaInfoLen →
    (attributesOf doc myIp (cstr row.ip) (cstr info.ip)).getLast? = some e →
    cstr info'.nbdExport = e.nbdExport ∧ cstr info'.nbdPort = e.nbdPort
  /-- Every other replica stays. -/
  frame : ∀ t m row info, table[t]? = some row → row.replicaInfo[m]? = some info →
    (t < replicaLen → m < replicaInfoLen →
      attributesOf doc myIp (cstr row.ip) (cstr info.ip) = []) →
    infoAt table' t m = some info

theorem infoAt_writeAll (g : Cell → List ReplicaEntry) {table : List DmbdConfigReplication}
    {t m : Nat} {row : DmbdConfigReplication} {info : DmbdInformation} (hrow : table[t]? = some row)
    (hinfo : row.replicaInfo[m]? = some info) :
    infoAt (writeAll g table) t m =
      some (lastWrite ReplicaEntry.writeTo (g ⟨t, m, cstr row.ip, cstr info.ip⟩) info) := by
  rw [infoAt, writeAll_getElem?, hrow, Option.map_some, Option.bind_some, writeRow_getElem?, hinfo,
    Option.map_some]

theorem infoAt_eq_some {table : List DmbdConfigReplication} {t m : Nat} {info : DmbdInformation} :
    infoAt table t m = some info ↔
      ∃ row, table[t]? = some row ∧ row.replicaInfo[m]? = some info := by
  rw [infoAt, Option.bind_eq_some_iff]

/-- A string in a longer field reads as it is. -/
theorem cstr_charField {n : Nat} {s : Bytes} (hs : NulFree s) (hlen : s.length < n) :
    cstr (charField n s) = s := by
  obtain ⟨k, rfl⟩ : ∃ k, n = s.length + (k + 1) := ⟨n - s.length - 1, by omega⟩
  have hfield : charField (s.length + (k + 1)) s = s ++ 0 :: List.replicate k 0 := by
    rw [charField, List.take_length_add_append, List.take_replicate,
      Nat.min_eq_left (Nat.le_add_left _ _), List.replicate_succ]
  rw [hfield]
  exact cstr_append_zero_cons hs _

theorem getString_nulFree {jc : JsonC} {v : Option Json} {s : Bytes}
    (h : jc.getString v = some s) : NulFree s := by
  unfold JsonC.getString at h
  split at h
  · cases h
  · obtain rfl := Option.some.inj h
    exact nulFree_cstr _
  · obtain rfl := Option.some.inj h
    exact nulFree_cstr _

theorem exists_of_forall₂ {α β : Type} {R : α → β → Prop} {xs : List α} {ys : List β}
    (h : List.Forall₂ R xs ys) {y : β} (hy : y ∈ ys) : ∃ x, R x y := by
  induction h with
  | nil => cases hy
  | cons hxy _ ih =>
    rcases List.mem_cons.mp hy with rfl | hy
    · exact ⟨_, hxy⟩
    · exact ih hy

/-- The attributes the search finds are strings of the document. -/
theorem attributesOf_strings {jc : JsonC} {file : Option Bytes} {doc : List ReplicaServer}
    (hdoc : ReadsAs jc file doc) (hshort : ShortAttributes doc) {myIp nodeIp replicaIp : Bytes}
    {e : ReplicaEntry} (he : e ∈ attributesOf doc myIp nodeIp replicaIp) :
    cstr (charField 32 e.nbdExport) = e.nbdExport ∧ cstr (charField 16 e.nbdPort) = e.nbdPort := by
  obtain ⟨s, hs, he⟩ := List.mem_flatMap.mp he
  obtain ⟨n, hn, he⟩ := List.mem_flatMap.mp he
  replace hs := (List.mem_filter.mp hs).1
  replace hn := (List.mem_filter.mp hn).1
  replace he := (List.mem_filter.mp he).1
  obtain ⟨_, _, hservers⟩ := hdoc
  obtain ⟨new, hnew⟩ := exists_of_forall₂ hservers hs
  obtain ⟨_, _, hnodes⟩ := hnew.setInfo
  obtain ⟨replica, hreplica⟩ := exists_of_forall₂ hnodes hn
  obtain ⟨_, _, hentries⟩ := hreplica.replicaInfo
  obtain ⟨attr, hattr⟩ := exists_of_forall₂ hentries he
  obtain ⟨hexport, hport⟩ := hshort s hs n hn e he
  exact ⟨cstr_charField (getString_nulFree hattr.nbdExport) hexport,
    cstr_charField (getString_nulFree hattr.nbdPort) hport⟩

theorem writeAll_resolves {jc : JsonC} {file : Option Bytes} {doc : List ReplicaServer}
    (hdoc : ReadsAs jc file doc) (hshort : ShortAttributes doc) (myIp : Bytes)
    (replicaInfoLen replicaLen : Nat) (table : List DmbdConfigReplication) :
    Resolves doc myIp replicaInfoLen replicaLen table
      (writeAll (entriesFor doc myIp replicaInfoLen replicaLen) table) where
  rows := by
    refine List.ext_getElem? fun t => ?_
    rw [List.getElem?_map, List.getElem?_map, writeAll_getElem?]
    cases table[t]? with
    | none => rfl
    | some row => simp only [Option.map_some, writeRow, List.length_mapIdx]
  fields t m info info' hinfo hinfo' := by
    obtain ⟨row, hrow, hm⟩ := infoAt_eq_some.mp hinfo
    rw [infoAt_writeAll _ hrow hm] at hinfo'
    obtain rfl := Option.some.inj hinfo'
    exact lastWrite_same _ info
  found t m row info info' e hrow hm hinfo' htlt hmlt he := by
    rw [infoAt_writeAll _ hrow hm, entriesFor, if_pos ⟨htlt, hmlt⟩, lastWrite, he] at hinfo'
    obtain rfl := Option.some.inj hinfo'
    exact attributesOf_strings hdoc hshort (List.mem_of_getLast? he)
  frame t m row info hrow hm hnone := by
    rw [infoAt_writeAll _ hrow hm, entriesFor]
    by_cases htm : t < replicaLen ∧ m < replicaInfoLen
    · rw [if_pos htm, hnone htm.1 htm.2, lastWrite_nil]
    · rw [if_neg htm, lastWrite_nil]

/-- **`ReadNBDReplication` meets its declarative meaning.** For every configuration document, own
address and table with the rows and replicas the lengths promise: the call returns, every replica
has the attributes of the last entry the search finds for it, nothing else changes, and a second
call changes nothing. -/
theorem nbd_replication_meaning (jc : JsonC) (file : Option Bytes) (doc : List ReplicaServer)
    (hdoc : ReadsAs jc file doc) (hshort : ShortAttributes doc) (myIp : Bytes)
    (table : List DmbdConfigReplication) (replicaInfoLen replicaLen : Nat)
    (hroom : Room replicaInfoLen replicaLen table) :
    ∃ table', readNBDReplication jc file myIp table replicaInfoLen replicaLen = some table' ∧
      Resolves doc myIp replicaInfoLen replicaLen table table' ∧
      readNBDReplication jc file myIp table' replicaInfoLen replicaLen = some table' := by
  refine ⟨_, readNBDReplication_spec hdoc myIp hroom,
    writeAll_resolves hdoc hshort myIp replicaInfoLen replicaLen table, ?_⟩
  rw [readNBDReplication_spec hdoc myIp (room_writeAll _ _ hroom)]
  -- the addresses the search compares are those of before
  refine congrArg some (writeAll_eq fun t => ?_)
  rw [writeAll_getElem?]
  cases table[t]? with
  | none => rfl
  | some row =>
    refine congrArg some (writeRow_eq rfl fun m => ?_)
    rw [writeRow_getElem?]
    cases row.replicaInfo[m]? with
    | none => rfl
    | some info =>
      have hip := (lastWrite_same (entriesFor doc myIp replicaInfoLen replicaLen
        ⟨t, m, cstr row.ip, cstr info.ip⟩) info).1
      simp only [Option.map_some, hip]
      exact congrArg some (lastWrite_idem writeTo_absorbs _ info)

/-- A document of one server, "10.0.0.2", that has the replica "10.0.0.3" on a disk and then on an
nbd device. -/
def nbdText : Bytes := ascii ("\x7b\"replica\":[\x7b\"local_ip\":\"10.0.0.2\",\"set_info\":[" ++
  "\x7b\"node_ip\":\"10.0.0.2\",\"replica_info\":[\x7b\"replica_ip\":\"10.0.0.3\"," ++
  "\"dev_name\":\"/dev/sdb\",\"nbd_export\":\"disk\",\"dmbd_nbd_port\":\"1111\"\x7d," ++
  "\x7b\"replica_ip\":\"10.0.0.3\",\"dev_name\":\"/dev/nbd0\",\"nbd_export\":\"back\"," ++
  "\"dmbd_nbd_port\":\"2222\"\x7d]\x7d]\x7d]\x7d")

/-- One of its entries. -/
def nbdEntry (dev nbdExport port : String) : Json :=
  .obj [(ascii "replica_ip", some (.str (ascii "10.0.0.3"))),
    (ascii "dev_name", some (.str (ascii dev))),
    (ascii "nbd_export", some (.str (ascii nbdExport))),
    (ascii "dmbd_nbd_port", some (.str (ascii port)))]

/-- Its node. -/
def nbdNode : Json :=
  .obj [(ascii "node_ip", some (.str (ascii "10.0.0.2"))),
    (ascii "replica_info", some (.arr [some (nbdEntry "/dev/sdb" "disk" "1111"),
      some (nbdEntry "/dev/nbd0" "back" "2222")]))]

/-- Its server. -/
def nbdServer : Json :=
  .obj [(ascii "local_ip", some (.str (ascii "10.0.0.2"))),
    (ascii "set_info", some (.arr [some nbdNode]))]

/-- json-c on this text. -/
def nbdJson : JsonC where
  tokenerParse := fun text =>
    if text = nbdText then some (.obj [(ascii "replica", some (.arr [some nbdServer]))]) else none
  toJsonString := fun _ => []
  parseInt64 := fun _ => 0

/-- The document. -/
def nbdDoc : List ReplicaServer :=
  [⟨ascii "10.0.0.2", [⟨ascii "10.0.0.2",
    [⟨ascii "10.0.0.3", ascii "/dev/sdb", ascii "disk", ascii "1111"⟩,
      ⟨ascii "10.0.0.3", ascii "/dev/nbd0", ascii "back", ascii "2222"⟩]⟩]⟩]

theorem nbdDoc_reads : ReadsAs nbdJson (some nbdText) nbdDoc := by
  have hparse : nbdJson.fromFile (some nbdText) =
      some (.obj [(ascii "replica", some (.arr [some nbdServer]))]) := by
    simp only [JsonC.fromFile, nbdJson, Option.bind_some, if_true]
  refine ⟨[some nbdServer], by rw [hparse]; rfl, .cons ⟨by rfl, [some nbdNode], by rfl,
    .cons ⟨by rfl,
      [some (nbdEntry "/dev/sdb" "disk" "1111"), some (nbdEntry "/dev/nbd0" "back" "2222")],
      by rfl, .cons ⟨?_, ?_, ?_, ?_⟩ (.cons ⟨?_, ?_, ?_, ?_⟩ .nil)⟩ .nil⟩ .nil⟩
  all_goals decide +kernel

/-- A table with that replica. -/
def nbdTable : List DmbdConfigReplication :=
  [⟨charField 16 (ascii "10.0.0.2"),
    [⟨charField 16 (ascii "10.0.0.3"), charField 32 [], charField 32 [], charField 16 [],
      by decide +kernel, by decide +kernel⟩], by decide +kernel, by decide +kernel⟩]

/-- The replica gets the attributes of the disk. -/
theorem nbd_replication_meaning_one :
    (attributesOf nbdDoc (ascii "10.0.0.1") (ascii "10.0.0.2") (ascii "10.0.0.3")).map
        ReplicaEntry.nbdPort = [ascii "1111"] ∧
      ∃ table', readNBDReplication nbdJson (some nbdText) (ascii "10.0.0.1") nbdTable 1 1 =
          some table' ∧
        Resolves nbdDoc (ascii "10.0.0.1") 1 1 nbdTable table' ∧
        readNBDReplication nbdJson (some nbdText) (ascii "10.0.0.1") table' 1 1 = some table' :=
  ⟨by decide +kernel, nbd_replication_meaning nbdJson (some nbdText) nbdDoc nbdDoc_reads
    (by unfold ShortAttributes; decide +kernel) (ascii "10.0.0.1") nbdTable 1 1
    ⟨by decide +kernel, by decide +kernel⟩⟩

end JcmController.Controller
