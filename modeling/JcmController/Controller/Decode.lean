import JcmController.Controller.Rounds

/-!
# What the records of a configuration read as

`ReadDMBDRemote` copies the strings of a document into fields of fixed width, one behind the other.
A string that leaves no room for its NUL runs on into the next field, the next record, and what
stands behind the array.

* `RemoteDoc` is an entry of a document, with any strings; `RemoteDoc.bytes` is its record.
* `shown_iff`: when a string is read back from its field and what follows.
* **`remote_decoded_iff`**: the records read as the document exactly when each of its strings fits,
  or goes on as the fields behind it do.
* `long_address`: an address of 16 bytes reads as the address and the device.
-/

namespace JcmController.Controller

open JcmController.Lib

/-! ## Documents -/

/-- An entry of the array "remote". -/
structure RemoteDoc where
  ip : Bytes
  devName : Bytes
  devSize : UInt64
  nbdExport : Bytes
  nbdPort : Bytes

/-- The value is the entry: its keys are there, with these strings. -/
structure IsEntry (jc : JsonC) (new : Option Json) (d : RemoteDoc) : Prop where
  ip : objectGetEx new (ascii "ip") = some (.str d.ip)
  devName : objectGetEx new (ascii "remote_dev") = some (.str d.devName)
  devSize : jc.getInt64 (objectGetEx new (ascii "dev_size")) = d.devSize
  nbdExport : objectGetEx new (ascii "nbd_export") = some (.str d.nbdExport)
  nbdPort : objectGetEx new (ascii "dmbd_nbd_port") = some (.str d.nbdPort)

/-- A field of the record: where it starts, its width, and the string of the document. -/
structure Field where
  offset : Nat
  width : Nat
  string : Bytes

namespace RemoteDoc

def fields (d : RemoteDoc) : List Field :=
  [⟨0, 16, d.ip⟩, ⟨16, 32, d.devName⟩, ⟨56, 32, d.nbdExport⟩, ⟨88, 16, d.nbdPort⟩]

/-- The record of the entry. -/
def record (d : RemoteDoc) : DmbdConfigRemote :=
  ⟨charField 16 (cstr d.ip), charField 32 (cstr d.devName), d.devSize,
    charField 32 (cstr d.nbdExport), charField 16 (cstr d.nbdPort), charField_length _ _,
    charField_length _ _, charField_length _ _, charField_length _ _⟩

/-- Its bytes. -/
def bytes (d : RemoteDoc) : Bytes := d.record.image

end RemoteDoc

/-! ## One field -/

theorem ulongBytes_length (n : UInt64) : (ulongBytes n).length = 8 := rfl

/-- The bytes from a field on: the field, and what follows it. -/
theorem field_at (d : RemoteDoc) (rest : Bytes) : ∀ f ∈ d.fields,
    (d.bytes ++ rest).drop f.offset =
      charField f.width (cstr f.string) ++ (d.bytes ++ rest).drop (f.offset + f.width) := by
  have hbytes : d.bytes ++ rest = charField 16 (cstr d.ip) ++ (charField 32 (cstr d.devName) ++
      (ulongBytes d.devSize ++ (charField 32 (cstr d.nbdExport) ++
        (charField 16 (cstr d.nbdPort) ++ rest)))) := by
    simp only [RemoteDoc.bytes, DmbdConfigRemote.image, RemoteDoc.record, List.append_assoc]
  have hdev : (d.bytes ++ rest).drop 16 = charField 32 (cstr d.devName) ++
      (ulongBytes d.devSize ++ (charField 32 (cstr d.nbdExport) ++
        (charField 16 (cstr d.nbdPort) ++ rest))) := by
    rw [hbytes, List.drop_left' (charField_length 16 _)]
  have hsize : (d.bytes ++ rest).drop 48 = ulongBytes d.devSize ++
      (charField 32 (cstr d.nbdExport) ++ (charField 16 (cstr d.nbdPort) ++ rest)) := by
    rw [← List.drop_drop (i := 32) (j := 16), hdev, List.drop_left' (charField_length 32 _)]
  have hexport : (d.bytes ++ rest).drop 56 =
      charField 32 (cstr d.nbdExport) ++ (charField 16 (cstr d.nbdPort) ++ rest) := by
    rw [← List.drop_drop (i := 8) (j := 48), hsize, List.drop_left' (ulongBytes_length _)]
  have hport : (d.bytes ++ rest).drop 88 = charField 16 (cstr d.nbdPort) ++ rest := by
    rw [← List.drop_drop (i := 32) (j := 56), hexport, List.drop_left' (charField_length 32 _)]
  have hrest : (d.bytes ++ rest).drop 104 = rest := by
    rw [← List.drop_drop (i := 16) (j := 88), hport, List.drop_left' (charField_length 16 _)]
  simp only [RemoteDoc.fields, List.forall_mem_cons, List.drop_zero]
  refine ⟨?_, ?_, ?_, ?_, fun _ h => absurd h List.not_mem_nil⟩
  · rw [hdev, ← hbytes]
  · rw [hdev, hsize]
  · rw [hexport, hport]
  · rw [hport, hrest]

/-- A string of the document shows: it is NUL-free, and shorter than its field or going on as the
bytes behind it do. -/
def Field.Shown (f : Field) (behind : Bytes) : Prop :=
  NulFree f.string ∧
    (f.string.length < f.width ∨ stringIn behind = some (f.string.drop f.width))

instance (f : Field) (behind : Bytes) : Decidable (f.Shown behind) :=
  inferInstanceAs (Decidable (_ ∧ _))

theorem charField_short {n : Nat} {s : Bytes} (h : s.length < n) :
    charField n s = s ++ 0 :: List.replicate (n - s.length - 1) 0 := by
  obtain ⟨m, hm⟩ : ∃ m, n = s.length + (m + 1) := ⟨n - s.length - 1, by omega⟩
  unfold charField
  rw [hm, List.take_length_add_append, List.take_replicate, ← List.replicate_succ]
  congr 2
  omega

theorem charField_long {n : Nat} {s : Bytes} (h : n ≤ s.length) : charField n s = s.take n := by
  unfold charField
  rw [List.take_append_of_le_length h]

/-- **A string is read back** from its field and what follows it if it shows. -/
theorem shown_iff (f : Field) (behind : Bytes) :
    stringIn (charField f.width (cstr f.string) ++ behind) = some f.string ↔ f.Shown behind := by
  unfold Field.Shown
  by_cases hfree : NulFree f.string
  · rw [and_iff_right hfree, cstr_eq_self hfree]
    by_cases hlt : f.string.length < f.width
    · rw [charField_short hlt, List.append_assoc, stringIn_append hfree, List.cons_append]
      refine iff_of_true ?_ (Or.inl hlt)
      simp [stringIn, cstr]
    · have hpre : NulFree (f.string.take f.width) := fun b hb => hfree b (List.mem_of_mem_take hb)
      rw [or_iff_right hlt, charField_long (Nat.le_of_not_lt hlt), stringIn_append hpre,
        Option.map_eq_some_iff]
      constructor
      · rintro ⟨s, hs, heq⟩
        rw [hs]
        have := heq.trans (List.take_append_drop f.width f.string).symm
        exact congrArg some (List.append_cancel_left this)
      · exact fun hs => ⟨_, hs, List.take_append_drop f.width f.string⟩
  · exact iff_of_false (fun h => hfree (nulFree_of_stringIn h)) fun h => hfree h.1

/-! ## Records -/

/-- Every string of the entry is shorter than its field. -/
def RemoteDoc.Fits (d : RemoteDoc) : Prop :=
  ∀ f ∈ d.fields, NulFree f.string ∧ f.string.length < f.width

instance (d : RemoteDoc) : Decidable d.Fits :=
  inferInstanceAs (Decidable (∀ f ∈ d.fields, NulFree f.string ∧ f.string.length < f.width))

/-- The handlers then read it as it is. -/
theorem stringAt_record {d : RemoteDoc} (hfits : d.Fits) {f : Field} (hf : f ∈ d.fields)
    (rs : List DmbdConfigRemote) : stringAt f.offset (d.record :: rs) = f.string := by
  obtain ⟨hfree, hlt⟩ := hfits f hf
  have hat := field_at d (rs.flatMap DmbdConfigRemote.image) f hf
  rw [stringAt, List.flatMap_cons, ← RemoteDoc.bytes, hat, cstr_eq_self hfree, charField_short hlt,
    List.append_assoc]
  exact cstr_append_zero_cons hfree _

theorem strings_record {d : RemoteDoc} (hfits : d.Fits) (rs : List DmbdConfigRemote) :
    ipOf (d.record :: rs) = d.ip ∧ nbdPortOf (d.record :: rs) = d.nbdPort ∧
      nbdExportOf (d.record :: rs) = d.nbdExport := by
  have hport : ⟨88, 16, d.nbdPort⟩ ∈ d.fields := by simp [RemoteDoc.fields]
  have hexport : ⟨56, 32, d.nbdExport⟩ ∈ d.fields := by simp [RemoteDoc.fields]
  exact ⟨stringAt_record hfits List.mem_cons_self rs, stringAt_record hfits hport rs,
    stringAt_record hfits hexport rs⟩

/-- The string at an offset into the first of the records, whatever stands behind the array. -/
def stringFrom (beyond : Bytes) (off : Nat) (rs : List DmbdConfigRemote) : Bytes :=
  cstr ((rs.flatMap DmbdConfigRemote.image ++ beyond).drop off)

/-- The records read as the document: one for each entry, with its size, and with its strings as the
callers read them, whatever stands behind the array; so equal ips are those of the document. -/
structure Decoded (docs : List RemoteDoc) (remote : List DmbdConfigRemote) : Prop where
  length : remote.length = docs.length
  sizes : remote.map DmbdConfigRemote.devSize = docs.map RemoteDoc.devSize
  strings : ∀ (k : Nat) (d : RemoteDoc), docs[k]? = some d → ∀ f ∈ d.fields, ∀ beyond,
    stringFrom beyond f.offset (remote.drop k) = f.string
  compare : ∀ (j k : Nat) (d e : RemoteDoc), docs[j]? = some d → docs[k]? = some e →
    ∀ beyond, stringFrom beyond 0 (remote.drop j) = stringFrom beyond 0 (remote.drop k) ↔
      d.ip = e.ip

/-- Every string of the document shows, among the bytes of its own entry and of those that
follow. -/
def AllShown (docs : List RemoteDoc) : Prop :=
  ∀ (k : Nat) (d : RemoteDoc), docs[k]? = some d → ∀ f ∈ d.fields,
    f.Shown (((docs.drop k).flatMap RemoteDoc.bytes).drop (f.offset + f.width))

theorem readRemoteEntry_doc {jc : JsonC} {new : Option Json} {d : RemoteDoc}
    (h : IsEntry jc new d) : readRemoteEntry jc new = some d.record := by
  unfold readRemoteEntry
  simp only [h.ip, h.devName, h.devSize, h.nbdExport, h.nbdPort, JsonC.getString]
  rfl

theorem mapM_readRemoteEntry {jc : JsonC} : ∀ {elems : List (Option Json)} {docs : List RemoteDoc},
    List.Forall₂ (IsEntry jc) elems docs →
      elems.mapM (readRemoteEntry jc) = some (docs.map RemoteDoc.record)
  | [], _, h => by
    cases h
    rfl
  | new :: elems, _, h => by
    cases h with
    | cons hd ht =>
      rw [List.mapM_cons, readRemoteEntry_doc hd, mapM_readRemoteEntry ht]
      rfl

/-- The call yields the records of the entries. -/
theorem readDMBDRemote_docs {jc : JsonC} {file : Option Bytes} {elems : List (Option Json)}
    {docs : List RemoteDoc}
    (hdoc : objectGetEx (jc.fromFile file) (ascii "remote") = some (.arr elems))
    (hentries : List.Forall₂ (IsEntry jc) elems docs) :
    readDMBDRemote jc file = some (docs.map RemoteDoc.record) := by
  unfold readDMBDRemote
  rw [hdoc]
  exact mapM_readRemoteEntry hentries

theorem offset_le {d : RemoteDoc} {f : Field} (hf : f ∈ d.fields) : f.offset ≤ 104 := by
  revert f
  simp [RemoteDoc.fields]

/-- A string is read back whatever stands behind the array if it shows. -/
theorem stringFrom_iff {docs : List RemoteDoc} {k : Nat} {d : RemoteDoc} (hk : docs[k]? = some d)
    {f : Field} (hf : f ∈ d.fields) :
    (∀ beyond, stringFrom beyond f.offset ((docs.map RemoteDoc.record).drop k) = f.string) ↔
      f.Shown (((docs.drop k).flatMap RemoteDoc.bytes).drop (f.offset + f.width)) := by
  obtain ⟨hlt, rfl⟩ := List.getElem?_eq_some_iff.mp hk
  have himage : ((docs.map RemoteDoc.record).drop k).flatMap DmbdConfigRemote.image =
      (docs.drop k).flatMap RemoteDoc.bytes := by
    rw [← List.map_drop, List.flatMap_map]
    rfl
  have hsplit : (docs.drop k).flatMap RemoteDoc.bytes =
      docs[k].bytes ++ (docs.drop (k + 1)).flatMap RemoteDoc.bytes := by
    rw [List.drop_eq_getElem_cons hlt, List.flatMap_cons]
  have hdrop : ∀ beyond, ((docs.drop k).flatMap RemoteDoc.bytes ++ beyond).drop f.offset =
      ((docs.drop k).flatMap RemoteDoc.bytes).drop f.offset ++ beyond := by
    intro beyond
    refine List.drop_append_of_le_length (le_trans (offset_le hf) ?_)
    rw [hsplit, List.length_append, RemoteDoc.bytes, DmbdConfigRemote.image_length]
    exact Nat.le_add_right _ _
  rw [← shown_iff, hsplit, ← field_at _ _ f hf, ← hsplit, stringIn_iff_beyond]
  refine forall_congr' fun beyond => ?_
  rw [stringFrom, himage, hdrop]

/-- **The configuration is decoded faithfully** exactly when every string of the document shows. -/
theorem remote_decoded_iff (jc : JsonC) (file : Option Bytes) (elems : List (Option Json))
    (docs : List RemoteDoc)
    (hdoc : objectGetEx (jc.fromFile file) (ascii "remote") = some (.arr elems))
    (hentries : List.Forall₂ (IsEntry jc) elems docs) :
    (∃ remote, readDMBDRemote jc file = some remote ∧ Decoded docs remote) ↔ AllShown docs := by
  rw [readDMBDRemote_docs hdoc hentries]
  constructor
  · rintro ⟨remote, hremote, hdecoded⟩ k d hk f hf
    obtain rfl := Option.some.inj hremote
    exact (stringFrom_iff hk hf).mp (hdecoded.strings k d hk f hf)
  · intro hshown
    have hstrings : ∀ (k : Nat) (d : RemoteDoc), docs[k]? = some d → ∀ f ∈ d.fields, ∀ beyond,
        stringFrom beyond f.offset ((docs.map RemoteDoc.record).drop k) = f.string :=
      fun k d hk f hf => (stringFrom_iff hk hf).mpr (hshown k d hk f hf)
    refine ⟨_, rfl, List.length_map _, ?_, hstrings, fun j k d e hj hk beyond => ?_⟩
    · rw [List.map_map]
      rfl
    · rw [hstrings j d hj ⟨0, 16, d.ip⟩ List.mem_cons_self beyond,
        hstrings k e hk ⟨0, 16, e.ip⟩ List.mem_cons_self beyond]

/-! ## Two documents -/

/-- The entry as json-c has it. -/
def RemoteDoc.json (d : RemoteDoc) : Json :=
  .obj [(ascii "ip", some (.str d.ip)), (ascii "remote_dev", some (.str d.devName)),
    (ascii "dev_size", some (.num d.devSize (ulong d.devSize))),
    (ascii "nbd_export", some (.str d.nbdExport)), (ascii "dmbd_nbd_port", some (.str d.nbdPort))]

/-- json-c that reads the text as the document with these entries. -/
def remoteJson (text : Bytes) (docs : List RemoteDoc) : JsonC :=
  jsonOf [(text, .obj [(ascii "remote", some (.arr (docs.map fun d => some d.json)))])]

theorem isEntry_json (jc : JsonC) (d : RemoteDoc) : IsEntry jc (some d.json) d :=
  ⟨rfl, rfl, rfl, rfl, rfl⟩

theorem areEntries (jc : JsonC) : ∀ docs : List RemoteDoc,
    List.Forall₂ (IsEntry jc) (docs.map fun d => some d.json) docs
  | [] => .nil
  | d :: docs => .cons (isEntry_json jc d) (areEntries jc docs)

/-- An entry with an address of 16 bytes. -/
def longAddress : RemoteDoc :=
  ⟨ascii "2001:db8::ff00:1", ascii "/dev/nbd1", 1024, ascii "export", ascii "1111"⟩

/-- Its address reads as the address and the device. -/
theorem long_address :
    objectGetEx ((remoteJson (ascii "long") [longAddress]).fromFile (some (ascii "long")))
        (ascii "remote") = some (.arr [some longAddress.json]) ∧
      List.Forall₂ (IsEntry (remoteJson (ascii "long") [longAddress])) [some longAddress.json]
        [longAddress] ∧
      ¬ ∃ remote, readDMBDRemote (remoteJson (ascii "long") [longAddress]) (some (ascii "long")) =
        some remote ∧ Decoded [longAddress] remote := by
  have hdoc : objectGetEx ((remoteJson (ascii "long") [longAddress]).fromFile
      (some (ascii "long"))) (ascii "remote") = some (.arr [some longAddress.json]) := rfl
  refine ⟨hdoc, areEntries _ [longAddress], ?_⟩
  rw [readDMBDRemote_docs hdoc (areEntries _ [longAddress])]
  rintro ⟨remote, hremote, hdecoded⟩
  obtain rfl := Option.some.inj hremote
  have hshown := (stringFrom_iff rfl List.mem_cons_self).mp
    (hdecoded.strings 0 longAddress rfl _ List.mem_cons_self)
  exact absurd hshown (by decide +kernel)

/-- Two entries whose strings fit. -/
def shortAddresses : List RemoteDoc :=
  [⟨ascii "10.0.0.1", ascii "/dev/nbd1", 1024, ascii "export", ascii "1111"⟩,
    ⟨ascii "10.0.0.2", ascii "/dev/nbd2", 1024, ascii "export", ascii "1111"⟩]

/-- They are decoded faithfully. -/
theorem remote_decoded_short :
    ∃ remote, readDMBDRemote (remoteJson (ascii "short") shortAddresses)
      (some (ascii "short")) = some remote ∧ Decoded shortAddresses remote := by
  refine (remote_decoded_iff (remoteJson (ascii "short") shortAddresses) (some (ascii "short"))
    (shortAddresses.map fun d => some d.json) shortAddresses rfl
      (areEntries _ shortAddresses)).mpr ?_
  intro k d hk f hf
  have hfits : ∀ d ∈ shortAddresses, d.Fits := by
    decide +kernel
  obtain ⟨hfree, hlt⟩ := hfits d (List.mem_of_getElem? hk) f hf
  exact ⟨hfree, Or.inl hlt⟩

end JcmController.Controller
