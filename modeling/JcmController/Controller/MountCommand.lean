import JcmController.Controller.Rounds
import JcmController.Lib.Assoc
import JcmController.Lib.JsonText

/-!
# The mount command (`client_mount.c`, `msg_send`)

The client writes the path and the file system between the quotes of a JSON text as they are.
json-c is a reader of JSON texts here (`ReadsJson`).

* `textOf_sent`: the controller handles the message, without what stands behind it in the client's
  buffer.
* **`mount_round_trip_iff`**: the command comes through when the path and the file system are plain.
* `RoundTrip.mounts`: then they are what is created and mounted.
* `mount_path_command`: a path that changes the command.
-/

namespace JcmController.Controller

open JcmController.Lib JcmController.Lib.JsonText

/-! ## The client -/

/-- `char path[32]` or `char fs[32]`, filled by `strcpy`. -/
structure ClientField where
  text : Bytes
  nulFree : NulFree text
  fits : text.length < 32

/-- `BUF_SIZE` -/
def BUF_SIZE : Nat := 1024

/-- What `sprintf` makes. -/
def mountMessage (path fs : Bytes) : Bytes :=
  ascii "\x7b \"cmd_type\": \"mount\", \"mount_path\": \"" ++ path ++
    ascii "\", \"mount_fs\": \"" ++ fs ++ ascii "\"\x7d"

/-- `write(client_sock, buffer, BUF_SIZE)`: the message with its NUL, and what `malloc` found
there. -/
def sent (memory : Bytes) (path fs : ClientField) : Bytes :=
  (overlay memory (mountMessage path.text fs.text ++ [0])).take BUF_SIZE

theorem mountMessage_length (path fs : Bytes) :
    (mountMessage path fs).length = path.length + fs.length + 56 := by
  have hhead : (ascii "\x7b \"cmd_type\": \"mount\", \"mount_path\": \"").length = 38 := by
    decide +kernel
  have hmid : (ascii "\", \"mount_fs\": \"").length = 16 := by decide +kernel
  have hend : (ascii "\"\x7d").length = 2 := by decide +kernel
  simp only [mountMessage, List.length_append, hhead, hmid, hend]
  omega

theorem mountMessage_nulFree (path fs : ClientField) :
    NulFree (mountMessage path.text fs.text) := by
  have hhead : NulFree (ascii "\x7b \"cmd_type\": \"mount\", \"mount_path\": \"") := by
    decide +kernel
  have hmid : NulFree (ascii "\", \"mount_fs\": \"") := by decide +kernel
  have hend : NulFree (ascii "\"\x7d") := by decide +kernel
  intro b hb
  simp only [mountMessage, List.mem_append, or_assoc] at hb
  rcases hb with hb | hb | hb | hb | hb
  · exact hhead b hb
  · exact path.nulFree b hb
  · exact hmid b hb
  · exact fs.nulFree b hb
  · exact hend b hb

/-- **The controller handles the message.** -/
theorem textOf_sent (v : Vars) (memory : Bytes) (path fs : ClientField) :
    textOf v (some (sent memory path fs)) = mountMessage path.text fs.text := by
  have hlen := mountMessage_length path.text fs.text
  have hpath := path.fits
  have hfs := fs.fits
  obtain ⟨k, hk⟩ : ∃ k, BUF_SIZE = (mountMessage path.text fs.text).length + (k + 1) :=
    ⟨BUF_SIZE - (mountMessage path.text fs.text).length - 1, by unfold BUF_SIZE; omega⟩
  have hsmall : min 4096 BUF_SIZE = BUF_SIZE := rfl
  rw [textOf, cstr_readTerm_some, sent, List.take_take, hsmall, overlay, List.append_assoc, hk,
    List.take_length_add_append, List.singleton_append, List.take_succ_cons]
  exact cstr_append_zero_cons (mountMessage_nulFree path fs) _

/-! ## json-c -/

/-- The json-c values of a JSON text: `json_object_object_add` of a key that is there replaces its
value. -/
def builder (int64 : Bytes → UInt64) : Builder (Option Json) where
  null := none
  bool b := some (.bool b)
  num t := some (.num (int64 t) t)
  str s := some (.str s)
  arr vs := some (.arr vs)
  obj ms := some (.obj (Assoc.ofList ms).entries)

/-- `json_tokener_parse` reads JSON texts. -/
def ReadsJson (jc : JsonC) (d : Dialect) (int64 : Bytes → UInt64) : Prop :=
  ∀ text, jc.tokenerParse text = (parse d (builder int64) text).join

/-- The bytes that a value takes: a string its own and the quotes. -/
def jsonCost : Option Json → Nat
  | some (.str s) => s.length + 2
  | _ => 1

theorem builder_costs (int64 : Bytes → UInt64) : Costs (builder int64) jsonCost where
  null := Nat.le_refl _
  bool _ := Nat.le_refl _
  num _ := Nat.le_refl _
  str _ := rfl
  arr _ := Nat.le_refl _
  obj _ := Nat.le_refl _

theorem builder_str_injective (int64 : Bytes → UInt64) :
    Function.Injective (builder int64).str := by
  intro s s' h
  exact Json.str.inj (Option.some.inj h)

/-- A key's value in an object is that of its last member. -/
theorem objectGetEx_ofList (ms : List (Bytes × Option Json)) (key : Bytes) :
    objectGetEx (some (.obj (Assoc.ofList ms).entries)) key =
      ((Assoc.ofList ms).get? key).join := by
  show ((Assoc.ofList ms).entries.find? fun e => e.1 = key).bind Prod.snd =
    (((Assoc.ofList ms).entries.find? fun e => e.1 = key).map Prod.snd).join
  cases (Assoc.ofList ms).entries.find? fun e => e.1 = key <;> rfl

/-- Only an object has members. -/
theorem exists_of_objectGetEx {v : Option Json} {key : Bytes} {j : Json}
    (h : objectGetEx v key = some j) : ∃ fields, v = some (.obj fields) := by
  unfold objectGetEx at h
  split at h
  · exact ⟨_, rfl⟩
  · cases h

/-! ## The round trip -/

/-- The command, the path and the file system are those of the client. -/
structure RoundTrip (jc : JsonC) (text : Bytes) (path fs : ClientField) : Prop where
  command : objectGetEx (jc.tokenerParse text) (ascii "cmd_type") = some (.str (ascii "mount"))
  path : objectGetEx (jc.tokenerParse text) (ascii "mount_path") = some (.str path.text)
  fs : objectGetEx (jc.tokenerParse text) (ascii "mount_fs") = some (.str fs.text)

/-- The members of the message. -/
def mountFields (path fs : Bytes) : List (Bytes × Bytes) :=
  [(ascii "cmd_type", ascii "mount"), (ascii "mount_path", path), (ascii "mount_fs", fs)]

/-- The message as an object of strings. -/
theorem mountMessage_eq (path fs : Bytes) :
    mountMessage path fs = object (mountFields path fs) := by
  have hhead : ascii "\x7b \"cmd_type\": \"mount\", \"mount_path\": \"" =
      123 :: 32 :: quote :: (ascii "cmd_type" ++ quote :: 58 :: 32 :: quote :: (ascii "mount" ++
        quote :: 44 :: 32 :: quote :: (ascii "mount_path" ++ [quote, 58, 32, quote]))) := by
    decide +kernel
  have hmid : ascii "\", \"mount_fs\": \"" =
      quote :: 44 :: 32 :: quote :: (ascii "mount_fs" ++ [quote, 58, 32, quote]) := by
    decide +kernel
  have hend : ascii "\"\x7d" = [quote, 125] := by decide +kernel
  simp [mountMessage, mountFields, object, fields, field, hhead, hmid, hend]

/-- The words of the message stand for themselves. -/
theorem plain_words (d : Dialect) : Plain d (ascii "cmd_type") ∧ Plain d (ascii "mount") ∧
    Plain d (ascii "mount_path") ∧ Plain d (ascii "mount_fs") := by
  have hplain : ∀ s : Bytes, (∀ b ∈ s, b ≠ quote ∧ b ≠ backslash ∧ 32 ≤ b ∧ b < 128) → Plain d s :=
    fun s hs b hb => ⟨(hs b hb).1, (hs b hb).2.1, d.raw_ascii b (hs b hb).2.2.1 (hs b hb).2.2.2⟩
  refine ⟨hplain _ ?_, hplain _ ?_, hplain _ ?_, hplain _ ?_⟩
  all_goals decide +kernel

/-- A plain path and file system come through. -/
theorem roundTrip_of_plain {jc : JsonC} {d : Dialect} {int64 : Bytes → UInt64}
    (hjson : ReadsJson jc d int64) {path fs : ClientField} (hpath : Plain d path.text)
    (hfs : Plain d fs.text) : RoundTrip jc (mountMessage path.text fs.text) path fs := by
  obtain ⟨hcmd, hmount, hkey, hkey'⟩ := plain_words d
  have hplain : AllPlain d (mountFields path.text fs.text) := by
    refine List.forall_mem_cons.mpr ⟨⟨hcmd, hmount⟩, List.forall_mem_cons.mpr ⟨⟨hkey, hpath⟩,
      List.forall_mem_cons.mpr ⟨⟨hkey', hfs⟩, fun _ h => ?_⟩⟩⟩
    exact absurd h List.not_mem_nil
  have hparse : jc.tokenerParse (mountMessage path.text fs.text) =
      some (.obj (Assoc.ofList ((mountFields path.text fs.text).map fun m =>
        (m.1, (builder int64).str m.2))).entries) := by
    rw [hjson, mountMessage_eq, parse_printed hplain (List.cons_ne_nil _ _)]
    rfl
  have hnodup : (((mountFields path.text fs.text).map fun m =>
      (m.1, (builder int64).str m.2)).map Prod.fst).Nodup := by
    show [ascii "cmd_type", ascii "mount_path", ascii "mount_fs"].Nodup
    decide +kernel
  have hfound : ∀ m ∈ mountFields path.text fs.text,
      objectGetEx (jc.tokenerParse (mountMessage path.text fs.text)) m.1 = some (.str m.2) := by
    intro m hm
    rw [hparse, objectGetEx_ofList, Assoc.get?_ofList_of_mem hnodup (List.mem_map_of_mem hm)]
    rfl
  exact ⟨hfound (ascii "cmd_type", ascii "mount") (by simp [mountFields]),
    hfound (ascii "mount_path", path.text) (by simp [mountFields]),
    hfound (ascii "mount_fs", fs.text) (by simp [mountFields])⟩

/-- The strings that come out of the text of an object are among its members. -/
theorem members_of_object {jc : JsonC} {d : Dialect} {int64 : Bytes → UInt64}
    (hjson : ReadsJson jc d int64) {m : Bytes × Bytes} {ms : List (Bytes × Bytes)} {key s : Bytes}
    (h : objectGetEx (jc.tokenerParse (object (m :: ms))) key = some (.str s)) :
    ∃ fuel r, members d (builder int64) (fuel + 6) (fields (m :: ms)) = some r ∧
      ∀ key s, objectGetEx (jc.tokenerParse (object (m :: ms))) key = some (.str s) →
        (key, (builder int64).str s) ∈ r.1 := by
  obtain ⟨entries, hentries⟩ := exists_of_objectGetEx h
  have hparse : parse d (builder int64) (object (m :: ms)) = some (some (.obj entries)) :=
    Option.join_eq_some_iff.mp ((hjson _).symm.trans hentries)
  obtain ⟨v, hv, hv'⟩ := Option.bind_eq_some_iff.mp hparse
  have hobject : v.1 = some (.obj entries) := by
    obtain ⟨_, hv'⟩ := Option.ite_none_right_eq_some.mp hv'
    exact Option.some.inj hv'
  obtain ⟨fuel, hfuel⟩ : ∃ k, 2 * (object (m :: ms)).length = k + 6 := by
    refine ⟨2 * (object (m :: ms)).length - 6, ?_⟩
    simp only [object, fields, field, List.length_cons]
    omega
  rw [hfuel] at hv
  obtain ⟨r, hr, rfl⟩ := Option.map_eq_some_iff.mp ((value_object (fuel + 6) _).symm.trans hv)
  refine ⟨fuel, r, hr, fun key s hs => ?_⟩
  have hofList : jc.tokenerParse (object (m :: ms)) =
      some (.obj (Assoc.ofList r.1).entries) := hentries.trans hobject.symm
  rw [hofList, objectGetEx_ofList] at hs
  exact Assoc.mem_of_get?_ofList (Option.join_eq_some_iff.mp hs)

/-- A member with another key comes later. -/
theorem mem_tail_of_key {α : Type} {k k' : Bytes} {v v' : α} {ms : List (Bytes × α)}
    (h : (k, v) ∈ (k', v') :: ms) (hne : k ≠ k') : (k, v) ∈ ms :=
  (List.mem_cons.mp h).resolve_left fun heq => hne (Prod.mk.inj heq).1

/-- What comes through is plain. -/
theorem plain_of_roundTrip {jc : JsonC} {d : Dialect} {int64 : Bytes → UInt64}
    (hjson : ReadsJson jc d int64) {path fs : ClientField}
    (h : RoundTrip jc (mountMessage path.text fs.text) path fs) :
    Plain d path.text ∧ Plain d fs.text := by
  obtain ⟨hcmd, hmount, hkey, hkey'⟩ := plain_words d
  have hcosts := builder_costs int64
  have hinj := builder_str_injective int64
  have hcmdPath : ascii "mount_path" ≠ ascii "cmd_type" := by decide +kernel
  have hcmdFs : ascii "mount_fs" ≠ ascii "cmd_type" := by decide +kernel
  have hpathFs : ascii "mount_fs" ≠ ascii "mount_path" := by decide +kernel
  rw [mountMessage_eq] at h
  obtain ⟨fuel, r, hr, hmem⟩ := members_of_object hjson h.path
  have hpath := hmem _ _ h.path
  have hfs := hmem _ _ h.fs
  -- behind the command
  have hr₁ : (members d (builder int64) (fuel + 5) (fields [(ascii "mount_path", path.text),
      (ascii "mount_fs", fs.text)])).map (fun q =>
        ((ascii "cmd_type", (builder int64).str (ascii "mount")) :: q.1, q.2)) = some r :=
    (members_next (m := (ascii "cmd_type", ascii "mount")) hcmd hmount (fuel + 4) _).symm.trans hr
  obtain ⟨q, hq, rfl⟩ := Option.map_eq_some_iff.mp hr₁
  replace hpath := mem_tail_of_key hpath hcmdPath
  replace hfs := mem_tail_of_key hfs hcmdFs
  have hplain : Plain d path.text := by
    refine field_exact hcosts hinj hkey hq hpath [(ascii "mount_fs", (builder int64).str fs.text)]
      (List.nodup_singleton _) (fun m hm => ?_) (fun m hm => ?_) ?_ ?_
    · rw [List.mem_singleton.mp hm]
      exact hfs
    · rw [List.mem_singleton.mp hm]
      exact hpathFs
    · show (44 :: field (ascii "mount_fs", fs.text) [125]).length ≤
        memberCost jsonCost (ascii "mount_fs", some (.str fs.text)) + 0 + 3
      simp only [field, memberCost, jsonCost, List.length_cons, List.length_append, List.length_nil]
      omega
    · intro i hi
      rcases Nat.le_one_iff_eq_zero_or_eq_one.mp hi with rfl | rfl
      · show some (44 : UInt8) ≠ some quote
        decide
      · show some (32 : UInt8) ≠ some quote
        decide
  -- behind the path
  have hq₁ : (members d (builder int64) (fuel + 4) (fields [(ascii "mount_fs", fs.text)])).map
      (fun q => ((ascii "mount_path", (builder int64).str path.text) :: q.1, q.2)) = some q :=
    (members_next (m := (ascii "mount_path", path.text)) hkey hplain (fuel + 3) _).symm.trans hq
  obtain ⟨q', hq', rfl⟩ := Option.map_eq_some_iff.mp hq₁
  replace hfs := mem_tail_of_key hfs hpathFs
  refine ⟨hplain, field_exact hcosts hinj hkey' hq' hfs [] List.nodup_nil (List.nil_subset _)
    (fun _ hm => absurd hm List.not_mem_nil) ?_ ?_⟩
  · show ([125] : Bytes).length ≤ 0 + 3
    decide
  · intro i hi
    rcases Nat.le_one_iff_eq_zero_or_eq_one.mp hi with rfl | rfl
    · show some (125 : UInt8) ≠ some quote
      decide
    · show none ≠ some quote
      decide

/-- **The command comes through** when the path and the file system stand for themselves in a JSON
string. -/
theorem mount_round_trip_iff (jc : JsonC) (d : Dialect) (int64 : Bytes → UInt64)
    (hjson : ReadsJson jc d int64) (v : Vars) (memory : Bytes) (path fs : ClientField) :
    RoundTrip jc (textOf v (some (sent memory path fs))) path fs ↔
      Plain d path.text ∧ Plain d fs.text := by
  rw [textOf_sent]
  exact ⟨plain_of_roundTrip hjson, fun h => roundTrip_of_plain hjson h.1 h.2⟩

/-- A directory that is created is `path`, and what is mounted is mounted there, as `fs`. -/
def Event.MountsAt (path fs : Bytes) : Event → Prop
  | .mkdir p _ => p = some path
  | .mount _ p f _ => p = some path ∧ f = some fs
  | _ => True

theorem mountMsgSend_mountsAt (c : Setup) (net : Net) (buf : Bytes) (v : Vars) (path fs : Bytes) :
    ∀ e ∈ (mountMsgSend c net buf v).2, e.MountsAt path fs := by
  refine (send_keeps (P := fun _ => True) (fun n s _ => ⟨trivial, fun e he => ?_⟩)
    (fun _ _ => trivial) trivial trivial).2
  rw [List.mem_singleton.mp he]
  trivial

/-- **The directory that is created and mounted is then the one that was named.** -/
theorem RoundTrip.mounts {c : Setup} {text : Bytes} {path fs : ClientField}
    (h : RoundTrip c.json text path fs) (o : Outcomes) (i : Int) (v : Vars) :
    .mount (ascii "/dev/" ++ JCM_DEV) (some path.text) (some fs.text) o.mount ∈
        (handler c o i text v).events ∧
      ∀ e ∈ (handler c o i text v).events, e.MountsAt path.text fs.text := by
  have hstring : ∀ field : ClientField, c.json.getString (some (.str field.text)) =
      some field.text := fun field => congrArg some (cstr_eq_self field.nulFree)
  have hword : c.json.getString (some (.str (ascii "mount"))) = some (ascii "mount") :=
    congrArg some (cstr_eq_self (by decide +kernel))
  have hcmd : commandOf c text = .mount := by
    unfold commandOf
    rw [h.command, hword]
    decide +kernel
  have hevents : mountedEvents c o (c.json.tokenerParse text) =
      (if o.access ≠ 0 then [Event.mkdir (some path.text) o.mkdir] else []) ++
        [.mount (ascii "/dev/" ++ JCM_DEV) (some path.text) (some fs.text) o.mount] := by
    simp only [mountedEvents, h.path, h.fs, hstring]
  have hmounted : ∀ e ∈ mountedEvents c o (c.json.tokenerParse text),
      e.MountsAt path.text fs.text := by
    rw [hevents]
    intro e he
    rcases List.mem_append.mp he with he | he
    · obtain ⟨_, he⟩ := List.mem_ite_nil_right.mp he
      rw [List.mem_singleton.mp he]
      rfl
    · rw [List.mem_singleton.mp he]
      exact ⟨rfl, rfl⟩
  have hmem : .mount (ascii "/dev/" ++ JCM_DEV) (some path.text) (some fs.text) o.mount ∈
      mountedEvents c o (c.json.tokenerParse text) := by
    rw [hevents]
    exact List.mem_append_right _ List.mem_cons_self
  have hhandler : handler c o i text v = mountHandler c o (c.json.tokenerParse text) v := by
    unfold handler
    rw [hcmd]
  rw [hhandler]
  by_cases hm : o.mount < 0
  · rw [mountHandler_fails hm]
    exact ⟨hmem, hmounted⟩
  · rw [mountHandler_eq hm]
    have hfirst : (Done.ok v (mountedEvents c o (c.json.tokenerParse text))).Keeps (fun _ => True)
        (fun e => e.MountsAt path.text fs.text) := ⟨trivial, hmounted⟩
    refine ⟨Done.mem_andThen.mpr (Or.inl (Done.mem_andThen.mpr (Or.inl hmem))), ?_⟩
    exact ((hfirst.andThen fun _ => printMountFile_keeps trivial (fun _ => trivial) trivial
      trivial).andThen fun _ => ⟨trivial, mountMsgSend_mountsAt c _ _ _ _ _⟩).2

/-! ## Two paths -/

/-- A string holds no control characters as they are, and only space follows the value. -/
def strictJson : Dialect where
  raw b := decide (32 ≤ b)
  raw_ascii _ hb _ := decide_eq_true hb
  trailing text := (skipWs text).isEmpty
  trailing_nil := rfl

/-- A json-c that reads these texts. -/
def jsonReader : JsonC where
  tokenerParse text := (parse strictJson (builder fun _ => 0) text).join
  toJsonString _ := []
  parseInt64 _ := 0

/-- "/mnt" -/
def mnt : ClientField := ⟨ascii "/mnt", by decide +kernel, by decide +kernel⟩

/-- "ext4" -/
def ext4 : ClientField := ⟨ascii "ext4", by decide +kernel, by decide +kernel⟩

/-- They come through. -/
theorem mount_round_trip_mnt :
    RoundTrip jsonReader (textOf (startVars none) (some (sent [] mnt ext4))) mnt ext4 :=
  (mount_round_trip_iff jsonReader strictJson (fun _ => 0) (fun _ => rfl) (startVars none) [] mnt
    ext4).mpr ⟨by decide +kernel, by decide +kernel⟩

/-- A path with a command in it. -/
def commandPath : ClientField :=
  ⟨ascii "\",\"cmd_type\":\"NBD_SET_ON", by decide +kernel, by decide +kernel⟩

/-- The controller takes its message for that command. -/
theorem mount_path_command :
    ReadsJson jsonReader strictJson (fun _ => 0) ∧
      commandOf (twoServers jsonReader)
        (textOf (startVars none) (some (sent [] commandPath ext4))) = .nbdSetOn ∧
      ¬ RoundTrip jsonReader (textOf (startVars none) (some (sent [] commandPath ext4)))
        commandPath ext4 := by
  refine ⟨fun _ => rfl, ?_, fun h => ?_⟩
  · rw [textOf_sent]
    decide +kernel
  · rw [textOf_sent] at h
    have hjson : ReadsJson jsonReader strictJson fun _ => 0 := fun _ => rfl
    have hplain := (plain_of_roundTrip hjson h).1
    exact absurd hplain (by decide +kernel)

end JcmController.Controller
