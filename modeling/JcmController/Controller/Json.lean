import JcmController.Lib.CString

/-!
# Configuration documents (`json_file.c`, `ReadDMBDRemote`)

* `Json` is a json-c value; the NULL pointer, which is also the JSON `null`, is `none`. `JsonC`
  stands for the parts of json-c that read and print text.
* `getString` gives the string as its readers see it, up to its first NUL.
* A `DmbdConfigRemote` has the C layout, its fields full width. `memcpy` copies a fixed number of
  bytes; what stands after the string's NUL is never read, so it is zero here. A string as long as
  its field has no NUL there and runs on into the next field or the next record: `ipOf`,
  `devNameOf`, `nbdExportOf` and `nbdPortOf` read it in the image of the records from the one
  asked about on.
* `none` is the end of the process: `memcpy` from a NULL string, or `json_object_array_length` of
  something that is not an array.
-/

namespace JcmController.Controller

open JcmController.Lib

/-- `struct json_object`. A number is kept as its `json_object_get_int64` and its text. -/
inductive Json where
  | bool (b : Bool)
  | num (int64 : UInt64) (text : Bytes)
  | str (s : Bytes)
  | arr (elems : List (Option Json))
  | obj (fields : List (Bytes × Option Json))

/-- `json_object_object_get_ex`: what it leaves in `*value`. -/
def objectGetEx (jso : Option Json) (key : Bytes) : Option Json :=
  match jso with
  | some (.obj fields) => ((fields.find? fun f => f.1 = key).bind Prod.snd)
  | _ => none

/-- The part of json-c that is about text: the parser, the printer, and a string read as a
number. -/
structure JsonC where
  tokenerParse : Bytes → Option Json
  toJsonString : Json → Bytes
  parseInt64 : Bytes → UInt64

namespace JsonC

variable (jc : JsonC)

/-- `json_object_from_file`. A file that cannot be read gives NULL. -/
def fromFile (file : Option Bytes) : Option Json := file.bind jc.tokenerParse

/-- `json_object_get_string`. -/
def getString : Option Json → Option Bytes
  | none => none
  | some (.str s) => some (cstr s)
  | some v => some (cstr (jc.toJsonString v))

/-- `json_object_get_int64`, converted to `unsigned long`. -/
def getInt64 : Option Json → UInt64
  | some (.bool b) => if b then 1 else 0
  | some (.num n _) => n
  | some (.str s) => jc.parseInt64 s
  | _ => 0

end JsonC

/-! ## Records -/

/-- A `char` field of `n` bytes after `memcpy(field, s, n)`. -/
def charField (n : Nat) (s : Bytes) : Bytes := (s ++ List.replicate n 0).take n

theorem charField_length (n : Nat) (s : Bytes) : (charField n s).length = n := by
  unfold charField
  rw [List.length_take, List.length_append, List.length_replicate]
  omega

/-- `DMBD_CONFIG_REMOTE`. -/
structure DmbdConfigRemote where
  ip : Bytes
  devName : Bytes
  devSize : UInt64
  nbdExport : Bytes
  nbdPort : Bytes
  ip_length : ip.length = 16
  devName_length : devName.length = 32
  nbdExport_length : nbdExport.length = 32
  nbdPort_length : nbdPort.length = 16

/-- An `unsigned long` in memory. -/
def ulongBytes (n : UInt64) : Bytes :=
  (List.range 8).map fun k => (n >>> UInt64.ofNat (8 * k)).toUInt8

/-- The record in memory. -/
def DmbdConfigRemote.image (r : DmbdConfigRemote) : Bytes :=
  r.ip ++ r.devName ++ ulongBytes r.devSize ++ r.nbdExport ++ r.nbdPort

/-- `sizeof(DMBD_CONFIG_REMOTE)`: the fields leave no gap. -/
theorem DmbdConfigRemote.image_length (r : DmbdConfigRemote) : r.image.length = 104 := by
  simp [image, ulongBytes, r.ip_length, r.devName_length, r.nbdExport_length, r.nbdPort_length]

/-- The string that starts `off` bytes into the first of the records. -/
def stringAt (off : Nat) (rs : List DmbdConfigRemote) : Bytes :=
  cstr ((rs.flatMap DmbdConfigRemote.image).drop off)

/-- `remote[0].ip` -/
def ipOf : List DmbdConfigRemote → Bytes := stringAt 0

/-- `remote[0].dev_name` -/
def devNameOf : List DmbdConfigRemote → Bytes := stringAt 16

/-- `remote[0].nbd_export` -/
def nbdExportOf : List DmbdConfigRemote → Bytes := stringAt 56

/-- `remote[0].nbd_port` -/
def nbdPortOf : List DmbdConfigRemote → Bytes := stringAt 88

/-! ## `ReadDMBDRemote` -/

/-- The body of its loop: one entry of the array. -/
def readRemoteEntry (jc : JsonC) (new : Option Json) : Option DmbdConfigRemote := do
  let ip ← jc.getString (objectGetEx new (ascii "ip"))
  let devName ← jc.getString (objectGetEx new (ascii "remote_dev"))
  let devSize := jc.getInt64 (objectGetEx new (ascii "dev_size"))
  let nbdExport ← jc.getString (objectGetEx new (ascii "nbd_export"))
  let nbdPort ← jc.getString (objectGetEx new (ascii "dmbd_nbd_port"))
  return ⟨charField 16 ip, charField 32 devName, devSize, charField 32 nbdExport,
    charField 16 nbdPort, charField_length _ _, charField_length _ _, charField_length _ _,
    charField_length _ _⟩

/-- `ReadDMBDRemote` of a file with this contents. -/
def readDMBDRemote (jc : JsonC) (file : Option Bytes) : Option (List DmbdConfigRemote) :=
  match objectGetEx (jc.fromFile file) (ascii "remote") with
  | some (.arr elems) => elems.mapM (readRemoteEntry jc)
  | _ => none

end JcmController.Controller
