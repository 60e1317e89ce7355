import JcmController.Controller.Decode
import JcmController.Lib.KeyFile

/-!
# The file `nbd_config`

For every entry with the own ip the configuration handler prints a text into `nbd_msg`, and then
`nbd_msg`, as a format, into the file that `nbd-server` is started on. The file has two sections,
for the listener and for the export.

* `startNbdServers_turns`: the loop of the handler, entry by entry.
* **`nbd_config_faithful_iff`**: the file is that text, and its sections give the entry back,
  exactly when the three strings have no character in them that the format or the sections take for
  theirs.
* `export_not_faithful`: an export name with a percent sign, and one with a bracket.
-/

namespace JcmController.Controller

open JcmController.Lib

/-! ## The text -/

/-- `nbd_msg` of these strings. -/
def nbdConfigText (ip port nbdExport : Bytes) : Bytes :=
  ascii "[generic]\n    listenaddr=" ++ ip ++ ascii "\n    port=" ++ port ++ ascii "\n[" ++
    nbdExport ++ ascii "]\n    exportname = /dev/" ++ JCM_DEV

/-- Its lines. -/
def nbdConfigLines (ip port nbdExport : Bytes) : List Bytes :=
  [ascii "[generic]", ascii "    listenaddr=" ++ ip, ascii "    port=" ++ port,
    91 :: (nbdExport ++ [93]), ascii "    exportname = /dev/bestioa"]

theorem nbdConfigText_lines (ip port nbdExport : Bytes) :
    nbdConfigText ip port nbdExport =
      ([10] : Bytes).intercalate (nbdConfigLines ip port nbdExport) := by
  simp only [nbdConfigText, nbdConfigLines, List.append_assoc, List.intercalate_cons_cons,
    List.intercalate_singleton, List.cons_append]
  rfl

theorem nbdConfigMsg_eq (rs : List DmbdConfigRemote) :
    nbdConfigMsg rs = nbdConfigText (ipOf rs) (nbdPortOf rs) (nbdExportOf rs) := rfl

/-- Its sections. -/
def nbdSections (ip port nbdExport : Bytes) : List KeyFile.Section :=
  [⟨ascii "generic", [(ascii "listenaddr", ip), (ascii "port", port)]⟩,
    ⟨nbdExport, [(ascii "exportname", ascii "/dev/bestioa")]⟩]

/-- The three strings have no character in them that the format or the sections take for theirs: a
percent sign, a line break, a blank in front of a value, or a bracket that closes a name. -/
structure Plain (ip port nbdExport : Bytes) : Prop where
  format : 37 ∉ ip ∧ 37 ∉ port ∧ 37 ∉ nbdExport
  ip : KeyFile.ValueOk ip
  port : KeyFile.ValueOk port
  nbdExport : KeyFile.NameOk nbdExport

instance (ip port nbdExport : Bytes) : Decidable (Plain ip port nbdExport) :=
  decidable_of_iff ((37 ∉ ip ∧ 37 ∉ port ∧ 37 ∉ nbdExport) ∧ KeyFile.ValueOk ip ∧
    KeyFile.ValueOk port ∧ KeyFile.NameOk nbdExport)
    ⟨fun ⟨hf, hi, hp, he⟩ => ⟨hf, hi, hp, he⟩, fun ⟨hf, hi, hp, he⟩ => ⟨hf, hi, hp, he⟩⟩

section Text

variable {ip port nbdExport : Bytes}

theorem readLine_generic :
    KeyFile.readLine (ascii "[generic]") = some (.header (ascii "generic")) :=
  KeyFile.readLine_header (by decide : 93 ∉ ascii "generic")

theorem readLine_listenaddr (hip : KeyFile.ValueOk ip) :
    KeyFile.readLine (ascii "    listenaddr=" ++ ip) = some (.entry (ascii "listenaddr") ip) := by
  have hline : ascii "    listenaddr=" ++ ip =
      ascii "    " ++ 108 :: ascii "istenaddr" ++ 61 :: ip := rfl
  rw [hline, KeyFile.readLine_entry (by decide +kernel) (by decide) (by decide), hip.chug]
  rfl

theorem readLine_port (hport : KeyFile.ValueOk port) :
    KeyFile.readLine (ascii "    port=" ++ port) = some (.entry (ascii "port") port) := by
  have hline : ascii "    port=" ++ port = ascii "    " ++ 112 :: ascii "ort" ++ 61 :: port := rfl
  rw [hline, KeyFile.readLine_entry (by decide +kernel) (by decide) (by decide), hport.chug]
  rfl

theorem readLine_exportname :
    KeyFile.readLine (ascii "    exportname = /dev/bestioa") =
      some (.entry (ascii "exportname") (ascii "/dev/bestioa")) := by
  decide +kernel

/-- **The sections of the text**, with strings that are fine. -/
theorem read_nbdConfigText (hip : KeyFile.ValueOk ip) (hport : KeyFile.ValueOk port)
    (hexport : KeyFile.NameOk nbdExport) :
    KeyFile.read (nbdConfigText ip port nbdExport) = some (nbdSections ip port nbdExport) := by
  have hne : nbdConfigLines ip port nbdExport ≠ [] := List.cons_ne_nil _ _
  have hname : 10 ∉ 91 :: (nbdExport ++ [93]) :=
    List.not_mem_cons_of_ne_of_not_mem (by decide) (List.not_mem_append hexport.1 (by decide))
  have hlines : ∀ l ∈ nbdConfigLines ip port nbdExport, 10 ∉ l := by
    simp only [nbdConfigLines, List.forall_mem_cons]
    exact ⟨by decide, List.not_mem_append (by decide) hip.1,
      List.not_mem_append (by decide) hport.1, hname, by decide,
      fun _ h => absurd h List.not_mem_nil⟩
  rw [nbdConfigText_lines, KeyFile.read_lines hne hlines]
  simp only [nbdConfigLines, List.mapM_cons, List.mapM_nil, readLine_generic,
    readLine_listenaddr hip, readLine_port hport, KeyFile.readLine_header hexport.2,
    readLine_exportname]
  rfl

theorem nbdConfigText_format :
    37 ∉ nbdConfigText ip port nbdExport ↔ 37 ∉ ip ∧ 37 ∉ port ∧ 37 ∉ nbdExport := by
  have h₁ : 37 ∉ ascii "[generic]\n    listenaddr=" := by decide
  have h₂ : 37 ∉ ascii "\n    port=" := by decide
  have h₃ : 37 ∉ ascii "\n[" := by decide
  have h₄ : 37 ∉ ascii "]\n    exportname = /dev/" := by decide
  have h₅ : 37 ∉ JCM_DEV := by decide
  simp only [nbdConfigText, List.mem_append, h₁, h₂, h₃, h₄, h₅, false_or, or_false, not_or,
    and_assoc]

end Text

/-! ## The file -/

/-- Section by section the file gives back the strings. -/
def Recovers (file ip port nbdExport : Bytes) : Prop :=
  ∃ generic exported, KeyFile.read file = some [generic, exported] ∧
    generic.name = ascii "generic" ∧ (ascii "listenaddr", ip) ∈ generic.entries ∧
      (ascii "port", port) ∈ generic.entries ∧ exported.name = nbdExport

/-- The file is the text with these strings, and gives them back. -/
structure Faithful (file ip port nbdExport : Bytes) : Prop where
  text : file = nbdConfigText ip port nbdExport
  back : Recovers file ip port nbdExport

/-- **The printed text is faithful**, whatever a conversion does, if the strings are plain. -/
theorem faithful_iff {ip port nbdExport : Bytes} :
    (∀ junk, ∃ file, fprintf junk (nbdConfigText ip port nbdExport) = some file ∧
      Faithful file ip port nbdExport) ↔ Plain ip port nbdExport := by
  constructor
  · intro h
    have hformat := fprintf_eq_self_iff.mp fun junk => by
      obtain ⟨file, hfile, hfaithful⟩ := h junk
      rw [hfile, hfaithful.text]
    obtain ⟨_, -, -, generic, exported, hread, _, hip, hport, hexport⟩ := h fun _ => none
    obtain ⟨hgeneric, hsection⟩ := List.forall_mem_cons.mp (KeyFile.mem_read hread)
    refine ⟨nbdConfigText_format.mp hformat, hgeneric.2 _ hip, hgeneric.2 _ hport, ?_⟩
    rw [← hexport]
    exact (hsection exported List.mem_cons_self).1
  · intro hplain junk
    rw [fprintf_plain (nbdConfigText_format.mpr hplain.format)]
    exact ⟨_, rfl, rfl, _, _, read_nbdConfigText hplain.ip hplain.port hplain.nbdExport, rfl,
      List.mem_cons_self, List.mem_cons_of_mem _ List.mem_cons_self, rfl⟩

/-! ## The handler -/

/-- The turn of one entry in the loop of the handler. -/
def nbdTurn (c : Setup) (o : Outcomes) (rs : List DmbdConfigRemote) (n : Nat) (v : Vars) :
    Done Vars Event :=
  if ipOf rs = c.myNode.ip then
    (printNbdConfig c o rs n v).andThen fun v =>
      .ok v [.launch .nbdServer (nbdServerCmd c) (o.nbdServer n)]
  else .ok v []

/-- The loop takes the turns one after the other. -/
theorem startNbdServers_turns (c : Setup) (o : Outcomes) (r : DmbdConfigRemote)
    (rs : List DmbdConfigRemote) (n : Nat) (v : Vars) :
    startNbdServers c o (r :: rs) n v =
      (nbdTurn c o (r :: rs) n v).andThen (startNbdServers c o rs (n + 1)) := by
  rw [startNbdServers, nbdTurn]
  by_cases hip : ipOf (r :: rs) = c.myNode.ip
  · rw [if_pos hip, if_pos hip, Done.andThen_assoc]
  · rw [if_neg hip, if_neg hip]
    rfl

/-- What the turn of an entry for the own ip writes: nothing where `fprintf` ends the process. -/
theorem nbdTurn_file {c : Setup} {o : Outcomes} {n : Nat} {v : Vars} {d : RemoteDoc}
    {rs : List DmbdConfigRemote} (hfits : d.Fits) (hown : d.ip = c.myNode.ip)
    (hopen : o.nbdFopen n = true) :
    (nbdTurn c o (d.record :: rs) n v).state.nbdConfig =
      some ((fprintf c.junk (nbdConfigText d.ip d.nbdPort d.nbdExport)).getD []) := by
  obtain ⟨hip, hport, hexport⟩ := strings_record hfits rs
  unfold nbdTurn printNbdConfig printFile
  rw [if_pos (hip.trans hown), if_pos hopen, nbdConfigMsg_eq, hip, hport, hexport]
  cases fprintf c.junk (nbdConfigText d.ip d.nbdPort d.nbdExport) with
  | none => rfl
  | some text => rfl

/-- An empty file is not faithful. -/
theorem faithful_getD_iff {printed : Option Bytes} {ip port nbdExport : Bytes} :
    (∃ file, some (printed.getD []) = some file ∧ Faithful file ip port nbdExport) ↔
      ∃ file, printed = some file ∧ Faithful file ip port nbdExport := by
  cases printed with
  | none =>
    refine iff_of_false ?_ ?_
    · rintro ⟨file, hfile, hfaithful⟩
      have hempty : [] = nbdConfigText ip port nbdExport :=
        (Option.some.inj hfile).trans hfaithful.text
      unfold nbdConfigText at hempty
      simp only [List.append_assoc] at hempty
      exact absurd (List.append_eq_nil_iff.mp hempty.symm).1 (by decide)
    · rintro ⟨_, h, _⟩
      cases h
  | some text => exact Iff.rfl

/-- **`nbd_config` is faithful** to an entry for the own ip, whatever `fprintf` does with a
conversion, exactly when the strings of the entry are plain. -/
theorem nbd_config_faithful_iff (c : Setup) (o : Outcomes) (n : Nat) (v : Vars)
    (new : Option Json) (d : RemoteDoc) (hentry : IsEntry c.json new d) (hfits : d.Fits)
    (hown : d.ip = c.myNode.ip) (hopen : o.nbdFopen n = true) (r : DmbdConfigRemote)
    (hread : readRemoteEntry c.json new = some r) (rs : List DmbdConfigRemote) :
    (∀ junk, ∃ file,
      (nbdTurn { c with junk := junk } o (r :: rs) n v).state.nbdConfig = some file ∧
        Faithful file d.ip d.nbdPort d.nbdExport) ↔
      Plain d.ip d.nbdPort d.nbdExport := by
  obtain rfl : d.record = r := Option.some.inj ((readRemoteEntry_doc hentry).symm.trans hread)
  rw [← faithful_iff]
  refine forall_congr' fun junk => ?_
  have hfile : (nbdTurn { c with junk := junk } o (d.record :: rs) n v).state.nbdConfig =
      some ((fprintf junk (nbdConfigText d.ip d.nbdPort d.nbdExport)).getD []) :=
    nbdTurn_file hfits hown hopen
  rw [hfile]
  exact faithful_getD_iff

/-! ## Export names -/

/-- An entry for 10.0.0.1 with this export name. -/
def exporting (nbdExport : String) : RemoteDoc :=
  ⟨ascii "10.0.0.1", ascii "/dev/nbd1", 1024, ascii nbdExport, ascii "1111"⟩

/-- What the handler writes for it is faithful, whatever a conversion does. -/
def WrittenFaithfully (nbdExport : String) : Prop :=
  ∀ junk, ∃ file, (nbdTurn { twoServers noJson with junk := junk } allOk
    [(exporting nbdExport).record] 0 (startVars none)).state.nbdConfig = some file ∧
      Faithful file (ascii "10.0.0.1") (ascii "1111") (ascii nbdExport)

/-- A percent sign makes the name a format, and a bracket ends it early. -/
theorem export_not_faithful :
    (∀ nbdExport ∈ ["vol%d", "vol]1"],
      (exporting nbdExport).Fits ∧ (exporting nbdExport).ip = (twoServers noJson).myNode.ip) ∧
      ¬ WrittenFaithfully "vol%d" ∧ ¬ WrittenFaithfully "vol]1" := by
  have hno : ∀ nbdExport : String, (exporting nbdExport).Fits →
      ¬ Plain (ascii "10.0.0.1") (ascii "1111") (ascii nbdExport) →
        ¬ WrittenFaithfully nbdExport := by
    intro nbdExport hfits hplain hall
    refine hplain (faithful_iff.mp fun junk => ?_)
    have hwritten := hall junk
    rw [nbdTurn_file hfits rfl rfl] at hwritten
    exact faithful_getD_iff.mp hwritten
  exact ⟨by decide +kernel, hno _ (by decide +kernel) (by decide +kernel),
    hno _ (by decide +kernel) (by decide +kernel)⟩

/-- A plain name is written faithfully. -/
theorem nbd_config_faithful_plain : WrittenFaithfully "vol1" :=
  (nbd_config_faithful_iff (twoServers noJson) allOk 0 (startVars none)
    (some (exporting "vol1").json) (exporting "vol1") (isEntry_json _ _) (by decide +kernel) rfl rfl
    (exporting "vol1").record rfl []).mpr (by decide +kernel)

end JcmController.Controller
