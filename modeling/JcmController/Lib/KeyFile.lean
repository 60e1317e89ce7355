import Mathlib.Data.List.DropRight
import JcmController.Lib.CString

/-!
# Key files

A key file is a text of lines. A line in brackets starts the section of that name, a line with an
equals sign is an entry of the section it stands in, and blanks around keys and before values do not
count. `read` gives the sections in order.

Results:
* `readLine_header`, `readLine_entry`: what a line with a name, and one with a key, is read as.
* `read_lines`: a text of lines is read line by line.
* `mem_read`: no name that is read has a line break or a closing bracket in it, no value a line
  break, or a blank in front.
-/

namespace JcmController.Lib.KeyFile

/-- Space or tab. -/
def blank (b : UInt8) : Bool := b = 32 || b = 9

/-- One line. -/
inductive Line where
  | comment
  | header (name : Bytes)
  | entry (key value : Bytes)
  deriving DecidableEq

/-- A section and its entries. -/
structure Section where
  name : Bytes
  entries : List (Bytes × Bytes)
  deriving DecidableEq

/-- A line without the blanks in front of it. -/
def readTrimmed : Bytes → Option Line
  | [] => some .comment
  | 35 :: _ => some .comment
  | 91 :: rest =>
    if rest.drop (rest.takeWhile (· ≠ 93)).length = [93] then
      some (.header (rest.takeWhile (· ≠ 93)))
    else none
  | line =>
    if 61 ∈ line then
      some (.entry ((line.takeWhile (· ≠ 61)).rdropWhile blank)
        ((line.drop ((line.takeWhile (· ≠ 61)).length + 1)).dropWhile blank))
    else none

def readLine (line : Bytes) : Option Line := readTrimmed (line.dropWhile blank)

/-- The entries before the first header, and the sections. -/
def sections : List Line → List (Bytes × Bytes) × List Section
  | [] => ([], [])
  | .comment :: ls => sections ls
  | .header name :: ls => ([], ⟨name, (sections ls).1⟩ :: (sections ls).2)
  | .entry key value :: ls => ((key, value) :: (sections ls).1, (sections ls).2)

/-- The sections of a text. Every line has to be one of the three, and every entry in a section. -/
def read (text : Bytes) : Option (List Section) :=
  ((text.splitOn 10).mapM readLine).bind fun ls =>
    if (sections ls).1 = [] then some (sections ls).2 else none

/-! ## Reading lines -/

theorem takeWhile_ne_append {b : UInt8} {s : Bytes} (h : b ∉ s) (rest : Bytes) :
    (s ++ b :: rest).takeWhile (· ≠ b) = s := by
  rw [List.takeWhile_append_of_pos fun c hc => by
    simpa using fun he : c = b => h (he ▸ hc)]
  simp

theorem readLine_header {name : Bytes} (h : 93 ∉ name) :
    readLine (91 :: (name ++ [93])) = some (.header name) := by
  have hline : (91 :: (name ++ [93]) : Bytes).dropWhile blank = 91 :: (name ++ [93]) := rfl
  rw [readLine, hline, readTrimmed, takeWhile_ne_append h, List.drop_left]
  exact if_pos rfl

theorem readLine_entry {indent key rest : Bytes} {c : UInt8} (hi : ∀ b ∈ indent, blank b = true)
    (hc : blank c = false ∧ c ≠ 35 ∧ c ≠ 91) (hkey : 61 ∉ c :: key) :
    readLine (indent ++ c :: key ++ 61 :: rest) =
      some (.entry ((c :: key).rdropWhile blank) (rest.dropWhile blank)) := by
  have hline : (indent ++ c :: key ++ 61 :: rest).dropWhile blank = c :: key ++ 61 :: rest := by
    rw [List.append_assoc, List.dropWhile_append_of_pos hi, List.cons_append,
      List.dropWhile_cons_of_neg (by rw [hc.1]; exact Bool.false_ne_true)]
  have htrimmed : readTrimmed (c :: key ++ 61 :: rest) =
      if 61 ∈ c :: key ++ 61 :: rest then
        some (.entry (((c :: key ++ 61 :: rest).takeWhile (· ≠ 61)).rdropWhile blank)
          (((c :: key ++ 61 :: rest).drop
            (((c :: key ++ 61 :: rest).takeWhile (· ≠ 61)).length + 1)).dropWhile blank))
      else none := by
    unfold readTrimmed
    split
    · cases ‹_ = _›
    · exact absurd (List.cons.inj ‹_›).1 hc.2.1
    · exact absurd (List.cons.inj ‹_›).1 hc.2.2
    · rfl
  rw [readLine, hline, htrimmed, if_pos (List.mem_append_right _ List.mem_cons_self),
    takeWhile_ne_append hkey, List.drop_length_add_append]
  rfl

/-- **A text of lines** is read line by line. -/
theorem read_lines {lines : List Bytes} (hne : lines ≠ []) (h : ∀ l ∈ lines, 10 ∉ l) :
    read (([10] : Bytes).intercalate lines) = (lines.mapM readLine).bind fun ls =>
      if (sections ls).1 = [] then some (sections ls).2 else none := by
  rw [read, List.splitOn_intercalate 10 h hne]

/-! ## What is read -/

/-- What a name can be. -/
def NameOk (name : Bytes) : Prop := 10 ∉ name ∧ 93 ∉ name

/-- What a value can be. -/
def ValueOk (value : Bytes) : Prop := 10 ∉ value ∧ ∀ b ∈ value.head?, blank b = false

instance (name : Bytes) : Decidable (NameOk name) := inferInstanceAs (Decidable (_ ∧ _))

instance (value : Bytes) : Decidable (ValueOk value) := inferInstanceAs (Decidable (_ ∧ _))

/-- A value without a blank in front is left as it is. -/
theorem ValueOk.chug {value : Bytes} (h : ValueOk value) : value.dropWhile blank = value := by
  cases value with
  | nil => rfl
  | cons b value =>
    rw [List.dropWhile_cons_of_neg]
    rw [h.2 b rfl]
    exact Bool.false_ne_true

/-- A line has no line break in it. -/
theorem not_mem_of_mem_splitOn {b : UInt8} : ∀ {text line : Bytes}, line ∈ text.splitOn b →
    b ∉ line
  | [], line, h => by
    rw [List.splitOn_nil, List.mem_singleton] at h
    rw [h]
    exact List.not_mem_nil
  | c :: text, line, h => by
    rw [List.splitOn_cons_eq_if_modifyHead] at h
    by_cases hc : (c == b) = true
    · rw [if_pos hc] at h
      rcases List.mem_cons.mp h with rfl | h
      · exact List.not_mem_nil
      · exact not_mem_of_mem_splitOn h
    · rw [if_neg hc] at h
      obtain ⟨l, ls, hls⟩ := List.exists_cons_of_ne_nil (List.splitOn_ne_nil b text)
      rw [hls, List.modifyHead_cons] at h
      have hrest : ∀ l' ∈ l :: ls, b ∉ l' := fun l' hl' => not_mem_of_mem_splitOn (hls ▸ hl')
      rcases List.mem_cons.mp h with rfl | h
      · exact List.not_mem_cons_of_ne_of_not_mem (fun he => hc (by simp [he]))
          (hrest l List.mem_cons_self)
      · exact hrest line (List.mem_cons_of_mem l h)

/-- A line is fine if its name or its value is. -/
def Line.Ok : Line → Prop
  | .comment => True
  | .header name => NameOk name
  | .entry _ value => ValueOk value

theorem readLine_ok {line : Bytes} (h : 10 ∉ line) {l : Line} (hl : readLine line = some l) :
    l.Ok := by
  have hmem : ∀ b ∈ line.dropWhile blank, b ∈ line := fun b hb =>
    (List.dropWhile_suffix blank).mem hb
  have h' : 10 ∉ line.dropWhile blank := fun hb => h (hmem 10 hb)
  unfold readLine at hl
  generalize line.dropWhile blank = trimmed at hl h'
  unfold readTrimmed at hl
  split at hl
  · obtain rfl := Option.some.inj hl
    trivial
  · obtain rfl := Option.some.inj hl
    trivial
  · rename_i rest
    obtain ⟨_, hl⟩ := Option.ite_none_right_eq_some.mp hl
    rw [← Option.some.inj hl]
    refine ⟨fun hb => h' ?_, fun hb => ?_⟩
    · exact List.mem_cons_of_mem 91 ((List.takeWhile_prefix _).mem hb)
    · simpa using List.mem_takeWhile_imp hb
  · obtain ⟨_, hl⟩ := Option.ite_none_right_eq_some.mp hl
    rw [← Option.some.inj hl]
    refine ⟨fun hb => h' (List.mem_of_mem_drop ((List.dropWhile_suffix _).mem hb)),
      fun b hb => ?_⟩
    have hfirst := List.head?_dropWhile_not blank
      (trimmed.drop ((trimmed.takeWhile (· ≠ 61)).length + 1))
    rw [Option.mem_def.mp hb] at hfirst
    exact hfirst

/-- The sections of fine lines are fine. -/
theorem sections_ok : ∀ {ls : List Line}, (∀ l ∈ ls, l.Ok) →
    (∀ kv ∈ (sections ls).1, ValueOk kv.2) ∧
      ∀ s ∈ (sections ls).2, NameOk s.name ∧ ∀ kv ∈ s.entries, ValueOk kv.2
  | [], _ => ⟨fun _ h => absurd h List.not_mem_nil, fun _ h => absurd h List.not_mem_nil⟩
  | l :: ls, h => by
    obtain ⟨hl, hls⟩ := List.forall_mem_cons.mp h
    obtain ⟨hentries, hsections⟩ := sections_ok hls
    cases l with
    | comment => exact ⟨hentries, hsections⟩
    | header name =>
      exact ⟨fun _ h => absurd h List.not_mem_nil,
        List.forall_mem_cons.mpr ⟨⟨hl, hentries⟩, hsections⟩⟩
    | entry key value => exact ⟨List.forall_mem_cons.mpr ⟨hl, hentries⟩, hsections⟩

theorem exists_of_mem_mapM {α β : Type} {f : α → Option β} : ∀ {xs : List α} {ys : List β},
    xs.mapM f = some ys → ∀ y ∈ ys, ∃ x ∈ xs, f x = some y
  | [], ys, h, y, hy => by
    obtain rfl := Option.some.inj h
    exact absurd hy List.not_mem_nil
  | x :: xs, ys, h, y, hy => by
    rw [List.mapM_cons] at h
    obtain ⟨y', hy', h⟩ := Option.bind_eq_some_iff.mp h
    obtain ⟨ys', hys', h⟩ := Option.bind_eq_some_iff.mp h
    obtain rfl := Option.some.inj h
    rcases List.mem_cons.mp hy with rfl | hy
    · exact ⟨x, List.mem_cons_self, hy'⟩
    · obtain ⟨x', hx', hf⟩ := exists_of_mem_mapM hys' y hy
      exact ⟨x', List.mem_cons_of_mem x hx', hf⟩

/-- **What is read** has no line breaks, no closing brackets in names, and no blanks in front of
values. -/
theorem mem_read {text : Bytes} {ss : List Section} (h : read text = some ss) :
    ∀ s ∈ ss, NameOk s.name ∧ ∀ kv ∈ s.entries, ValueOk kv.2 := by
  obtain ⟨ls, hls, h⟩ := Option.bind_eq_some_iff.mp h
  obtain ⟨_, h⟩ := Option.ite_none_right_eq_some.mp h
  rw [← Option.some.inj h]
  refine (sections_ok fun l hl => ?_).2
  obtain ⟨line, hline, hread⟩ := exists_of_mem_mapM hls l hl
  exact readLine_ok (not_mem_of_mem_splitOn hline) hread

end JcmController.Lib.KeyFile
