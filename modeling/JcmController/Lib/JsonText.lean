import Mathlib.Algebra.Order.BigOperators.Group.List
import Mathlib.Algebra.Order.Group.Nat
import Mathlib.Data.List.Perm.Subperm
import JcmController.Lib.CString

/-!
# JSON texts

A reader of JSON texts, byte by byte. What it makes of a value is up to a `Builder`, which gets the
members of an object in the order of the text, repeated keys included; readers differ in a few
things, which are in a `Dialect`.

* A string is read in two steps: `literal` finds its end, the first quote that no backslash stands
  before, and `pieces` and `encode` resolve the escapes.
* `value`, `members` and `elements` have a `fuel` for their depth; twice the length of the text is
  enough, as two of them in a row take at least one byte.

Results:
* `pieces_weight`, `string_eq_some`: a string is no longer than its literal, and as long only where
  the literal is `Plain`.
* `string_plain`: a plain string is read as it stands.
* `members_string`: an object's next member with a plain key and a string.
* `parse_printed`: an object of plain strings is read as it stands.
* `members_length`: the members of an object are not longer than its text.
-/

namespace JcmController.Lib.JsonText

/-- The quote. -/
def quote : UInt8 := 34

/-- The backslash. -/
def backslash : UInt8 := 92

/-- What readers differ in. -/
structure Dialect where
  /-- The bytes that a string may hold as they are, the quote and the backslash apart. -/
  raw : UInt8 → Bool
  raw_ascii : ∀ b, 32 ≤ b → b < 128 → raw b = true
  /-- What may follow the value. -/
  trailing : Bytes → Bool
  trailing_nil : trailing [] = true

/-- The values that a reader makes. -/
structure Builder (J : Type) where
  null : J
  bool : Bool → J
  num : Bytes → J
  str : Bytes → J
  arr : List J → J
  obj : List (Bytes × J) → J

/-! ## Strings -/

/-- The literal up to its closing quote, and what follows. -/
def literal : Bytes → Option (Bytes × Bytes)
  | [] => none
  | b :: bs =>
    if b = quote then some ([], bs)
    else if b = backslash then
      match bs with
      | [] => none
      | c :: bs => (literal bs).map fun r => (b :: c :: r.1, r.2)
    else (literal bs).map fun r => (b :: r.1, r.2)

/-- A literal consists of bytes, and of `\u` escapes with their code unit. -/
inductive Piece where
  | byte (b : UInt8)
  | unit (n : UInt16)

/-- The escapes of one letter. -/
def escape (c : UInt8) : Option UInt8 :=
  [(34, 34), (92, 92), (47, 47), (98, 8), (102, 12), (110, 10), (114, 13), (116, 9)].lookup c

def hexDigit (b : UInt8) : Option UInt16 :=
  if 48 ≤ b ∧ b ≤ 57 then some (b - 48).toUInt16
  else if 65 ≤ b ∧ b ≤ 70 then some (b - 55).toUInt16
  else if 97 ≤ b ∧ b ≤ 102 then some (b - 87).toUInt16
  else none

def hex4 (h₁ h₂ h₃ h₄ : UInt8) : Option UInt16 := do
  let n₁ ← hexDigit h₁
  let n₂ ← hexDigit h₂
  let n₃ ← hexDigit h₃
  let n₄ ← hexDigit h₄
  return ((n₁ * 16 + n₂) * 16 + n₃) * 16 + n₄

/-- The pieces of a literal, if it is one. -/
def pieces (d : Dialect) : Bytes → Option (List Piece)
  | [] => some []
  | b :: bs =>
    if b = backslash then
      match bs with
      | [] => none
      | c :: bs =>
        if c = 117 then
          match bs with
          | h₁ :: h₂ :: h₃ :: h₄ :: bs =>
            (hex4 h₁ h₂ h₃ h₄).bind fun n => (pieces d bs).map (.unit n :: ·)
          | _ => none
        else (escape c).bind fun x => (pieces d bs).map (.byte x :: ·)
    else if b ≠ quote ∧ d.raw b = true then (pieces d bs).map (.byte b :: ·)
    else none

/-- A code point in UTF-8. -/
def utf8 (n : Nat) : Bytes :=
  if n < 0x80 then [n.toUInt8]
  else if n < 0x800 then [(0xC0 + n / 0x40).toUInt8, (0x80 + n % 0x40).toUInt8]
  else if n < 0x10000 then
    [(0xE0 + n / 0x1000).toUInt8, (0x80 + n / 0x40 % 0x40).toUInt8, (0x80 + n % 0x40).toUInt8]
  else
    [(0xF0 + n / 0x40000).toUInt8, (0x80 + n / 0x1000 % 0x40).toUInt8,
      (0x80 + n / 0x40 % 0x40).toUInt8, (0x80 + n % 0x40).toUInt8]

def isHigh (n : UInt16) : Bool := decide (0xD800 ≤ n ∧ n < 0xDC00)

def isLow (n : UInt16) : Bool := decide (0xDC00 ≤ n ∧ n < 0xE000)

/-- A code unit on its own. Half of a pair becomes U+FFFD. -/
def lone (n : UInt16) : Bytes := if isHigh n || isLow n then utf8 0xFFFD else utf8 n.toNat

/-- The string of these pieces. Two code units may be one code point. -/
def encode : List Piece → Bytes
  | [] => []
  | .byte b :: ps => b :: encode ps
  | .unit n :: .unit m :: ps =>
    if isHigh n && isLow m then
      utf8 (0x10000 + (n.toNat - 0xD800) * 0x400 + (m.toNat - 0xDC00)) ++ encode ps
    else lone n ++ encode (.unit m :: ps)
  | .unit n :: ps => lone n ++ encode ps

/-- The string behind an opening quote, and what follows. -/
def string (d : Dialect) (text : Bytes) : Option (Bytes × Bytes) :=
  (literal text).bind fun r => (pieces d r.1).map fun ps => (encode ps, r.2)

/-! ## Values -/

/-- The text behind the space at its start. -/
def skipWs (text : Bytes) : Bytes :=
  text.dropWhile fun b => b = 32 || b = 9 || b = 10 || b = 13

/-- The text behind this byte. -/
def expect (b : UInt8) (text : Bytes) : Option Bytes :=
  match skipWs text with
  | [] => none
  | c :: rest => if c = b then some rest else none

def isDigit (b : UInt8) : Bool := decide (48 ≤ b ∧ b ≤ 57)

/-- The text behind one digit or more. -/
def digits : Bytes → Option Bytes
  | [] => none
  | b :: rest => if isDigit b then some (rest.dropWhile isDigit) else none

def intPart : Bytes → Option Bytes
  | [] => none
  | b :: rest => if b = 48 then some rest else digits (b :: rest)

def fracPart : Bytes → Option Bytes
  | [] => some []
  | b :: rest => if b = 46 then digits rest else some (b :: rest)

/-- The text behind a sign among these. -/
def skipSign (signs : List UInt8) : Bytes → Bytes
  | [] => []
  | b :: rest => if b ∈ signs then rest else b :: rest

def expPart : Bytes → Option Bytes
  | [] => some []
  | b :: rest => if b = 101 ∨ b = 69 then digits (skipSign [43, 45] rest) else some (b :: rest)

/-- A number, and what follows. -/
def number (text : Bytes) : Option (Bytes × Bytes) :=
  (((intPart (skipSign [45] text)).bind fracPart).bind expPart).map fun rest =>
    (text.take (text.length - rest.length), rest)

section Reader

variable {J : Type} (d : Dialect) (B : Builder J)

/-- A value that is neither a string nor holds others. -/
def scalar (text : Bytes) : Option (J × Bytes) :=
  if ascii "true" <+: text then some (B.bool true, text.drop 4)
  else if ascii "false" <+: text then some (B.bool false, text.drop 5)
  else if ascii "null" <+: text then some (B.null, text.drop 4)
  else (number text).map fun r => (B.num r.1, r.2)

mutual

/-- A value, and what follows. -/
def value : Nat → Bytes → Option (J × Bytes)
  | 0, _ => none
  | fuel + 1, text =>
    match skipWs text with
    | [] => none
    | b :: rest =>
      if b = quote then (string d rest).map fun r => (B.str r.1, r.2)
      else if b = 123 then
        match expect 125 rest with
        | some rest => some (B.obj [], rest)
        | none => (members fuel rest).map fun r => (B.obj r.1, r.2)
      else if b = 91 then
        match expect 93 rest with
        | some rest => some (B.arr [], rest)
        | none => (elements fuel rest).map fun r => (B.arr r.1, r.2)
      else scalar B (b :: rest)

/-- The members up to the end of an object, and what follows. -/
def members : Nat → Bytes → Option (List (Bytes × J) × Bytes)
  | 0, _ => none
  | fuel + 1, text =>
    (expect quote text).bind fun text =>
      (string d text).bind fun key =>
        (expect 58 key.2).bind fun text =>
          (value fuel text).bind fun v =>
            match expect 44 v.2 with
            | some text => (members fuel text).map fun r => ((key.1, v.1) :: r.1, r.2)
            | none => (expect 125 v.2).map fun text => ([(key.1, v.1)], text)

/-- The elements up to the end of an array, and what follows. -/
def elements : Nat → Bytes → Option (List J × Bytes)
  | 0, _ => none
  | fuel + 1, text =>
    (value fuel text).bind fun v =>
      match expect 44 v.2 with
      | some text => (elements fuel text).map fun r => (v.1 :: r.1, r.2)
      | none => (expect 93 v.2).map fun text => ([v.1], text)

end

/-- The value of a text. -/
def parse (text : Bytes) : Option J :=
  (value d B (2 * text.length + 1) text).bind fun r => if d.trailing r.2 then some r.1 else none

end Reader

/-! ## How long a string is -/

/-- Bytes that stand for themselves in a literal. -/
def Plain (d : Dialect) (s : Bytes) : Prop :=
  ∀ b ∈ s, b ≠ quote ∧ b ≠ backslash ∧ d.raw b = true

instance (d : Dialect) (s : Bytes) : Decidable (Plain d s) :=
  inferInstanceAs (Decidable (∀ b ∈ s, _))

/-- Printable ASCII without the quote and the backslash is plain to every reader. -/
theorem plain_of_ascii (d : Dialect) {s : Bytes}
    (h : ∀ b ∈ s, b ≠ quote ∧ b ≠ backslash ∧ 32 ≤ b ∧ b < 128) : Plain d s :=
  fun b hb => ⟨(h b hb).1, (h b hb).2.1, d.raw_ascii b (h b hb).2.2.1 (h b hb).2.2.2⟩

theorem literal_eq_some {text lit rest : Bytes} (h : literal text = some (lit, rest)) :
    text = lit ++ quote :: rest := by
  fun_induction literal text generalizing lit with
  | case1 => cases h
  | case2 bs =>
    obtain ⟨rfl, rfl⟩ := Prod.mk.inj (Option.some.inj h)
    rfl
  | case3 => cases h
  | case4 _ c bs ih =>
    obtain ⟨⟨lit', rest'⟩, hr, heq⟩ := Option.map_eq_some_iff.mp h
    obtain ⟨rfl, rfl⟩ := Prod.mk.inj heq
    rw [ih hr]
    rfl
  | case5 b bs _ _ ih =>
    obtain ⟨⟨lit', rest'⟩, hr, heq⟩ := Option.map_eq_some_iff.mp h
    obtain ⟨rfl, rfl⟩ := Prod.mk.inj heq
    rw [ih hr]
    rfl

/-- What a piece may add to the string. -/
def Piece.weight : Piece → Nat
  | .byte _ => 1
  | .unit _ => 3

theorem utf8_length_le (n : Nat) : (utf8 n).length ≤ 4 := by
  unfold utf8
  split_ifs <;> simp

theorem lone_length_le (n : UInt16) : (lone n).length ≤ 3 := by
  have hsmall : ∀ k, k < 0x10000 → (utf8 k).length ≤ 3 := by
    intro k hk
    unfold utf8
    rw [if_pos hk]
    split_ifs <;> simp
  unfold lone
  split_ifs
  · exact hsmall _ (by decide)
  · exact hsmall _ n.toNat_lt

theorem encode_length (ps : List Piece) : (encode ps).length ≤ (ps.map Piece.weight).sum := by
  fun_induction encode ps with
  | case1 => exact Nat.le_refl _
  | case2 b ps ih =>
    simp only [List.map_cons, List.sum_cons, List.length_cons, Piece.weight]
    omega
  | case3 n m ps _ ih =>
    have := utf8_length_le (0x10000 + (n.toNat - 0xD800) * 0x400 + (m.toNat - 0xDC00))
    simp only [List.map_cons, List.sum_cons, List.length_append, Piece.weight]
    omega
  | case4 n m ps _ ih =>
    have := lone_length_le n
    simp only [List.map_cons, List.sum_cons, List.length_append, Piece.weight] at ih ⊢
    omega
  | case5 n ps _ ih =>
    have := lone_length_le n
    simp only [List.map_cons, List.sum_cons, List.length_append, Piece.weight]
    omega

/-- The pieces weigh no more than the literal, and the same only if it is plain. -/
theorem pieces_weight {d : Dialect} {lit : Bytes} {ps : List Piece} (h : pieces d lit = some ps) :
    (ps.map Piece.weight).sum ≤ lit.length ∧
      (lit.length ≤ (ps.map Piece.weight).sum → Plain d lit) := by
  fun_induction pieces d lit generalizing ps with
  | case1 =>
    obtain rfl := Option.some.inj h
    exact ⟨Nat.le_refl _, fun _ _ hb => absurd hb List.not_mem_nil⟩
  | case2 => cases h
  | case3 h₁ h₂ h₃ h₄ bs ih =>
    obtain ⟨n, _, hps⟩ := Option.bind_eq_some_iff.mp h
    obtain ⟨ps', hps', rfl⟩ := Option.map_eq_some_iff.mp hps
    have hle := (ih hps').1
    simp only [List.map_cons, List.sum_cons, List.length_cons, Piece.weight]
    exact ⟨by omega, fun hge => by omega⟩
  | case4 => cases h
  | case5 c bs _ ih =>
    obtain ⟨x, _, hps⟩ := Option.bind_eq_some_iff.mp h
    obtain ⟨ps', hps', rfl⟩ := Option.map_eq_some_iff.mp hps
    have hle := (ih hps').1
    simp only [List.map_cons, List.sum_cons, List.length_cons, Piece.weight]
    exact ⟨by omega, fun hge => by omega⟩
  | case6 b bs hback hraw ih =>
    obtain ⟨ps', hps', rfl⟩ := Option.map_eq_some_iff.mp h
    obtain ⟨hle, hplain⟩ := ih hps'
    simp only [List.map_cons, List.sum_cons, List.length_cons, Piece.weight]
    refine ⟨by omega, fun hge => ?_⟩
    exact List.forall_mem_cons.mpr ⟨⟨hraw.1, hback, hraw.2⟩, hplain (by omega)⟩
  | case7 => cases h

theorem pieces_cons {d : Dialect} {b : UInt8} (hback : b ≠ backslash)
    (hraw : b ≠ quote ∧ d.raw b = true) (bs : Bytes) :
    pieces d (b :: bs) = (pieces d bs).map (.byte b :: ·) := by
  rw [pieces.eq_def]
  simp only [if_neg hback, if_pos hraw]

theorem pieces_plain {d : Dialect} {s : Bytes} (h : Plain d s) :
    pieces d s = some (s.map .byte) := by
  induction s with
  | nil => rfl
  | cons b s ih =>
    obtain ⟨⟨hquote, hback, hraw⟩, hs⟩ := List.forall_mem_cons.mp h
    rw [pieces_cons hback ⟨hquote, hraw⟩, ih hs]
    rfl

theorem encode_bytes (s : Bytes) : encode (s.map .byte) = s := by
  induction s with
  | nil => rfl
  | cons b s ih =>
    rw [List.map_cons, encode, ih]

theorem literal_quote (bs : Bytes) : literal (quote :: bs) = some ([], bs) := by
  rw [literal.eq_def]
  exact if_pos rfl

theorem literal_cons {b : UInt8} (hquote : b ≠ quote) (hback : b ≠ backslash) (bs : Bytes) :
    literal (b :: bs) = (literal bs).map fun r => (b :: r.1, r.2) := by
  rw [literal.eq_def]
  simp only [if_neg hquote, if_neg hback]

theorem literal_plain {d : Dialect} {s : Bytes} (h : Plain d s) (rest : Bytes) :
    literal (s ++ quote :: rest) = some (s, rest) := by
  induction s with
  | nil => exact literal_quote rest
  | cons b s ih =>
    obtain ⟨⟨hquote, hback, _⟩, hs⟩ := List.forall_mem_cons.mp h
    rw [List.cons_append, literal_cons hquote hback, ih hs]
    rfl

/-- **A plain string is read as it stands.** -/
theorem string_plain {d : Dialect} {s : Bytes} (h : Plain d s) (rest : Bytes) :
    string d (s ++ quote :: rest) = some (s, rest) := by
  rw [string, literal_plain h, Option.bind_some, pieces_plain h, Option.map_some, encode_bytes]

/-- **A string is no longer than its literal**, and as long only if it stands there as it is. -/
theorem string_eq_some {d : Dialect} {text s rest : Bytes} (h : string d text = some (s, rest)) :
    ∃ lit, text = lit ++ quote :: rest ∧ s.length ≤ lit.length ∧
      (lit.length ≤ s.length → s = lit ∧ Plain d lit) := by
  obtain ⟨⟨lit, rest'⟩, hlit, h⟩ := Option.bind_eq_some_iff.mp h
  obtain ⟨ps, hps, heq⟩ := Option.map_eq_some_iff.mp h
  obtain ⟨rfl, rfl⟩ := Prod.mk.inj heq
  have hlen := encode_length ps
  obtain ⟨hle, hplain⟩ : _ ≤ lit.length ∧ (lit.length ≤ _ → Plain d lit) := pieces_weight hps
  refine ⟨lit, literal_eq_some hlit, Nat.le_trans hlen hle, fun hge => ?_⟩
  have hp := hplain (Nat.le_trans hge hlen)
  obtain rfl := Option.some.inj (hps.symm.trans (pieces_plain hp))
  exact ⟨encode_bytes lit, hp⟩

/-! ## How long a value is -/

theorem skipWs_length_le (text : Bytes) : (skipWs text).length ≤ text.length :=
  List.length_dropWhile_le _ _

theorem expect_length {b : UInt8} {text rest : Bytes} (h : expect b text = some rest) :
    rest.length + 1 ≤ text.length := by
  have hle := skipWs_length_le text
  unfold expect at h
  cases hs : skipWs text with
  | nil =>
    rw [hs] at h
    cases h
  | cons c rest' =>
    simp only [hs] at h
    rw [hs, List.length_cons] at hle
    obtain ⟨_, h⟩ := Option.ite_none_right_eq_some.mp h
    rwa [← Option.some.inj h]

theorem digits_length {text rest : Bytes} (h : digits text = some rest) :
    rest.length + 1 ≤ text.length := by
  cases text with
  | nil => cases h
  | cons b text =>
    obtain ⟨_, h⟩ := Option.ite_none_right_eq_some.mp h
    have := List.length_dropWhile_le isDigit text
    rw [← Option.some.inj h, List.length_cons]
    omega

theorem intPart_length {text rest : Bytes} (h : intPart text = some rest) :
    rest.length + 1 ≤ text.length := by
  cases text with
  | nil => cases h
  | cons b text =>
    simp only [intPart] at h
    by_cases hb : b = 48
    · rw [if_pos hb] at h
      rw [← Option.some.inj h]
      exact Nat.le_refl _
    · rw [if_neg hb] at h
      exact digits_length h

theorem skipSign_length_le (signs : List UInt8) (text : Bytes) :
    (skipSign signs text).length ≤ text.length := by
  cases text with
  | nil => exact Nat.le_refl _
  | cons b text =>
    simp only [skipSign]
    split_ifs
    · exact Nat.le_succ _
    · exact Nat.le_refl _

theorem fracPart_length_le {text rest : Bytes} (h : fracPart text = some rest) :
    rest.length ≤ text.length := by
  cases text with
  | nil =>
    rw [← Option.some.inj h]
  | cons b text =>
    simp only [fracPart] at h
    by_cases hb : b = 46
    · rw [if_pos hb] at h
      have := digits_length h
      rw [List.length_cons]
      omega
    · rw [if_neg hb] at h
      rw [← Option.some.inj h]

theorem expPart_length_le {text rest : Bytes} (h : expPart text = some rest) :
    rest.length ≤ text.length := by
  cases text with
  | nil =>
    rw [← Option.some.inj h]
  | cons b text =>
    simp only [expPart] at h
    by_cases hb : b = 101 ∨ b = 69
    · rw [if_pos hb] at h
      have := digits_length h
      have := skipSign_length_le [43, 45] text
      rw [List.length_cons]
      omega
    · rw [if_neg hb] at h
      rw [← Option.some.inj h]

theorem number_length {text : Bytes} {r : Bytes × Bytes} (h : number text = some r) :
    r.2.length + 1 ≤ text.length := by
  obtain ⟨rest, hrest, rfl⟩ := Option.map_eq_some_iff.mp h
  obtain ⟨rest₂, hrest₂, hexp⟩ := Option.bind_eq_some_iff.mp hrest
  obtain ⟨rest₁, hint, hfrac⟩ := Option.bind_eq_some_iff.mp hrest₂
  have := expPart_length_le hexp
  have := fracPart_length_le hfrac
  have := intPart_length hint
  have := skipSign_length_le [45] text
  show rest.length + 1 ≤ text.length
  omega

section Length

variable {J : Type} {d : Dialect} {B : Builder J}

/-- Every value takes as many bytes as `cost` says: a string its own and the quotes. -/
structure Costs (B : Builder J) (cost : J → Nat) : Prop where
  null : cost B.null ≤ 1
  bool : ∀ b, cost (B.bool b) ≤ 1
  num : ∀ t, cost (B.num t) ≤ 1
  str : ∀ s, cost (B.str s) = s.length + 2
  arr : ∀ vs, cost (B.arr vs) ≤ 1
  obj : ∀ ms, cost (B.obj ms) ≤ 1

/-- What a member takes, with the colon and the comma or brace behind it. -/
def memberCost (cost : J → Nat) (m : Bytes × J) : Nat := m.1.length + cost m.2 + 4

theorem scalar_length {cost : J → Nat} (hcost : Costs B cost) {text : Bytes} {r : J × Bytes}
    (h : scalar B text = some r) : r.2.length + cost r.1 ≤ text.length := by
  have hword : ∀ (w : Bytes) (j : J), w <+: text → 1 ≤ w.length → cost j ≤ 1 →
      (text.drop w.length).length + cost j ≤ text.length := by
    intro w j hpre hw hj
    have := hpre.length_le
    rw [List.length_drop]
    omega
  unfold scalar at h
  by_cases htrue : ascii "true" <+: text
  · rw [if_pos htrue] at h
    obtain rfl := Option.some.inj h
    exact hword (ascii "true") _ htrue (by decide) (hcost.bool true)
  · rw [if_neg htrue] at h
    by_cases hfalse : ascii "false" <+: text
    · rw [if_pos hfalse] at h
      obtain rfl := Option.some.inj h
      exact hword (ascii "false") _ hfalse (by decide) (hcost.bool false)
    · rw [if_neg hfalse] at h
      by_cases hnull : ascii "null" <+: text
      · rw [if_pos hnull] at h
        obtain rfl := Option.some.inj h
        exact hword (ascii "null") _ hnull (by decide) hcost.null
      · rw [if_neg hnull] at h
        obtain ⟨q, hq, rfl⟩ := Option.map_eq_some_iff.mp h
        exact Nat.le_trans (Nat.add_le_add_left (hcost.num q.1) _) (number_length hq)

theorem string_length {text : Bytes} {r : Bytes × Bytes} (h : string d text = some r) :
    r.2.length + r.1.length + 1 ≤ text.length := by
  obtain ⟨lit, rfl, hle, _⟩ := string_eq_some h
  rw [List.length_append, List.length_cons]
  omega

/-- The bytes that values take, with this fuel. -/
def ValueFits (d : Dialect) (B : Builder J) (cost : J → Nat) (fuel : Nat) : Prop :=
  ∀ text r, value d B fuel text = some r → r.2.length + cost r.1 ≤ text.length

/-- Those that members take. -/
def MembersFit (d : Dialect) (B : Builder J) (cost : J → Nat) (fuel : Nat) : Prop :=
  ∀ text r, members d B fuel text = some r →
    r.2.length + (r.1.map (memberCost cost)).sum ≤ text.length

/-- Those that elements take. -/
def ElementsFit (d : Dialect) (B : Builder J) (fuel : Nat) : Prop :=
  ∀ text r, elements d B fuel text = some r → r.2.length + 1 ≤ text.length

theorem value_fits {cost : J → Nat} (hcost : Costs B cost) {fuel : Nat}
    (hmembers : MembersFit d B cost fuel) (helements : ElementsFit d B fuel) :
    ValueFits d B cost (fuel + 1) := by
  intro text r h
  have hws := skipWs_length_le text
  unfold value at h
  cases hs : skipWs text with
  | nil =>
    rw [hs] at h
    cases h
  | cons b rest =>
    simp only [hs] at h
    rw [hs, List.length_cons] at hws
    by_cases hquote : b = quote
    · rw [if_pos hquote] at h
      obtain ⟨q, hq, rfl⟩ := Option.map_eq_some_iff.mp h
      have := string_length hq
      have := hcost.str q.1
      show q.2.length + cost (B.str q.1) ≤ text.length
      omega
    rw [if_neg hquote] at h
    by_cases hobj : b = 123
    · rw [if_pos hobj] at h
      cases hbrace : expect 125 rest with
      | some text₁ =>
        simp only [hbrace] at h
        obtain rfl := Option.some.inj h
        have := expect_length hbrace
        have := hcost.obj []
        show text₁.length + cost (B.obj []) ≤ text.length
        omega
      | none =>
        simp only [hbrace] at h
        obtain ⟨q, hq, rfl⟩ := Option.map_eq_some_iff.mp h
        have := hmembers _ _ hq
        have := hcost.obj q.1
        show q.2.length + cost (B.obj q.1) ≤ text.length
        omega
    rw [if_neg hobj] at h
    by_cases harr : b = 91
    · rw [if_pos harr] at h
      cases hbracket : expect 93 rest with
      | some text₁ =>
        simp only [hbracket] at h
        obtain rfl := Option.some.inj h
        have := expect_length hbracket
        have := hcost.arr []
        show text₁.length + cost (B.arr []) ≤ text.length
        omega
      | none =>
        simp only [hbracket] at h
        obtain ⟨q, hq, rfl⟩ := Option.map_eq_some_iff.mp h
        have := helements _ _ hq
        have := hcost.arr q.1
        show q.2.length + cost (B.arr q.1) ≤ text.length
        omega
    · rw [if_neg harr] at h
      have := scalar_length hcost h
      rw [List.length_cons] at this
      omega

theorem members_fit {cost : J → Nat} {fuel : Nat} (hvalue : ValueFits d B cost fuel)
    (hmembers : MembersFit d B cost fuel) : MembersFit d B cost (fuel + 1) := by
  intro text r h
  obtain ⟨text₁, hquote, h₁⟩ := Option.bind_eq_some_iff.mp h
  obtain ⟨key, hkey, h₂⟩ := Option.bind_eq_some_iff.mp h₁
  obtain ⟨text₂, hcolon, h₃⟩ := Option.bind_eq_some_iff.mp h₂
  obtain ⟨v, hv, h₄⟩ := Option.bind_eq_some_iff.mp h₃
  have := expect_length hquote
  have := string_length hkey
  have := expect_length hcolon
  have := hvalue _ _ hv
  cases hcomma : expect 44 v.2 with
  | some text₃ =>
    simp only [hcomma] at h₄
    obtain ⟨q, hq, rfl⟩ := Option.map_eq_some_iff.mp h₄
    have := expect_length hcomma
    have := hmembers _ _ hq
    simp only [List.map_cons, List.sum_cons, memberCost]
    omega
  | none =>
    simp only [hcomma] at h₄
    obtain ⟨text₃, hbrace, rfl⟩ := Option.map_eq_some_iff.mp h₄
    have := expect_length hbrace
    simp only [List.map_cons, List.map_nil, List.sum_cons, List.sum_nil, memberCost]
    omega

theorem elements_fit {cost : J → Nat} {fuel : Nat} (hvalue : ValueFits d B cost fuel)
    (helements : ElementsFit d B fuel) : ElementsFit d B (fuel + 1) := by
  intro text r h
  obtain ⟨v, hv, h₁⟩ := Option.bind_eq_some_iff.mp h
  have := hvalue _ _ hv
  cases hcomma : expect 44 v.2 with
  | some text₁ =>
    simp only [hcomma] at h₁
    obtain ⟨q, hq, rfl⟩ := Option.map_eq_some_iff.mp h₁
    have := expect_length hcomma
    have := helements _ _ hq
    show q.2.length + 1 ≤ text.length
    omega
  | none =>
    simp only [hcomma] at h₁
    obtain ⟨text₁, hbracket, rfl⟩ := Option.map_eq_some_iff.mp h₁
    have := expect_length hbracket
    show text₁.length + 1 ≤ text.length
    omega

/-- **The members of an object are no longer than its text**, and so are values and elements. -/
theorem reader_fits {cost : J → Nat} (hcost : Costs B cost) (fuel : Nat) :
    ValueFits d B cost fuel ∧ MembersFit d B cost fuel ∧ ElementsFit d B fuel := by
  induction fuel with
  | zero =>
    refine ⟨fun _ _ h => ?_, fun _ _ h => ?_, fun _ _ h => ?_⟩
    · cases h
    · cases h
    · cases h
  | succ fuel ih =>
    obtain ⟨hvalue, hmembers, helements⟩ := ih
    exact ⟨value_fits hcost hmembers helements, members_fit hvalue hmembers,
      elements_fit hvalue helements⟩

/-- Some of the members of an object are no longer than its text. -/
theorem members_length {cost : J → Nat} (hcost : Costs B cost) {fuel : Nat} {text : Bytes}
    {r : List (Bytes × J) × Bytes} (h : members d B fuel text = some r)
    {part : List (Bytes × J)} (hnodup : part.Nodup) (hsub : part ⊆ r.1) :
    (part.map (memberCost cost)).sum ≤ text.length := by
  obtain ⟨l, hperm, hl⟩ := hnodup.subperm hsub
  have hsum : (l.map (memberCost cost)).sum ≤ (r.1.map (memberCost cost)).sum :=
    (hl.map _).sum_le_sum fun _ _ => Nat.zero_le _
  have hfits := (reader_fits hcost fuel).2.1 _ _ h
  rw [← (hperm.map _).sum_nat]
  omega

end Length

/-! ## Objects of strings -/

section Objects

variable {J : Type} {d : Dialect} {B : Builder J}

/-- A member whose value is a string, in the text before `rest`. -/
def field (m : Bytes × Bytes) (rest : Bytes) : Bytes :=
  32 :: quote :: (m.1 ++ quote :: 58 :: 32 :: quote :: (m.2 ++ quote :: rest))

/-- The members up to the end of the object. -/
def fields : List (Bytes × Bytes) → Bytes
  | [] => [125]
  | m :: ms => field m (if ms = [] then [125] else 44 :: fields ms)

/-- An object of strings, every one written as it is. -/
def object (ms : List (Bytes × Bytes)) : Bytes := 123 :: fields ms

/-- The value of a text that starts with an object that is not empty. -/
theorem value_members (fuel : Nat) {text : Bytes} (h : expect 125 text = none) :
    value d B (fuel + 1) (123 :: text) =
      (members d B fuel text).map fun r => (B.obj r.1, r.2) := by
  have hopen : skipWs (123 :: text) = 123 :: text := rfl
  rw [value, hopen]
  simp only [h]
  rfl

/-- The value of a text that starts with an object. -/
theorem value_object (fuel : Nat) (text : Bytes) :
    value d B (fuel + 1) (123 :: 32 :: quote :: text) =
      (members d B fuel (32 :: quote :: text)).map fun r => (B.obj r.1, r.2) :=
  value_members fuel rfl

/-- **The next member**, where its key is plain and its value a string, with any space between
them. -/
theorem members_string {key : Bytes} (hkey : Plain d key) (fuel : Nat)
    {text colon val rest : Bytes} (hopen : expect quote text = some (key ++ quote :: colon))
    (hcolon : expect 58 colon = some val) (hval : skipWs val = quote :: rest) :
    members d B (fuel + 2) text =
      (string d rest).bind fun r =>
        match expect 44 r.2 with
        | some rest => (members d B (fuel + 1) rest).map fun q => ((key, B.str r.1) :: q.1, q.2)
        | none => (expect 125 r.2).map fun rest => ([(key, B.str r.1)], rest) := by
  have hvalue : value d B (fuel + 1) val = (string d rest).map fun r => (B.str r.1, r.2) := by
    rw [value, hval]
    rfl
  rw [members, hopen, Option.bind_some, string_plain hkey, Option.bind_some, hcolon,
    Option.bind_some, hvalue]
  cases string d rest <;> rfl

/-- The next member as `field` writes it. -/
theorem members_field {key : Bytes} (hkey : Plain d key) (fuel : Nat) (text : Bytes) :
    members d B (fuel + 2) (32 :: quote :: (key ++ quote :: 58 :: 32 :: quote :: text)) =
      (string d text).bind fun r =>
        match expect 44 r.2 with
        | some rest => (members d B (fuel + 1) rest).map fun q => ((key, B.str r.1) :: q.1, q.2)
        | none => (expect 125 r.2).map fun rest => ([(key, B.str r.1)], rest) :=
  members_string hkey fuel rfl rfl rfl

/-- An object of plain strings. -/
def AllPlain (d : Dialect) (ms : List (Bytes × Bytes)) : Prop :=
  ∀ m ∈ ms, Plain d m.1 ∧ Plain d m.2

/-- A plain member and the others behind it. -/
theorem members_next {m : Bytes × Bytes} (hkey : Plain d m.1) (hvalue : Plain d m.2) (fuel : Nat)
    (rest : Bytes) :
    members d B (fuel + 2) (field m (44 :: rest)) =
      (members d B (fuel + 1) rest).map fun q => ((m.1, B.str m.2) :: q.1, q.2) := by
  rw [field, members_field hkey, string_plain hvalue, Option.bind_some]
  rfl

theorem members_fields {ms : List (Bytes × Bytes)} (hplain : AllPlain d ms) (hne : ms ≠ []) :
    ∀ fuel, ms.length + 1 ≤ fuel →
      members d B fuel (fields ms) = some (ms.map fun m => (m.1, B.str m.2), []) := by
  induction ms with
  | nil => exact absurd rfl hne
  | cons m ms ih =>
    intro fuel hfuel
    obtain ⟨⟨hkey, hvalue⟩, hrest⟩ := List.forall_mem_cons.mp hplain
    obtain ⟨fuel, rfl⟩ : ∃ k, fuel = k + 2 := ⟨fuel - 2, by rw [List.length_cons] at hfuel; omega⟩
    by_cases hms : ms = []
    · rw [fields, if_pos hms, hms, field, members_field hkey, string_plain hvalue, Option.bind_some]
      rfl
    · rw [List.length_cons] at hfuel
      rw [fields, if_neg hms, members_next hkey hvalue, ih hrest hms (fuel + 1) (by omega)]
      rfl

theorem length_le_fields (ms : List (Bytes × Bytes)) : ms.length ≤ (fields ms).length := by
  induction ms with
  | nil => exact Nat.zero_le _
  | cons m ms ih =>
    simp only [fields, field, List.length_cons, List.length_append]
    split_ifs with hms
    · rw [hms]
      exact Nat.le_add_left _ _
    · rw [List.length_cons]
      omega

/-- **An object of plain strings is read as it stands.** -/
theorem parse_printed {ms : List (Bytes × Bytes)} (hplain : AllPlain d ms) (hne : ms ≠ []) :
    parse d B (object ms) = some (B.obj (ms.map fun m => (m.1, B.str m.2))) := by
  have hmembers := members_fields (B := B) hplain hne (2 * (object ms).length) (by
    have := length_le_fields ms
    rw [object, List.length_cons]
    omega)
  have hvalue : value d B (2 * (object ms).length + 1) (object ms) =
      (members d B (2 * (object ms).length) (fields ms)).map fun r => (B.obj r.1, r.2) := by
    obtain ⟨m, ms', rfl⟩ := List.exists_cons_of_ne_nil hne
    exact value_object _ _
  rw [parse, hvalue, hmembers, Option.map_some, Option.bind_some, if_pos d.trailing_nil]

/-- A string that is read back from its own bytes and a quote, with no more than two bytes of what
follows left out, stands there as it is. -/
theorem string_exact {s tail rest : Bytes} (h : string d (s ++ quote :: tail) = some (s, rest))
    (hlen : tail.length ≤ rest.length + 2) (htail : ∀ i ≤ 1, tail[i]? ≠ some quote) :
    Plain d s := by
  obtain ⟨lit, htext, hle, hplain⟩ := string_eq_some h
  have hsum := congrArg List.length htext
  simp only [List.length_append, List.length_cons] at hsum
  have hat : (lit ++ quote :: rest)[lit.length]? = some quote := by
    rw [List.getElem?_append_right (Nat.le_refl _), Nat.sub_self]
    rfl
  rw [← htext, List.getElem?_append_right hle] at hat
  have hsame : lit.length ≤ s.length := by
    -- a longer literal would end at a quote in what follows
    by_contra hgt
    obtain ⟨i, hi⟩ : ∃ i, lit.length - s.length = i + 1 := ⟨lit.length - s.length - 1, by omega⟩
    rw [hi, List.getElem?_cons_succ] at hat
    exact htail i (by omega) hat
  obtain ⟨heq, hp⟩ := hplain hsame
  rwa [heq]

/-- **A field that is read back stands there as it is**, where the others take what follows but for
three bytes: if it were read from further on there would be no room for them. -/
theorem field_exact {cost : J → Nat} (hcost : Costs B cost) (hstr : Function.Injective B.str)
    {key s tail : Bytes} (hkey : Plain d key) {fuel : Nat} {r : List (Bytes × J) × Bytes}
    (h : members d B (fuel + 2) (field (key, s) tail) = some r) (hs : (key, B.str s) ∈ r.1)
    (others : List (Bytes × J)) (hnodup : others.Nodup) (hothers : others ⊆ r.1)
    (hne : ∀ m ∈ others, m.1 ≠ key)
    (hlen : tail.length ≤ (others.map (memberCost cost)).sum + 3)
    (htail : ∀ i ≤ 1, tail[i]? ≠ some quote) : Plain d s := by
  rw [field, members_field hkey] at h
  obtain ⟨⟨s', rest⟩, hstring, h⟩ := Option.bind_eq_some_iff.mp h
  have hlong := string_length hstring
  simp only [List.length_append, List.length_cons] at hlong
  -- it is the string here, or a later member with the same key
  cases hcomma : expect 44 rest with
  | some text =>
    simp only [hcomma] at h
    obtain ⟨q, hq, rfl⟩ := Option.map_eq_some_iff.mp h
    have hrest := expect_length hcomma
    have hlater : others ⊆ q.1 := by
      intro m hm
      rcases List.mem_cons.mp (hothers hm) with rfl | hm'
      · exact absurd rfl (hne _ hm)
      · exact hm'
    rcases List.mem_cons.mp hs with heq | hs
    · obtain rfl := hstr (Prod.mk.inj heq).2
      have := members_length hcost hq hnodup hlater
      exact string_exact hstring (by omega) htail
    · have hnew : (key, B.str s) ∉ others := fun hm => hne _ hm rfl
      have := members_length hcost hq (List.nodup_cons.mpr ⟨hnew, hnodup⟩)
        (List.cons_subset.mpr ⟨hs, hlater⟩)
      simp only [List.map_cons, List.sum_cons, memberCost, hcost.str] at this
      omega
  | none =>
    simp only [hcomma] at h
    obtain ⟨text, hbrace, rfl⟩ := Option.map_eq_some_iff.mp h
    have hrest := expect_length hbrace
    have hnone : others = [] := by
      refine List.eq_nil_iff_forall_not_mem.mpr fun m hm => hne m hm ?_
      rw [List.mem_singleton.mp (hothers hm)]
    rw [hnone, List.map_nil, List.sum_nil] at hlen
    obtain rfl := hstr (Prod.mk.inj (List.mem_singleton.mp hs)).2
    exact string_exact hstring (by omega) htail

end Objects

end JcmController.Lib.JsonText
