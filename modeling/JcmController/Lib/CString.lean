import Mathlib.Data.List.Basic
import Mathlib.Data.List.TakeWhile
import Mathlib.Data.UInt

/-!
# C strings in buffers

A buffer is a list of bytes and a C string the bytes before the first NUL (`cstr`), which is what
`strcmp`, `strlen` and `%s` see. A `char *` that is only ever read as a string is given as those
bytes, and `strcmp` of two is equality. `overlay` is what `read` leaves in a buffer and `readTerm`
is the pair of statements `rtv = read(fd, buf, cap); buf[rtv] = 0`.

A string may also run on to the end of the buffer and past it; `stringIn` is the one that ends
inside.

Results:
* `cstr_readTerm_some`: after a read that returned bytes, the string in the buffer is the string
  in those bytes; nothing older shows.
* `readTerm_none`: after a failed read it is the string that was there before.
* `cstr_append_zero`: a string sent with its NUL is read as that string.
* `cstr_two_reads`: which two reads show two strings sent with their NULs.
* `stringIn_iff_beyond`: a string ends inside the buffer if it is the same whatever stands behind.
-/

namespace JcmController.Lib

/-- A string of bytes. -/
abbrev Bytes := List UInt8

/-- The bytes of a literal. -/
def ascii (s : String) : Bytes := s.toByteArray.data.toList

/-- The C string at the start of a buffer. -/
def cstr (buf : Bytes) : Bytes := buf.takeWhile (· ≠ 0)

/-- The string has no NUL in it. -/
def NulFree (s : Bytes) : Prop := ∀ b ∈ s, b ≠ 0

instance (s : Bytes) : Decidable (NulFree s) := inferInstanceAs (Decidable (∀ b ∈ s, b ≠ 0))

/-- `read` stores the bytes it returns at the start of the buffer. -/
def overlay (buf bs : Bytes) : Bytes := bs ++ buf.drop bs.length

/-- `read(fd, buf, cap)`. `none` is a failed read. -/
def readInto (cap : Nat) (buf : Bytes) : Option Bytes → Bytes
  | none => buf
  | some bs => overlay buf (bs.take cap)

/-- `rtv = read(fd, buf, cap); buf[rtv] = 0`. `none` is a failed read: its store is at index
`-1`, outside the buffer. A read that fills the buffer has its store at index `cap`, outside too:
the string then ends where the buffer does. -/
def readTerm (cap : Nat) (buf : Bytes) : Option Bytes → Bytes
  | none => buf
  | some bs => (overlay buf (bs.take cap)).set (bs.take cap).length 0

theorem cstr_eq_self {s : Bytes} (h : NulFree s) : cstr s = s :=
  List.takeWhile_eq_self_iff.mpr fun b hb => by simpa using h b hb

/-- A string that is followed by a NUL ends there. -/
theorem cstr_append_zero_cons {s : Bytes} (h : NulFree s) (t : Bytes) : cstr (s ++ 0 :: t) = s := by
  unfold cstr
  rw [List.takeWhile_append_of_pos fun b hb => by simpa using h b hb]
  simp

theorem cstr_append_zero {s : Bytes} (h : NulFree s) : cstr (s ++ [0]) = s :=
  cstr_append_zero_cons h []

theorem cstr_prefix_append (s t : Bytes) : cstr (s ++ 0 :: t) = cstr s := by
  induction s with
  | nil => simp [cstr]
  | cons b s ih =>
    unfold cstr at ih ⊢
    by_cases hb : b = 0
    · simp [hb]
    · simp only [List.cons_append, List.takeWhile_cons, ih]

theorem readTerm_none (cap : Nat) (buf : Bytes) : readTerm cap buf none = buf := rfl

/-- **A read shows nothing older than itself**: its terminator hides the rest of the buffer. -/
theorem cstr_readTerm_some (cap : Nat) (buf bs : Bytes) :
    cstr (readTerm cap buf (some bs)) = cstr (bs.take cap) := by
  show cstr ((bs.take cap ++ buf.drop (bs.take cap).length).set (bs.take cap).length 0) = _
  by_cases h : (bs.take cap).length < buf.length
  · obtain ⟨b, rest, hd⟩ : ∃ b rest, buf.drop (bs.take cap).length = b :: rest := by
      cases hd : buf.drop (bs.take cap).length with
      | nil =>
        have := List.drop_eq_nil_iff.mp hd
        omega
      | cons b rest => exact ⟨b, rest, rfl⟩
    rw [hd, List.set_append_right _ _ (Nat.le_refl _), Nat.sub_self, List.set_cons_zero,
      cstr_prefix_append]
  · rw [List.drop_eq_nil_of_le (by omega), List.append_nil, List.set_eq_of_length_le (by omega)]

/-! ## Strings that end in their buffer -/

/-- The C string at the start of a buffer, if it ends there. -/
def stringIn (buf : Bytes) : Option Bytes := if 0 ∈ buf then some (cstr buf) else none

theorem not_zero_mem_iff {s : Bytes} : 0 ∉ s ↔ NulFree s :=
  ⟨fun h _ hb he => h (he ▸ hb), fun h hmem => h 0 hmem rfl⟩

theorem nulFree_cstr (buf : Bytes) : NulFree (cstr buf) :=
  fun b hb => by simpa using List.mem_takeWhile_imp hb

theorem nulFree_of_stringIn {buf s : Bytes} (h : stringIn buf = some s) : NulFree s := by
  obtain ⟨_, hs⟩ := Option.ite_none_right_eq_some.mp h
  rw [← Option.some.inj hs]
  exact nulFree_cstr buf

theorem cstr_append_of_nulFree {s : Bytes} (h : NulFree s) (t : Bytes) :
    cstr (s ++ t) = s ++ cstr t :=
  List.takeWhile_append_of_pos fun b hb => by simpa using h b hb

theorem stringIn_of_zero_mem {s : Bytes} (h : 0 ∈ s) (t : Bytes) :
    stringIn (s ++ t) = some (cstr s) := by
  obtain ⟨u, v, rfl⟩ := List.append_of_mem h
  rw [stringIn, if_pos (List.mem_append_left t h), List.append_assoc, List.cons_append,
    cstr_prefix_append, cstr_prefix_append]

theorem stringIn_append {s : Bytes} (h : NulFree s) (t : Bytes) :
    stringIn (s ++ t) = (stringIn t).map (s ++ ·) := by
  unfold stringIn
  have hmem : 0 ∈ s ++ t ↔ 0 ∈ t := by
    rw [List.mem_append, or_iff_right (not_zero_mem_iff.mpr h)]
  by_cases ht : 0 ∈ t
  · rw [if_pos (hmem.mpr ht), if_pos ht, cstr_append_of_nulFree h]
    rfl
  · rw [if_neg (hmem.not.mpr ht), if_neg ht]
    rfl

/-- **A string ends in its buffer** if it is the same whatever stands behind. -/
theorem stringIn_iff_beyond {buf s : Bytes} :
    stringIn buf = some s ↔ ∀ beyond, cstr (buf ++ beyond) = s := by
  constructor
  · intro h beyond
    obtain ⟨hmem, hs⟩ := Option.ite_none_right_eq_some.mp h
    obtain ⟨u, v, rfl⟩ := List.append_of_mem hmem
    rw [← Option.some.inj hs, List.append_assoc, List.cons_append, cstr_prefix_append,
      cstr_prefix_append]
  · intro h
    have hbuf : cstr buf = s := by
      have := h []
      rwa [List.append_nil] at this
    by_cases hmem : 0 ∈ buf
    · rw [stringIn, if_pos hmem, hbuf]
    · -- a byte behind the buffer shows
      have hfree := not_zero_mem_iff.mp hmem
      have hone := h [1]
      rw [cstr_append_of_nulFree hfree, ← hbuf, cstr_eq_self hfree] at hone
      have := congrArg List.length hone
      simp [cstr] at this

/-! ## Two strings in one stream -/

theorem cstr_length_le (buf : Bytes) : (cstr buf).length ≤ buf.length :=
  (List.takeWhile_prefix _).length_le

/-- A piece of a stream that starts with a string and its NUL shows that string as soon as it
holds it. -/
theorem cstr_prefix_iff {s t r : Bytes} (hs : NulFree s) (hr : r <+: s ++ 0 :: t) :
    cstr r = s ↔ s.length ≤ r.length := by
  constructor
  · intro h
    exact (congrArg List.length h).symm.trans_le (cstr_length_le r)
  · intro h
    obtain ⟨x, rfl⟩ := List.prefix_of_prefix_length_le (List.prefix_append s (0 :: t)) hr h
    cases x with
    | nil =>
      rw [List.append_nil]
      exact cstr_eq_self hs
    | cons b x =>
      have hb : b = 0 := by
        have := List.prefix_append_right_inj s |>.mp hr
        exact (List.cons_prefix_cons.mp this).1
      rw [hb]
      exact cstr_append_zero_cons hs x

/-- A string that reads the same with a byte before it as with a NUL after it is empty. -/
theorem eq_nil_of_cons_eq {s : Bytes} {b : UInt8} (hs : NulFree s) (h : b :: s = s ++ [0]) :
    s = [] := by
  cases s with
  | nil => rfl
  | cons z s =>
    have hb : b = z := (List.cons.inj h).1
    have h0 : (0 : UInt8) ∈ b :: z :: s := h ▸ List.mem_append_right _ List.mem_cons_self
    rw [hb] at h0
    rcases List.mem_cons.mp h0 with h0 | h0
    · exact absurd h0.symm (hs z List.mem_cons_self)
    · exact absurd rfl (hs 0 h0)

/-- A string is read whole only from its first byte on. -/
theorem rest_of_string {s x r : Bytes} (hs : NulFree s) (hne : s ≠ []) (hr : x ++ r <+: s ++ [0])
    (hc : cstr r = s) : x = [] ∧ (r = s ++ [0] ∨ r = s) := by
  have hpre : s <+: r := by
    rw [← hc]
    exact List.takeWhile_prefix _
  cases x with
  | nil =>
    refine ⟨rfl, ?_⟩
    rcases List.prefix_concat_iff.mp hr with h | h
    · exact Or.inl h
    · exact Or.inr (h.eq_of_length_le hpre.length_le)
  | cons b x =>
    -- with a byte of the string gone, the read would have to end with its NUL
    have hle := hr.length_le
    have hle' := hpre.length_le
    simp only [List.length_append, List.length_cons, List.length_nil] at hle
    have hx : x = [] := List.length_eq_zero_iff.mp (by omega)
    subst hx
    have hr' : s = r := hpre.eq_of_length (by omega)
    rw [← hr'] at hr
    exact absurd (eq_nil_of_cons_eq hs (hr.eq_of_length (by simp))) hne

/-- **Two reads from a stream of two strings, each sent with its NUL**, show the two strings
exactly when the first is the first one and the second the second one, with or without its NUL. -/
theorem cstr_two_reads {s₁ s₂ r₁ r₂ : Bytes} (h₁ : NulFree s₁) (h₂ : NulFree s₂) (hne : s₂ ≠ [])
    (hr : r₁ ++ r₂ <+: (s₁ ++ [0]) ++ (s₂ ++ [0])) :
    (cstr r₁ = s₁ ∧ cstr r₂ = s₂) ↔ r₁ = s₁ ++ [0] ∧ (r₂ = s₂ ++ [0] ∨ r₂ = s₂) := by
  constructor
  · rintro ⟨hc₁, hc₂⟩
    have hstream : (s₁ ++ [0]) ++ (s₂ ++ [0]) = s₁ ++ 0 :: (s₂ ++ [0]) := by simp
    rw [hstream] at hr
    have hpre : r₁ <+: s₁ ++ 0 :: (s₂ ++ [0]) := (List.prefix_append r₁ r₂).trans hr
    have hlen := (cstr_prefix_iff h₁ hpre).mp hc₁
    obtain ⟨x, rfl⟩ := List.prefix_of_prefix_length_le (List.prefix_append s₁ _) hpre hlen
    rw [List.append_assoc] at hr
    replace hr := (List.prefix_append_right_inj s₁).mp hr
    cases x with
    | nil =>
      -- the NUL of the first string would start the second read
      cases r₂ with
      | nil => exact absurd hc₂.symm hne
      | cons b r₂ =>
        have hb : b = 0 := (List.cons_prefix_cons.mp hr).1
        rw [hb] at hc₂
        exact absurd hc₂.symm hne
    | cons b x =>
      obtain ⟨rfl, hrest⟩ := List.cons_prefix_cons.mp hr
      obtain ⟨rfl, hr₂⟩ := rest_of_string h₂ hne hrest hc₂
      exact ⟨rfl, hr₂⟩
  · rintro ⟨rfl, rfl | rfl⟩
    · exact ⟨cstr_append_zero h₁, cstr_append_zero h₂⟩
    · exact ⟨cstr_append_zero h₁, cstr_eq_self h₂⟩

end JcmController.Lib
