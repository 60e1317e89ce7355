import Mathlib.Data.List.Basic
import Mathlib.Data.List.GetD
import Mathlib.Data.List.Induction
import Mathlib.Tactic.Linarith

/-!
# Flat stores

A store is a function from addresses to values. `write` overwrites a run of addresses with a
list, `read` lists a run of addresses; both split over concatenation, so a transfer made piece by
piece is the transfer of the joined pieces. `latest` is the store a history of writes leaves,
defined address by address: the value of the last write that covers the address, else the
initial one.

Results:
* `write_append`, `read_add`: transfers compose.
* `foldl_write`, `latest_append`: running the writes of a history leaves `latest`, and histories
  compose.
* `ofList_splice`: splicing a list is `write` on the store the list stands for.
* `splice_splice`: adjacent splices are one.
-/

namespace JcmController.Lib.Flat

variable {α : Type*}

/-- The store `m` with `bs` written from address `a` on. -/
def write (m : Nat → α) (a : Nat) (bs : List α) (x : Nat) : α :=
  if h : a ≤ x ∧ x < a + bs.length then bs[x - a] else m x

/-- The `n` values from address `a` on. -/
def read (m : Nat → α) (a n : Nat) : List α := (List.range n).map fun k => m (a + k)

@[simp] theorem read_length (m : Nat → α) (a n : Nat) : (read m a n).length = n := by
  simp [read]

theorem write_inside {m : Nat → α} {a x : Nat} {bs : List α} (hx : a ≤ x)
    (hx' : x - a < bs.length) : write m a bs x = bs[x - a] := by
  unfold write
  rw [dif_pos ⟨hx, by omega⟩]

theorem write_outside {m : Nat → α} {a x : Nat} {bs : List α}
    (hx : ¬ (a ≤ x ∧ x < a + bs.length)) : write m a bs x = m x := by
  unfold write
  rw [dif_neg hx]

@[simp] theorem write_nil (m : Nat → α) (a : Nat) : write m a [] = m := by
  funext x
  exact write_outside (by simp)

/-- A write of a concatenation is the two writes one after the other. -/
theorem write_append (m : Nat → α) (a : Nat) (bs cs : List α) :
    write m a (bs ++ cs) = write (write m a bs) (a + bs.length) cs := by
  funext x
  by_cases h2 : a + bs.length ≤ x ∧ x < a + bs.length + cs.length
  · rw [write_inside h2.1 (by omega), write_inside (by omega) (by rw [List.length_append]; omega),
      List.getElem_append_right (by omega)]
    congr 1
    omega
  · rw [write_outside h2]
    by_cases h1 : a ≤ x ∧ x < a + bs.length
    · rw [write_inside h1.1 (by rw [List.length_append]; omega), write_inside h1.1 (by omega),
        List.getElem_append_left]
    · rw [write_outside h1, write_outside (by rw [List.length_append]; omega)]

/-- A read of a sum of lengths is the two reads one after the other. -/
theorem read_add (m : Nat → α) (a n k : Nat) :
    read m a (n + k) = read m a n ++ read m (a + n) k := by
  simp only [read, List.range_add, List.map_append, List.map_map]
  congr 1
  refine List.map_congr_left fun i _ => ?_
  simp only [Function.comp, Nat.add_assoc]

/-! ## Histories -/

/-- A write with its address. -/
abbrev Entry (α : Type*) := Nat × List α

/-- The entry writes address `x`. -/
def Entry.covers (e : Entry α) (x : Nat) : Bool := decide (e.1 ≤ x ∧ x < e.1 + e.2.length)

/-- The value most recently written at `x`, else the initial one. -/
def latest (m : Nat → α) (hist : List (Entry α)) (x : Nat) : α :=
  match hist.reverse.find? (Entry.covers · x) with
  | some e => write m e.1 e.2 x
  | none => m x

@[simp] theorem latest_nil (m : Nat → α) : latest m [] = m := rfl

theorem latest_snoc (m : Nat → α) (hist : List (Entry α)) (e : Entry α) :
    latest m (hist ++ [e]) = write (latest m hist) e.1 e.2 := by
  funext x
  unfold latest
  rw [List.reverse_append, List.reverse_singleton, List.singleton_append, List.find?_cons]
  by_cases h : e.1 ≤ x ∧ x < e.1 + e.2.length
  · rw [show Entry.covers e x = true from decide_eq_true h, write_inside h.1 (by omega)]
    exact write_inside h.1 (by omega)
  · rw [show Entry.covers e x = false from decide_eq_false h, write_outside h]

/-- **Running the writes of a history leaves the latest values.** -/
theorem foldl_write (m : Nat → α) (hist : List (Entry α)) :
    hist.foldl (fun m e => write m e.1 e.2) m = latest m hist := by
  induction hist using List.reverseRecOn with
  | nil => rfl
  | append_singleton hist e ih =>
    rw [List.foldl_append, ih, latest_snoc]
    rfl

theorem latest_append (m : Nat → α) (hist hist' : List (Entry α)) :
    latest m (hist ++ hist') = latest (latest m hist) hist' := by
  rw [← foldl_write, List.foldl_append, foldl_write, foldl_write]

/-! ## Stores held in a list -/

/-- The store a list stands for, `d` past its end. -/
def ofList (l : List α) (d : α) (x : Nat) : α := l.getD x d

/-- The list `l` with `bs` spliced in at `a`, the `memcpy` into a buffer. -/
def splice (l : List α) (a : Nat) (bs : List α) : List α :=
  l.take a ++ bs ++ l.drop (a + bs.length)

theorem splice_length {l bs : List α} {a : Nat} (h : a + bs.length ≤ l.length) :
    (splice l a bs).length = l.length := by
  simp only [splice, List.length_append, List.length_take, List.length_drop]
  omega

/-- Two runs spliced in one behind the other are one. -/
theorem splice_splice {l bs : List α} {a : Nat} (cs : List α) (h : a + bs.length ≤ l.length) :
    splice (splice l a bs) (a + bs.length) cs = splice l a (bs ++ cs) := by
  have hhead : (l.take a ++ bs).length = a + bs.length := by
    rw [List.length_append, List.length_take, Nat.min_eq_left (by omega)]
  have htake : (splice l a bs).take (a + bs.length) = l.take a ++ bs := by
    rw [splice, List.take_left' hhead]
  have hdrop : ∀ n, (splice l a bs).drop (a + bs.length + n) = l.drop (a + bs.length + n) := by
    intro n
    rw [splice, ← List.drop_drop, List.drop_left' hhead, List.drop_drop]
  rw [splice, htake, hdrop, splice, ← List.append_assoc (l.take a), List.length_append,
    Nat.add_assoc]

/-- In front of a splice nothing changes. -/
theorem take_splice {l : List α} {a n : Nat} (bs : List α) (ha : a ≤ l.length) (hn : n ≤ a) :
    (splice l a bs).take n = l.take n := by
  rw [splice, List.append_assoc, List.take_append_of_le_length (by rw [List.length_take]; omega),
    List.take_take, Nat.min_eq_left hn]

/-- What was spliced in is there. -/
theorem prefix_drop_splice {l : List α} {a : Nat} (bs : List α) (ha : a ≤ l.length) :
    bs <+: (splice l a bs).drop a := by
  have hhead : (l.take a).length = a := by rw [List.length_take, Nat.min_eq_left ha]
  rw [splice, List.append_assoc, List.drop_left' hhead]
  exact List.prefix_append _ _

/-- **Splicing is `write`** on the store a list stands for. -/
theorem ofList_splice {l bs : List α} {a : Nat} (d : α) (h : a + bs.length ≤ l.length) :
    ofList (splice l a bs) d = write (ofList l d) a bs := by
  funext x
  have hlen : (l.take a).length = a := by
    rw [List.length_take]
    omega
  unfold ofList splice
  by_cases h1 : a ≤ x ∧ x < a + bs.length
  · rw [write_inside h1.1 (by omega), List.append_assoc, List.getD_append_right _ _ _ _ (by omega),
      List.getD_append _ _ _ _ (by omega), List.getD_eq_getElem _ _ (by omega)]
    simp only [hlen]
  · rw [write_outside h1]
    by_cases h2 : x < a
    · rw [List.append_assoc, List.getD_append _ _ _ _ (by omega)]
      simp only [List.getD_eq_getElem?_getD, List.getElem?_take_of_lt h2]
    · rw [List.getD_append_right _ _ _ _ (by rw [List.length_append]; omega)]
      simp only [List.getD_eq_getElem?_getD, List.getElem?_drop, List.length_append, hlen]
      congr 2
      omega

/-- A list of known length is what its store holds. -/
theorem ofList_inj {l l' : List α} {d : α} (hlen : l.length = l'.length)
    (h : ofList l d = ofList l' d) : l = l' := by
  refine List.ext_getElem hlen fun k hk hk' => ?_
  have hat := congrFun h k
  unfold ofList at hat
  rwa [List.getD_eq_getElem _ _ hk, List.getD_eq_getElem _ _ hk'] at hat

/-- A run of a list is `read` on the store it stands for. -/
theorem take_drop_eq_read {l : List α} {a n : Nat} (d : α) (h : a + n ≤ l.length) :
    (l.drop a).take n = read (ofList l d) a n := by
  refine List.ext_getElem (by simp; omega) fun k hk _ => ?_
  rw [List.length_take] at hk
  simp only [read, ofList, List.getElem_take, List.getElem_drop, List.getElem_map,
    List.getElem_range]
  rw [List.getD_eq_getElem _ _ (by omega)]

end JcmController.Lib.Flat
