import Mathlib.Algebra.BigOperators.Ring.List
import Mathlib.Logic.Function.Basic
import JcmController.Lib.Concat
import JcmController.Lib.Flat

/-!
# Volumes

Stores laid end to end make one store, in which an address is the address of the member that
`Concat.locate` finds. A device is a step function from a state and a request to a state and an
answer; it behaves as a store where each request is answered from the store its state stands for,
and leaves the request's writes in it.

Results:
* `read_joined`, `joined_write`: a transfer inside one member is the same transfer of the volume.
* `joined_latest`, `read_window`: any writes of one member are writes of the volume, at its base.
* **`serveAll_latest`**: a device that behaves as a store on each request does so over every run:
  request `k` is answered from the latest values written by those before it.
-/

namespace JcmController.Lib.Volume

open JcmController.Lib.Concat JcmController.Lib.Flat

variable {α : Type*}

/-! ## Stores laid end to end -/

/-- A base in units `c` times smaller. -/
theorem base_map_mul (c : Nat) (l : List Nat) (i : Nat) :
    base (l.map fun n => c * n) i = c * base l i := by
  unfold base
  rw [← List.map_take, List.sum_map_mul_left, List.map_id']

/-- The store that members of these sizes make, `d` behind the last of them. -/
def joined (sizes : List Nat) (mems : Nat → Nat → α) (d : α) (x : Nat) : α :=
  match locate sizes x with
  | some (i, y) => mems i y
  | none => d

section Joined

variable {sizes : List Nat} {mems : Nat → Nat → α} {d : α} {i : Nat}

theorem joined_at (hi : i < sizes.length) {y : Nat} (hy : y < sizes[i]) :
    joined sizes mems d (base sizes i + y) = mems i y := by
  unfold joined
  rw [locate_eq_some_iff.mpr ⟨hi, hy, rfl⟩]

/-- **A run inside one member** is read there. -/
theorem read_joined (hi : i < sizes.length) {a n : Nat} (h : a + n ≤ sizes[i]) :
    Flat.read (joined sizes mems d) (base sizes i + a) n = Flat.read (mems i) a n := by
  unfold Flat.read
  refine List.map_congr_left fun k hk => ?_
  have hlt := List.mem_range.mp hk
  rw [Nat.add_assoc]
  exact joined_at hi (by omega)

/-- **A run written inside one member** is written in the volume. -/
theorem joined_write (hi : i < sizes.length) {a : Nat} {bs : List α}
    (h : a + bs.length ≤ sizes[i]) :
    joined sizes (Function.update mems i (write (mems i) a bs)) d =
      write (joined sizes mems d) (base sizes i + a) bs := by
  funext x
  have hend := end_le_sum sizes i hi
  cases hl : locate sizes x with
  | none =>
    have hx : ¬ (base sizes i + a ≤ x ∧ x < base sizes i + a + bs.length) := by
      rintro ⟨_, hlt⟩
      obtain ⟨p, hp⟩ := locate_isSome (show x < sizes.sum by omega)
      cases hl.symm.trans hp
    rw [write_outside hx]
    simp only [joined, hl]
  | some p =>
    obtain ⟨j, y⟩ := p
    obtain ⟨hj, hy, rfl⟩ := locate_eq_some_iff.mp hl
    rw [joined_at hj hy]
    by_cases hji : j = i
    · subst hji
      rw [Function.update_self]
      by_cases hin : a ≤ y ∧ y < a + bs.length
      · rw [write_inside hin.1 (by omega), write_inside (by omega) (by omega)]
        congr 1
        omega
      · rw [write_outside hin, write_outside (by omega), joined_at hj hy]
    · rw [Function.update_of_ne hji, write_outside, joined_at hj hy]
      -- the address has one owner
      rintro ⟨hlo, hhi⟩
      have howner : locate sizes (base sizes j + y) = some (i, base sizes j + y - base sizes i) :=
        locate_eq_some_iff.mpr ⟨hi, by omega, by omega⟩
      rw [hl] at howner
      exact hji (Prod.mk.inj (Option.some.inj howner)).1

/-- Writes, with each address `b` further on. -/
def shifted (b : Nat) (es : List (Entry α)) : List (Entry α) := es.map fun e => (b + e.1, e.2)

/-- **Writes inside one member** are the same writes of the volume, at its base. -/
theorem joined_latest (hi : i < sizes.length) (es : List (Entry α))
    (h : ∀ e ∈ es, e.1 + e.2.length ≤ sizes[i]) :
    joined sizes (Function.update mems i (latest (mems i) es)) d =
      latest (joined sizes mems d) (shifted (base sizes i) es) := by
  induction es using List.reverseRecOn with
  | nil => rw [latest_nil, Function.update_eq_self, shifted, List.map_nil, latest_nil]
  | append_singleton es e ih =>
    obtain ⟨hes, he⟩ := List.forall_mem_append.mp h
    have hfits := he e (List.mem_singleton_self e)
    have hwrite := @joined_write _ _ (Function.update mems i (latest (mems i) es)) d _ hi _ _ hfits
    rw [Function.update_self, Function.update_idem, ih hes] at hwrite
    have hshift : shifted (base sizes i) (es ++ [e]) =
        shifted (base sizes i) es ++ [(base sizes i + e.1, e.2)] := List.map_append
    rw [hshift, latest_snoc, latest_snoc]
    exact hwrite

/-- A member is a window of the volume. -/
theorem read_window (hi : i < sizes.length) {a n : Nat} (h : a + n ≤ sizes[i]) :
    Flat.read (fun y => joined sizes mems d (base sizes i + y)) a n = Flat.read (mems i) a n := by
  unfold Flat.read
  refine List.map_congr_left fun k hk => ?_
  have hlt := List.mem_range.mp hk
  exact joined_at hi (by omega)

end Joined

/-! ## Devices -/

variable {σ ι ο : Type*}

/-- A run of requests: the state it leaves, and the answers. -/
def serveAll (serve : σ → ι → σ × ο) : σ → List ι → σ × List ο
  | s, [] => (s, [])
  | s, i :: is =>
    let r := serve s i
    let t := serveAll serve r.1 is
    (t.1, r.2 :: t.2)

/-- The device, holding `abs s` in state `s`, behaves as a store on the requests with `C` from the
states with `Inv` on: `Ans` is what a store answers, `writes` what the request writes. -/
structure Behaves (serve : σ → ι → σ × ο) (abs : σ → Nat → α) (writes : ι → List (Entry α))
    (Ans : (Nat → α) → ι → ο → Prop) (Inv : σ → Prop) (C : ι → Prop) : Prop where
  keeps : ∀ s i, Inv s → C i → Inv (serve s i).1
  holds : ∀ s i, Inv s → C i → abs (serve s i).1 = latest (abs s) (writes i)
  answers : ∀ s i, Inv s → C i → Ans (abs s) i (serve s i).2

/-- **A run of a device that behaves as a store.** -/
theorem serveAll_latest {serve : σ → ι → σ × ο} {abs : σ → Nat → α}
    {writes : ι → List (Entry α)} {Ans : (Nat → α) → ι → ο → Prop} {Inv : σ → Prop}
    {C : ι → Prop} (h : Behaves serve abs writes Ans Inv C) :
    ∀ (is : List ι) (s : σ), Inv s → (∀ i ∈ is, C i) →
      (serveAll serve s is).2.length = is.length ∧ Inv (serveAll serve s is).1 ∧
      abs (serveAll serve s is).1 = latest (abs s) (is.flatMap writes) ∧
      ∀ k i o, is[k]? = some i → (serveAll serve s is).2[k]? = some o →
        Ans (latest (abs s) ((is.take k).flatMap writes)) i o
  | [], s, hs, _ => ⟨rfl, hs, rfl, fun _ _ _ hk => by cases hk⟩
  | i :: is, s, hs, hC => by
    obtain ⟨hi, his⟩ := List.forall_mem_cons.mp hC
    obtain ⟨hlen, hinv, habs, hans⟩ := serveAll_latest h is (serve s i).1 (h.keeps s i hs hi) his
    have hheld := h.holds s i hs hi
    refine ⟨congrArg (· + 1) hlen, hinv, ?_, fun k j o hj ho => ?_⟩
    · rw [List.flatMap_cons, latest_append, ← hheld]
      exact habs
    · cases k with
      | zero =>
        cases hj
        cases ho
        exact h.answers s i hs hi
      | succ k =>
        rw [List.take_succ_cons, List.flatMap_cons, latest_append, ← hheld]
        exact hans k j o hj ho

end JcmController.Lib.Volume
