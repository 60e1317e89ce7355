import Mathlib.Logic.Function.Basic
import JcmController.Lib.Flat

/-!
# Transfers in flight

Several transfers go through one store at once. Each moves its bytes piece by piece, in order, and
the pieces of different transfers come in any order. Two transfers that are in flight at the same
time are `Apart`: both are reads, or they have no address in common.

* `Pending` ties the store to the writes that have ended: it holds their latest values, but for
  what the writes in flight have moved; and a read in flight has read the latest values.
* One rule for each thing that can happen: `Pending.begin`, `readOn`, `writeOn`, `endRead`,
  `endWrite`.

Results:
* **`Pending.endRead`**: a read has read the latest values at its end.
* **`Pending.quiet`**: with nothing in flight the store holds the latest values.
-/

namespace JcmController.Lib.InFlight

open JcmController.Lib.Flat

variable {α ι : Type*}

/-! ## Transfers -/

/-- A transfer, and how far it is: what a read has got, how many bytes a write has moved. -/
inductive Transfer (α : Type*) where
  | read (start len : Nat) (got : List α)
  | write (start : Nat) (bytes : List α) (moved : Nat)

namespace Transfer

/-- Its first address. -/
def start : Transfer α → Nat
  | read s _ _ => s
  | write s _ _ => s

/-- How many addresses it goes through. -/
def len : Transfer α → Nat
  | read _ n _ => n
  | write _ bs _ => bs.length

def isRead : Transfer α → Bool
  | read _ _ _ => true
  | write _ _ _ => false

/-- It has moved nothing. -/
def Fresh : Transfer α → Prop
  | read _ _ got => got = []
  | write _ _ k => k = 0

/-- Both are reads, or they have no address in common. -/
def Apart (t u : Transfer α) : Prop :=
  (t.isRead = true ∧ u.isRead = true) ∨ t.start + t.len ≤ u.start ∨ u.start + u.len ≤ t.start

/-- It has moved no more than its bytes, and has read the values of `m`. -/
def Sound (m : Nat → α) : Transfer α → Prop
  | read s n got => got.length ≤ n ∧ got = Flat.read m s got.length
  | write _ bs k => k ≤ bs.length

/-- A write that has moved a byte to `x`. -/
def Moved (x : Nat) : Transfer α → Prop
  | read _ _ _ => False
  | write s _ k => s ≤ x ∧ x < s + k

theorem Apart.symm {t u : Transfer α} (h : t.Apart u) : u.Apart t := by
  rcases h with ⟨ht, hu⟩ | h | h
  · exact Or.inl ⟨hu, ht⟩
  · exact Or.inr (Or.inr h)
  · exact Or.inr (Or.inl h)

end Transfer

open Transfer

/-! ## The store and what is in flight -/

/-- The store `mem` holds the latest values of `hist` over `m₀`, but for what the writes in flight
have moved. -/
structure Pending (m₀ : Nat → α) (hist : List (Entry α)) (mem : Nat → α)
    (flights : ι → Option (Transfer α)) : Prop where
  apart : ∀ i j t u, i ≠ j → flights i = some t → flights j = some u → t.Apart u
  sound : ∀ i t, flights i = some t → t.Sound (latest m₀ hist)
  moved : ∀ i s bs k, flights i = some (.write s bs k) →
    ∀ x, s ≤ x → x < s + k → mem x = write (latest m₀ hist) s bs x
  rest : ∀ x, (∀ i t, flights i = some t → ¬ t.Moved x) → mem x = latest m₀ hist x

variable {m₀ mem : Nat → α} {hist : List (Entry α)} {flights : ι → Option (Transfer α)}

/-- Nothing has happened. -/
theorem Pending.start (m₀ : Nat → α) : Pending m₀ [] m₀ (fun _ : ι => none) where
  apart _ _ _ _ _ h := nomatch h
  sound _ _ h := nomatch h
  moved _ _ _ _ h := nomatch h
  rest _ _ := rfl

/-- **With nothing in flight** the store holds the latest values. -/
theorem Pending.quiet (h : Pending m₀ hist mem flights) (hnone : ∀ i, flights i = none) :
    mem = latest m₀ hist := by
  funext x
  refine h.rest x fun i t ht => ?_
  rw [hnone i] at ht
  cases ht

/-- A read finds the latest values: no write in flight has an address in common with it. -/
theorem Pending.read_eq (h : Pending m₀ hist mem flights) {i : ι} {s n : Nat} {got : List α}
    (hi : flights i = some (.read s n got)) {a k : Nat} (ha : s ≤ a) (hk : a + k ≤ s + n) :
    Flat.read mem a k = Flat.read (latest m₀ hist) a k := by
  unfold Flat.read
  refine List.map_congr_left fun x hx => h.rest _ fun j t ht hmoved => ?_
  have hlt := List.mem_range.mp hx
  cases t with
  | read => exact hmoved
  | write s' bs k' =>
    have hij : i ≠ j := by
      rintro rfl
      rw [hi] at ht
      cases ht
    have hle := h.sound j _ ht
    obtain ⟨hlo, hhi⟩ := hmoved
    rcases h.apart i j _ _ hij hi ht with ⟨_, hread⟩ | hapart | hapart
    · cases hread
    all_goals
      simp only [Transfer.start, Transfer.len, Transfer.Sound] at hapart hle
      omega

/-! ## What can happen -/

section Steps

variable [DecidableEq ι]

theorem update_some_iff {i j : ι} {t' u : Transfer α} :
    Function.update flights i (some t') j = some u ↔
      (j = i ∧ u = t') ∨ (j ≠ i ∧ flights j = some u) := by
  by_cases hji : j = i
  · subst hji
    rw [Function.update_self, Option.some.injEq]
    exact ⟨fun h => Or.inl ⟨rfl, h.symm⟩,
      fun h => h.elim (fun h => h.2.symm) fun h => absurd rfl h.1⟩
  · rw [Function.update_of_ne hji]
    exact ⟨fun h => Or.inr ⟨hji, h⟩, fun h => h.elim (fun h => absurd h.1 hji) And.right⟩

theorem update_none_iff {i j : ι} {u : Transfer α} :
    Function.update flights i none j = some u ↔ j ≠ i ∧ flights j = some u := by
  by_cases hji : j = i
  · subst hji
    rw [Function.update_self]
    exact iff_of_false nofun fun h => h.1 rfl
  · rw [Function.update_of_ne hji, and_iff_right hji]

/-- A transfer takes the place of what `i` had in flight. -/
theorem Pending.apart_update (h : Pending m₀ hist mem flights) {i : ι} {t' : Transfer α}
    (happart : ∀ j u, j ≠ i → flights j = some u → t'.Apart u) :
    ∀ j k t u, j ≠ k → Function.update flights i (some t') j = some t →
      Function.update flights i (some t') k = some u → t.Apart u := by
  intro j k t u hjk hj hk
  rw [update_some_iff] at hj hk
  rcases hj with ⟨rfl, rfl⟩ | ⟨hji, hj⟩
  · rcases hk with ⟨rfl, -⟩ | ⟨hki, hk⟩
    · exact absurd rfl hjk
    · exact happart k u hki hk
  · rcases hk with ⟨rfl, rfl⟩ | ⟨hki, hk⟩
    · exact (happart j t hji hj).symm
    · exact h.apart j k t u hjk hj hk

/-- A transfer that has moved nothing takes the place of none, or of one that has moved nothing. -/
theorem Pending.put (h : Pending m₀ hist mem flights) {i : ι} {t' : Transfer α}
    (happart : ∀ j u, j ≠ i → flights j = some u → t'.Apart u)
    (hsound : t'.Sound (latest m₀ hist)) (hnew : ∀ x, ¬ t'.Moved x)
    (hold : ∀ t, flights i = some t → ∀ x, ¬ t.Moved x) :
    Pending m₀ hist mem (Function.update flights i (some t')) where
  apart := h.apart_update happart
  sound j u hu := by
    rcases update_some_iff.mp hu with ⟨-, rfl⟩ | ⟨-, hu⟩
    · exact hsound
    · exact h.sound j u hu
  moved j s bs k hj x hlo hhi := by
    rcases update_some_iff.mp hj with ⟨-, rfl⟩ | ⟨-, hj⟩
    · exact absurd ⟨hlo, hhi⟩ (hnew x)
    · exact h.moved j s bs k hj x hlo hhi
  rest x hx := by
    refine h.rest x fun j u hu => ?_
    by_cases hji : j = i
    · subst hji
      exact hold u hu x
    · exact hx j u (update_some_iff.mpr (Or.inr ⟨hji, hu⟩))

/-- **A transfer begins**, apart from those in flight. -/
theorem Pending.begin (h : Pending m₀ hist mem flights) {i : ι} {t' : Transfer α}
    (hi : flights i = none) (hfresh : t'.Fresh)
    (happart : ∀ j u, flights j = some u → t'.Apart u) :
    Pending m₀ hist mem (Function.update flights i (some t')) := by
  refine h.put (fun j u _ hu => happart j u hu) ?_ (fun x hmoved => ?_) fun t ht => ?_
  · cases t' with
    | read s n got =>
      cases hfresh
      exact ⟨Nat.zero_le n, rfl⟩
    | write s bs k =>
      cases hfresh
      exact Nat.zero_le _
  · cases t' with
    | read => exact hmoved
    | write s bs k =>
      cases hfresh
      exact absurd hmoved.2 (Nat.not_lt.mpr hmoved.1)
  · rw [hi] at ht
    cases ht

/-- **A read goes on** for `k` addresses. -/
theorem Pending.readOn (h : Pending m₀ hist mem flights) {i : ι} {s n k : Nat} {got : List α}
    (hi : flights i = some (.read s n got)) (hk : got.length + k ≤ n) :
    Pending m₀ hist mem (Function.update flights i
      (some (.read s n (got ++ Flat.read mem (s + got.length) k)))) := by
  have hgot := (h.sound i _ hi).2
  have happart : ∀ j u, j ≠ i → flights j = some u → (read s n got).Apart u :=
    fun j u hji hu => h.apart i j _ u hji.symm hi hu
  refine h.put happart ⟨?_, ?_⟩ (fun _ hm => hm) ?_
  · rw [List.length_append, read_length]
    exact hk
  · rw [List.length_append, read_length, read_add, ← hgot,
      h.read_eq hi (Nat.le_add_right s got.length) (by omega)]
  · intro t ht x hmoved
    cases hi.symm.trans ht
    exact hmoved

/-- **A write goes on** for `k` addresses. -/
theorem Pending.writeOn (h : Pending m₀ hist mem flights) {i : ι} {s m k : Nat} {bs : List α}
    (hi : flights i = some (.write s bs m)) (hk : m + k ≤ bs.length) :
    Pending m₀ hist (write mem (s + m) ((bs.drop m).take k))
      (Function.update flights i (some (.write s bs (m + k)))) where
  apart := by
    have happart : ∀ j u, j ≠ i → flights j = some u → (write s bs m).Apart u :=
      fun j u hji hu => h.apart i j _ u hji.symm hi hu
    exact h.apart_update happart
  sound j u hu := by
    rcases update_some_iff.mp hu with ⟨-, rfl⟩ | ⟨-, hu⟩
    · exact hk
    · exact h.sound j u hu
  moved j s' bs' k' hj x hlo hhi := by
    have hlen : ((bs.drop m).take k).length = k := by
      rw [List.length_take, List.length_drop]
      omega
    rcases update_some_iff.mp hj with ⟨-, ht⟩ | ⟨hji, hj⟩
    · cases ht
      rw [write_inside hlo (by omega)]
      by_cases hx : x < s + m
      · rw [write_outside (by omega), h.moved i s bs m hi x hlo hx, write_inside hlo (by omega)]
      · rw [write_inside (by omega) (by omega), List.getElem_take, List.getElem_drop]
        congr 1
        omega
    · rw [write_outside, h.moved j s' bs' k' hj x hlo hhi]
      -- the addresses of the other write are none of this one's
      have hsound := h.sound j _ hj
      rcases h.apart i j _ _ hji.symm hi hj with ⟨hread, _⟩ | hapart | hapart
      · cases hread
      all_goals
        simp only [Transfer.start, Transfer.len, Transfer.Sound] at hapart hsound
        omega
  rest x hx := by
    have hself := hx i _ (update_some_iff.mpr (Or.inl ⟨rfl, rfl⟩))
    have hlen : ((bs.drop m).take k).length = k := by
      rw [List.length_take, List.length_drop]
      omega
    rw [write_outside (fun hin => hself ⟨by omega, by omega⟩)]
    refine h.rest x fun j u hu hmoved => ?_
    by_cases hji : j = i
    · subst hji
      cases hi.symm.trans hu
      exact hself ⟨hmoved.1, Nat.lt_of_lt_of_le hmoved.2 (by omega)⟩
    · exact hx j u (update_some_iff.mpr (Or.inr ⟨hji, hu⟩)) hmoved

/-- **A read ends**: it has read the latest values. -/
theorem Pending.endRead (h : Pending m₀ hist mem flights) {i : ι} {s n : Nat} {got : List α}
    (hi : flights i = some (.read s n got)) (hn : got.length = n) :
    got = Flat.read (latest m₀ hist) s n ∧
      Pending m₀ hist mem (Function.update flights i none) := by
  refine ⟨?_, ?_, ?_, ?_, ?_⟩
  · have hgot := (h.sound i _ hi).2
    rwa [hn] at hgot
  · intro j k t u hjk hj hk
    exact h.apart j k t u hjk (update_none_iff.mp hj).2 (update_none_iff.mp hk).2
  · exact fun j u hu => h.sound j u (update_none_iff.mp hu).2
  · exact fun j s' bs k hj => h.moved j s' bs k (update_none_iff.mp hj).2
  · refine fun x hx => h.rest x fun j u hu => ?_
    by_cases hji : j = i
    · subst hji
      cases hi.symm.trans hu
      exact id
    · exact hx j u (update_none_iff.mpr ⟨hji, hu⟩)

/-- **A write ends**: it is the last one of the history. -/
theorem Pending.endWrite (h : Pending m₀ hist mem flights) {i : ι} {s : Nat} {bs : List α}
    (hi : flights i = some (.write s bs bs.length)) :
    Pending m₀ (hist ++ [(s, bs)]) mem (Function.update flights i none) where
  apart j k t u hjk hj hk :=
    h.apart j k t u hjk (update_none_iff.mp hj).2 (update_none_iff.mp hk).2
  sound j u hu := by
    obtain ⟨hji, hu⟩ := update_none_iff.mp hu
    have hsound := h.sound j u hu
    cases u with
    | write => exact hsound
    | read s' n got =>
      refine ⟨hsound.1, hsound.2.trans ?_⟩
      rw [latest_snoc]
      -- what the read has got lies beside the write
      refine List.map_congr_left fun x hx => (write_outside ?_).symm
      have hlt := List.mem_range.mp hx
      have hle := hsound.1
      rcases h.apart i j _ _ hji.symm hi hu with ⟨hread, _⟩ | hapart | hapart
      · cases hread
      all_goals
        simp only [Transfer.start, Transfer.len] at hapart ⊢
        omega
  moved j s' bs' k' hj x hlo hhi := by
    obtain ⟨-, hj⟩ := update_none_iff.mp hj
    have hle : k' ≤ bs'.length := h.sound j _ hj
    rw [h.moved j s' bs' k' hj x hlo hhi, write_inside hlo (by omega), write_inside hlo (by omega)]
  rest x hx := by
    rw [latest_snoc]
    by_cases hin : s ≤ x ∧ x < s + bs.length
    · exact h.moved i s bs _ hi x hin.1 hin.2
    · rw [write_outside hin]
      refine h.rest x fun j u hu => ?_
      by_cases hji : j = i
      · subst hji
        cases hi.symm.trans hu
        exact hin
      · exact hx j u (update_none_iff.mpr ⟨hji, hu⟩)

end Steps

end JcmController.Lib.InFlight
