import Mathlib.Data.List.Induction
import Mathlib.Data.List.Nodup
import Mathlib.Data.List.Perm.Basic

/-!
# Objects: entries in insertion order, one for each key

`Assoc` keeps its entries in the order in which their keys came in. `add` of a key that is there
replaces the value in place; `del` then `add` moves the key to the end.

Results:
* `get?_add`, `get?_del_add`: what a later look-up finds.
* `keys_add_of_not_mem`, `keys_del_add`: a new key comes last; replacing a value keeps the keys
  up to order.
* `get?_ofList_concat`: of entries added one after the other, the last of equal keys counts.
-/

namespace JcmController.Lib

/-- An object. -/
@[ext]
structure Assoc (κ α : Type) where
  entries : List (κ × α)
  nodup : (entries.map Prod.fst).Nodup

namespace Assoc

variable {κ α : Type}

/-- The keys, in order. -/
def keys (m : Assoc κ α) : List κ := m.entries.map Prod.fst

/-- No entries. -/
def empty : Assoc κ α := ⟨[], List.nodup_nil⟩

variable [DecidableEq κ]

/-- The value of a key. -/
def get? (m : Assoc κ α) (k : κ) : Option α := (m.entries.find? fun e => e.1 = k).map Prod.snd

/-- Without the entry of a key. -/
def del (m : Assoc κ α) (k : κ) : Assoc κ α where
  entries := m.entries.filter fun e => e.1 ≠ k
  nodup := m.nodup.sublist (List.filter_sublist.map Prod.fst)

theorem map_replace (es : List (κ × α)) (k : κ) (v : α) :
    (es.map fun e => if e.1 = k then (k, v) else e).map Prod.fst = es.map Prod.fst := by
  rw [List.map_map]
  refine List.map_congr_left fun e _ => ?_
  by_cases he : e.1 = k
  · simp [he]
  · simp [he]

/-- With this value at a key. -/
def add (m : Assoc κ α) (k : κ) (v : α) : Assoc κ α :=
  if h : k ∈ m.keys then
    ⟨m.entries.map fun e => if e.1 = k then (k, v) else e, by
      rw [map_replace]
      exact m.nodup⟩
  else
    ⟨m.entries ++ [(k, v)], by
      rw [List.map_append]
      refine List.Nodup.append m.nodup (List.nodup_singleton k) ?_
      exact List.disjoint_singleton.mpr h⟩

/-! ## Keys -/

theorem keys_add_of_not_mem {m : Assoc κ α} {k : κ} (h : k ∉ m.keys) (v : α) :
    (m.add k v).keys = m.keys ++ [k] := by
  unfold add
  rw [dif_neg h]
  exact List.map_append

theorem keys_del (m : Assoc κ α) (k : κ) : (m.del k).keys = m.keys.filter (· ≠ k) := by
  unfold keys del
  rw [List.filter_map]
  rfl

theorem not_mem_keys_del (m : Assoc κ α) (k : κ) : k ∉ (m.del k).keys := by
  rw [keys_del]
  simp

/-- Deleting a key and adding it again keeps the keys, up to order. -/
theorem keys_del_add {m : Assoc κ α} {k : κ} (h : k ∈ m.keys) (v : α) :
    ((m.del k).add k v).keys.Perm m.keys := by
  rw [keys_add_of_not_mem (not_mem_keys_del m k), keys_del]
  have hnodup : m.keys.Nodup := m.nodup
  have herase : m.keys.filter (· ≠ k) = m.keys.erase k := by
    rw [hnodup.erase_eq_filter]
    exact List.filter_congr fun x _ => by simp [bne, beq_eq_decide]
  rw [herase]
  exact (List.perm_append_singleton k _).trans (List.perm_cons_erase h).symm

/-! ## Look-ups -/

theorem get?_eq_none_iff {m : Assoc κ α} {k : κ} : m.get? k = none ↔ k ∉ m.keys := by
  unfold get? keys
  rw [Option.map_eq_none_iff, List.find?_eq_none, List.mem_map]
  constructor
  · rintro h ⟨e, he, rfl⟩
    exact h e he (decide_eq_true rfl)
  · intro h e he hk
    exact h ⟨e, he, of_decide_eq_true hk⟩

theorem mem_keys_of_get? {m : Assoc κ α} {k : κ} {v : α} (h : m.get? k = some v) :
    k ∈ m.keys := by
  by_contra hk
  rw [get?_eq_none_iff.mpr hk] at h
  cases h

theorem get?_empty (k : κ) : (empty : Assoc κ α).get? k = none := rfl

theorem find?_filter_ne (es : List (κ × α)) {k k' : κ} (h : k' ≠ k) :
    (es.filter fun e => e.1 ≠ k).find? (fun e => e.1 = k') = es.find? fun e => e.1 = k' := by
  rw [List.find?_filter]
  refine congrArg (fun p => List.find? p es) (funext fun e => ?_)
  by_cases he : e.1 = k'
  · simp [he, h]
  · simp [he]

theorem get?_del_ne (m : Assoc κ α) {k k' : κ} (h : k' ≠ k) : (m.del k).get? k' = m.get? k' :=
  congrArg (Option.map Prod.snd) (find?_filter_ne m.entries h)

theorem find?_replace (es : List (κ × α)) (k k' : κ) (v : α) :
    (es.map fun e => if e.1 = k then (k, v) else e).find? (fun e => e.1 = k') =
      (es.find? fun e => e.1 = k').map fun e => if e.1 = k then (k, v) else e := by
  rw [List.find?_map]
  refine congrArg (fun p => (List.find? p es).map _) (funext fun e => ?_)
  by_cases he : e.1 = k
  · simp [he]
  · simp [he]

/-- **Look-up after `add`.** -/
theorem get?_add (m : Assoc κ α) (k k' : κ) (v : α) :
    (m.add k v).get? k' = if k' = k then some v else m.get? k' := by
  by_cases hk : k ∈ m.keys
  · have hadd : (m.add k v).get? k' =
        ((m.entries.find? fun e => e.1 = k').map fun e =>
          if e.1 = k then (k, v) else e).map Prod.snd := by
      unfold add get?
      rw [dif_pos hk]
      exact congrArg (Option.map Prod.snd) (find?_replace m.entries k k' v)
    rw [hadd]
    cases hf : m.entries.find? fun e => e.1 = k' with
    | none =>
      have hnone : m.get? k' = none := by rw [get?, hf, Option.map_none]
      have hne : k' ≠ k := fun he => get?_eq_none_iff.mp hnone (he ▸ hk)
      rw [if_neg hne, hnone]
      rfl
    | some e =>
      have he : e.1 = k' := by simpa using List.find?_some hf
      by_cases hkk : k' = k
      · simp [he, hkk]
      · simp [he, hkk, get?, hf]
  · have hadd : (m.add k v).get? k' =
        ((m.entries ++ [(k, v)]).find? fun e => e.1 = k').map Prod.snd := by
      unfold add get?
      rw [dif_neg hk]
    rw [hadd, List.find?_append]
    by_cases hkk : k' = k
    · have hnone : m.entries.find? (fun e => e.1 = k') = none :=
        Option.map_eq_none_iff.mp (get?_eq_none_iff.mpr (hkk ▸ hk))
      rw [hnone, if_pos hkk]
      simp [hkk]
    · have hlast : [(k, v)].find? (fun e => e.1 = k') = none := by simp [Ne.symm hkk]
      rw [hlast, Option.or_none, if_neg hkk]
      rfl

/-- Deleting a key and adding it again changes its value only. -/
theorem get?_del_add (m : Assoc κ α) (k k' : κ) (v : α) :
    ((m.del k).add k v).get? k' = if k' = k then some v else m.get? k' := by
  rw [get?_add]
  by_cases hkk : k' = k
  · rw [if_pos hkk, if_pos hkk]
  · rw [if_neg hkk, if_neg hkk, get?_del_ne m hkk]

/-! ## Entries one after the other -/

/-- The object that gets these entries in turn. -/
def ofList (es : List (κ × α)) : Assoc κ α := es.foldl (fun m e => m.add e.1 e.2) empty

/-- **The last of equal keys counts.** -/
theorem get?_ofList_concat (es : List (κ × α)) (e : κ × α) (k : κ) :
    (ofList (es ++ [e])).get? k = if k = e.1 then some e.2 else (ofList es).get? k := by
  rw [ofList, List.foldl_append]
  exact get?_add _ _ _ _

theorem mem_of_get?_ofList {es : List (κ × α)} {k : κ} {v : α}
    (h : (ofList es).get? k = some v) : (k, v) ∈ es := by
  induction es using List.reverseRecOn with
  | nil => cases h
  | append_singleton es e ih =>
    rw [get?_ofList_concat] at h
    by_cases hk : k = e.1
    · rw [if_pos hk] at h
      obtain rfl := Option.some.inj h
      rw [hk]
      exact List.mem_append_right _ List.mem_cons_self
    · rw [if_neg hk] at h
      exact List.mem_append_left _ (ih h)

/-- Where no key comes twice every entry is found. -/
theorem get?_ofList_of_mem {es : List (κ × α)} (hnodup : (es.map Prod.fst).Nodup) {k : κ} {v : α}
    (h : (k, v) ∈ es) : (ofList es).get? k = some v := by
  induction es using List.reverseRecOn with
  | nil => cases h
  | append_singleton es e ih =>
    rw [List.map_append] at hnodup
    rw [get?_ofList_concat]
    rcases List.mem_append.mp h with h | h
    · have hne : k ≠ e.1 :=
        List.disjoint_of_nodup_append hnodup (List.mem_map_of_mem h) ∘ List.mem_singleton.mpr
      rw [if_neg hne]
      exact ih hnodup.of_append_left h
    · rw [← List.mem_singleton.mp h, if_pos rfl]

end Assoc

end JcmController.Lib
