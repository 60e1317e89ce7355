import Mathlib.Data.List.Nodup
import Mathlib.Logic.Function.Basic

/-!
# Circular lists in memory (`struct list_head`)

Nodes are linked by two pointers each, `next` and `prev`. The list at `head` is the nodes that a
walk along `next` passes on its way back to `head`. `listAddTail` and `listDel` are the stores of
`list_add_tail` and `list_del`, in their order; `LIST_POISON1` and `LIST_POISON2`, which `list_del`
leaves in a node that is out of the list, are left out.

Results:
* `walk_nil_iff`: `list_empty`.
* `listAddTail_pending`, `listDel_pending`: the stores change the list at the last of them, into one
  with the node at its end, or without its first node.
* `Pending.step`, `Pending.last`: how to go through the stores one by one.
-/

namespace JcmController.Lib.ListHead

variable {ν : Type}

/-- The two pointers of every node. -/
structure Links (ν : Type) where
  next : ν → ν
  prev : ν → ν

/-- A store to one of them. -/
inductive Store (ν : Type) where
  | next (a b : ν)
  | prev (a b : ν)
  deriving DecidableEq, Repr

/-- `list_add_tail(new, head)` -/
def listAddTail (m : Links ν) (new head : ν) : List (Store ν) :=
  [.prev head new, .next new head, .prev new (m.prev head), .next (m.prev head) new]

/-- `list_del(entry)` -/
def listDel (m : Links ν) (entry : ν) : List (Store ν) :=
  [.prev (m.next entry) (m.prev entry), .next (m.prev entry) (m.next entry)]

/-- A walk along `next` from `a` leads through these nodes to `b`. -/
def Walk (next : ν → ν) : ν → List ν → ν → Prop
  | a, [], b => next a = b
  | a, x :: xs, b => next a = x ∧ Walk next x xs b

theorem walk_concat {next : ν → ν} {a b y : ν} {xs : List ν} :
    Walk next a (xs ++ [y]) b ↔ Walk next a xs y ∧ next y = b := by
  induction xs generalizing a with
  | nil => exact Iff.rfl
  | cons x xs ih =>
    show next a = x ∧ Walk next x (xs ++ [y]) b ↔ (next a = x ∧ Walk next x xs y) ∧ next y = b
    rw [ih, and_assoc]

/-- **`list_empty`**. -/
theorem walk_nil_iff {next : ν → ν} {a b : ν} {xs : List ν} (h : Walk next a xs b) (hb : b ∉ xs) :
    next a = b ↔ xs = [] := by
  cases xs with
  | nil => exact iff_of_true h rfl
  | cons x xs =>
    refine iff_of_false (fun hab => ?_) (List.cons_ne_nil x xs)
    exact hb (hab ▸ h.1 ▸ List.mem_cons_self)

/-- A circular list with these nodes behind its head. -/
structure Ring (m : Links ν) (head : ν) (xs : List ν) : Prop where
  fwd : Walk m.next head xs head
  bwd : Walk m.prev head xs.reverse head
  nodup : (head :: xs).Nodup

/-- `INIT_LIST_HEAD` -/
theorem ring_nil {m : Links ν} {head : ν} (hn : m.next head = head) (hp : m.prev head = head) :
    Ring m head [] := ⟨hn, hp, List.nodup_singleton head⟩

/-- A store that does not change where a walk over these nodes leads. -/
def Store.Quiet (ns : List ν) : Store ν → Prop
  | .next a _ => a ∉ ns
  | .prev _ _ => True

section Stores

variable [DecidableEq ν]

/-- The pointers after a store. -/
def Links.store (m : Links ν) : Store ν → Links ν
  | .next a b => { m with next := Function.update m.next a b }
  | .prev a b => { m with prev := Function.update m.prev a b }

/-- The pointers after these stores. -/
def Links.run (m : Links ν) (ss : List (Store ν)) : Links ν := ss.foldl Links.store m

/-- A walk reads the pointers of the nodes it leaves. -/
theorem Walk.update {next : ν → ν} {a b c d : ν} {xs : List ν} (h : Walk next a xs b)
    (hc : c ∉ a :: xs) : Walk (Function.update next c d) a xs b := by
  induction xs generalizing a with
  | nil => exact (Function.update_of_ne (List.ne_of_not_mem_cons hc).symm d next).trans h
  | cons x xs ih =>
    obtain ⟨ha, hxs⟩ := List.ne_and_not_mem_of_not_mem_cons hc
    exact ⟨(Function.update_of_ne ha.symm d next).trans h.1, ih h.2 hxs⟩

theorem Walk.store {m : Links ν} {a b : ν} {xs : List ν} (h : Walk m.next a xs b) {s : Store ν}
    (hs : s.Quiet (a :: xs)) : Walk (m.store s).next a xs b := by
  cases s with
  | next c d => exact h.update hs
  | prev c d => exact h

/-- These stores turn the list `xs` into `ys`, at the last of them. -/
structure Pending (m : Links ν) (ss : List (Store ν)) (head : ν) (xs ys : List ν) : Prop where
  ring : Ring (m.run ss) head ys
  walk : Walk m.next head xs head
  nodup : (head :: xs).Nodup
  quiet : ∀ s ∈ ss.dropLast, s.Quiet (head :: xs)

theorem Pending.step {m : Links ν} {s : Store ν} {ss : List (Store ν)} {head : ν} {xs ys : List ν}
    (h : Pending m (s :: ss) head xs ys) (hss : ss ≠ []) : Pending (m.store s) ss head xs ys := by
  have hdrop : (s :: ss).dropLast = s :: ss.dropLast := List.dropLast_cons_of_ne_nil hss
  have hquiet := h.quiet
  rw [hdrop] at hquiet
  exact ⟨h.ring, h.walk.store (hquiet s List.mem_cons_self), h.nodup,
    fun t ht => hquiet t (List.mem_cons_of_mem s ht)⟩

theorem Pending.last {m : Links ν} {s : Store ν} {head : ν} {xs ys : List ν}
    (h : Pending m [s] head xs ys) : Ring (m.store s) head ys := h.ring

/-- What takes the first node out has a store left. -/
theorem Pending.stores {m : Links ν} {ss : List (Store ν)} {head x : ν} {xs : List ν}
    (h : Pending m ss head (x :: xs) xs) : ss ≠ [] := by
  rintro rfl
  have hfwd : Walk m.next head xs head := h.ring.fwd
  obtain ⟨hx, _⟩ := h.walk
  obtain ⟨hhead, hnodup⟩ := List.nodup_cons.mp h.nodup
  cases xs with
  | nil => exact hhead (hfwd.symm.trans hx ▸ List.mem_cons_self)
  | cons y ys =>
    have hxy : x = y := hx.symm.trans hfwd.1
    exact (List.nodup_cons.mp hnodup).1 (hxy ▸ List.mem_cons_self)

/-- **`list_add_tail`** adds the node at the end. -/
theorem listAddTail_pending {m : Links ν} {head new : ν} {xs : List ν} (h : Ring m head xs)
    (hnew : new ∉ head :: xs) :
    Pending m (listAddTail m new head) head xs (xs ++ [new]) := by
  obtain ⟨hhead, hxs⟩ := List.ne_and_not_mem_of_not_mem_cons hnew
  have hnodup : (head :: (xs ++ [new])).Nodup := by
    rw [← List.cons_append]
    refine List.nodup_append.mpr ⟨h.nodup, List.nodup_singleton new, fun a ha b hb hab => ?_⟩
    rw [List.mem_singleton.mp hb] at hab
    exact hnew (hab ▸ ha)
  refine ⟨⟨?_, ?_, hnodup⟩, h.fwd, h.nodup, ?_⟩
  · show Walk (Function.update (Function.update m.next new head) (m.prev head) new) head _ head
    rcases List.eq_nil_or_concat' xs with rfl | ⟨ys, z, rfl⟩
    · have hlast : m.prev head = head := h.bwd
      rw [hlast]
      refine ⟨Function.update_self _ _ _, ?_⟩
      exact (Function.update_of_ne hhead _ _).trans (Function.update_self _ _ _)
    · have hbwd := h.bwd
      rw [List.reverse_append] at hbwd
      have hz : z ∉ head :: ys := fun hz => (List.nodup_append.mp h.nodup).2.2 z hz z
        (List.mem_singleton_self z) rfl
      have hys : new ∉ head :: ys := fun hm => hnew (List.mem_append_left [z] hm)
      have hzn : z ≠ new := fun hzn =>
        hxs (hzn ▸ List.mem_append_right ys (List.mem_singleton_self z))
      rw [hbwd.1]
      refine walk_concat.mpr ⟨walk_concat.mpr ⟨?_, Function.update_self _ _ _⟩, ?_⟩
      · exact ((walk_concat.mp h.fwd).1.update hys).update hz
      · exact (Function.update_of_ne hzn.symm _ _).trans (Function.update_self _ _ _)
  · show Walk (Function.update (Function.update m.prev head new) new (m.prev head)) head _ head
    rw [List.reverse_append]
    refine ⟨(Function.update_of_ne hhead.symm _ _).trans (Function.update_self _ _ _), ?_⟩
    have hself : Function.update (Function.update m.prev head new) new (m.prev head) new =
        m.prev head := Function.update_self _ _ _
    rcases List.eq_nil_or_concat' xs with rfl | ⟨ys, z, rfl⟩
    · exact hself.trans h.bwd
    · have hbwd := h.bwd
      have hnd := h.nodup
      rw [List.reverse_append] at hbwd ⊢
      have hz : head ∉ z :: ys.reverse := by
        rw [← List.reverse_concat', List.mem_reverse]
        exact (List.nodup_cons.mp hnd).1
      have hys : new ∉ z :: ys.reverse := by
        rw [← List.reverse_concat', List.mem_reverse]
        exact hxs
      exact ⟨hself.trans hbwd.1, (hbwd.2.update hz).update hys⟩
  · intro s hs
    rcases List.mem_cons.mp hs with rfl | hs
    · trivial
    · rcases List.mem_cons.mp hs with rfl | hs
      · exact hnew
      · rw [List.mem_singleton.mp hs]
        trivial

/-- **`list_del`** of the first node takes it out. -/
theorem listDel_pending {m : Links ν} {head x : ν} {xs : List ν} (h : Ring m head (x :: xs)) :
    Pending m (listDel m x) head (x :: xs) xs := by
  obtain ⟨hx, hfwd⟩ := h.fwd
  have hbwd := h.bwd
  rw [List.reverse_cons] at hbwd
  obtain ⟨hback, hprev⟩ := walk_concat.mp hbwd
  have hhead : head ∉ xs := fun hm => (List.nodup_cons.mp h.nodup).1 (List.mem_cons_of_mem x hm)
  have hnodup : (head :: xs).Nodup :=
    List.nodup_cons.mpr ⟨hhead, (List.nodup_cons.mp (List.nodup_cons.mp h.nodup).2).2⟩
  refine ⟨⟨?_, ?_, hnodup⟩, h.fwd, h.nodup, ?_⟩
  · show Walk (Function.update m.next (m.prev x) (m.next x)) head xs head
    rw [hprev]
    cases xs with
    | nil => exact (Function.update_self _ _ _).trans hfwd
    | cons y ys => exact ⟨(Function.update_self _ _ _).trans hfwd.1, hfwd.2.update hhead⟩
  · show Walk (Function.update m.prev (m.next x) (m.prev x)) head xs.reverse head
    rw [hprev]
    cases xs with
    | nil =>
      rw [show m.next x = head from hfwd]
      exact Function.update_self _ _ _
    | cons y ys =>
      rw [List.reverse_cons] at hback ⊢
      rw [hfwd.1]
      have hy : y ∉ head :: ys.reverse := by
        intro hm
        rcases List.mem_cons.mp hm with rfl | hm
        · exact hhead List.mem_cons_self
        · exact (List.nodup_cons.mp (List.nodup_cons.mp hnodup).2).1 (List.mem_reverse.mp hm)
      exact walk_concat.mpr
        ⟨(walk_concat.mp hback).1.update hy, Function.update_self _ _ _⟩
  · intro s hs
    rw [List.mem_singleton.mp hs]
    trivial

end Stores

end JcmController.Lib.ListHead
