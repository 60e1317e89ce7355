import JcmController.Lib.ListHead
import JcmController.Lib.Semaphore

/-!
# A queue behind a lock

Any number of parties share a circular list and the semaphore that guards it. A party allocates a
node with a value, takes the lock, links the node in store by store and gives the lock back; or it
takes the lock, finds the list not empty, unlinks the first node, gives the lock back and frees
the node. Between any two of these steps the others take theirs.

`Local` is what one party is up to. `entered` and `left` record the values whose nodes were linked
in and taken out, at the store that made it so.

Results:
* `Inv`: what holds of every state.
* **`Step.inv`**: every step of every party keeps it.
* `Inv.contents`: the values that entered are those that left and then those in the list, in order.
-/

namespace JcmController.Lib.LockedQueue

open JcmController.Lib.ListHead

variable {π ν β : Type}

/-- What a party has begun under the lock: it has found the list not empty, or there are these
stores left of linking a node in or taking one out. -/
inductive Work (ν : Type) where
  | found
  | link (q : ν) (ss : List (Store ν))
  | unlink (q : ν) (ss : List (Store ν))

/-- What a party is up to: whether it has the lock, its own node that is in no list, and what is
left of its work on the list. -/
structure Local (ν : Type) where
  inside : Bool
  own : Option ν
  work : Option (Work ν)

/-- What the parties share, and what each is up to. -/
structure Shared (π ν β : Type) where
  count : Nat
  links : Links ν
  head : ν
  used : ν → Bool
  val : ν → β
  entered : List β
  left : List β
  loc : π → Local ν

section Steps

variable [DecidableEq π] [DecidableEq ν]

/-- The state after `p` has gone on to `l`. -/
def Shared.at (s : Shared π ν β) (p : π) (l : Local ν) : Shared π ν β :=
  { s with loc := Function.update s.loc p l }

/-- What a party can do. `Good` is what it says of the values it allocates nodes for. -/
inductive Step (Good : β → Prop) (s : Shared π ν β) : Shared π ν β → Prop
  | alloc (p : π) (q : ν) (b : β) (hl : s.loc p = ⟨false, none, none⟩) (hq : s.used q = false)
      (hb : Good b) :
      Step Good s (Shared.at { s with
        used := Function.update s.used q true, val := Function.update s.val q b } p
          ⟨false, some q, none⟩)
  | down (p : π) (o : Option ν) (hl : s.loc p = ⟨false, o, none⟩) (hpos : 0 < s.count) :
      Step Good s (Shared.at { s with count := s.count - 1 } p ⟨true, o, none⟩)
  | link (p : π) (q : ν) (hl : s.loc p = ⟨true, some q, none⟩) :
      Step Good s (s.at p ⟨true, some q, some (.link q (listAddTail s.links q s.head))⟩)
  | linkStore (p : π) (q : ν) (x : Store ν) (ss : List (Store ν))
      (hl : s.loc p = ⟨true, some q, some (.link q (x :: ss))⟩) (hss : ss ≠ []) :
      Step Good s (Shared.at { s with links := s.links.store x } p
        ⟨true, some q, some (.link q ss)⟩)
  | linked (p : π) (q : ν) (x : Store ν) (hl : s.loc p = ⟨true, some q, some (.link q [x])⟩) :
      Step Good s (Shared.at { s with
        links := s.links.store x, entered := s.entered ++ [s.val q] } p ⟨true, none, none⟩)
  | found (p : π) (hl : s.loc p = ⟨true, none, none⟩) (hne : s.links.next s.head ≠ s.head) :
      Step Good s (s.at p ⟨true, none, some .found⟩)
  | unlink (p : π) (hl : s.loc p = ⟨true, none, some .found⟩) :
      Step Good s (s.at p ⟨true, none,
        some (.unlink (s.links.next s.head) (listDel s.links (s.links.next s.head)))⟩)
  | unlinkStore (p : π) (q : ν) (x : Store ν) (ss : List (Store ν))
      (hl : s.loc p = ⟨true, none, some (.unlink q (x :: ss))⟩) (hss : ss ≠ []) :
      Step Good s (Shared.at { s with links := s.links.store x } p
        ⟨true, none, some (.unlink q ss)⟩)
  | unlinked (p : π) (q : ν) (x : Store ν) (hl : s.loc p = ⟨true, none, some (.unlink q [x])⟩) :
      Step Good s (Shared.at { s with
        links := s.links.store x, left := s.left ++ [s.val q] } p ⟨true, some q, none⟩)
  | up (p : π) (o : Option ν) (hl : s.loc p = ⟨true, o, none⟩) :
      Step Good s (Shared.at { s with count := s.count + 1 } p ⟨false, o, none⟩)
  | free (p : π) (q : ν) (hl : s.loc p = ⟨false, some q, none⟩) :
      Step Good s (Shared.at { s with used := Function.update s.used q false } p
        ⟨false, none, none⟩)

end Steps

/-! ## Who has which node -/

section Nodes

variable [DecidableEq π]

/-- The head, the nodes in the list and each party's own are allocated, no two of these are the
same node, and the parties' own are `ok`. -/
structure Owns (head : ν) (xs : List ν) (used : ν → Bool) (ok : ν → Prop) (own : π → Option ν) :
    Prop where
  head_used : used head = true
  list_used : ∀ x ∈ xs, used x = true
  own_used : ∀ p q, own p = some q → used q = true
  own_out : ∀ p q, own p = some q → q ∉ head :: xs
  own_unique : ∀ p p' q, own p = some q → own p' = some q → p = p'
  own_ok : ∀ p q, own p = some q → ok q

namespace Owns

variable {head : ν} {xs : List ν} {used : ν → Bool} {ok ok' : ν → Prop} {own : π → Option ν}
  {p : π} {q : ν}

/-- A party that has put its node into the list or freed it owns none. -/
theorem update_none {p' : π} {q' : ν} (h : Function.update own p none p' = some q') :
    p' ≠ p ∧ own p' = some q' := by
  by_cases hp : p' = p
  · rw [hp, Function.update_self] at h
    cases h
  · rw [Function.update_of_ne hp] at h
    exact ⟨hp, h⟩

theorem update_some {p' : π} {q' : ν} (h : Function.update own p (some q) p' = some q') :
    p' = p ∧ q' = q ∨ p' ≠ p ∧ own p' = some q' := by
  by_cases hp : p' = p
  · rw [hp, Function.update_self] at h
    exact Or.inl ⟨hp, (Option.some.inj h).symm⟩
  · rw [Function.update_of_ne hp] at h
    exact Or.inr ⟨hp, h⟩

theorem not_used {x : ν} (hx : used x = true) (hq : used q = false) : x ≠ q := by
  rintro rfl
  exact Bool.false_ne_true (hq.symm.trans hx)

theorem linked (h : Owns head xs used ok own) (hp : own p = some q) :
    Owns head (xs ++ [q]) used ok (Function.update own p none) := by
  refine ⟨h.head_used, fun x hx => ?_, fun p' q' hp' => h.own_used p' q' (update_none hp').2,
    fun p' q' hp' hm => ?_, fun p' p'' q' hp' hp'' =>
      h.own_unique p' p'' q' (update_none hp').2 (update_none hp'').2,
    fun p' q' hp' => h.own_ok p' q' (update_none hp').2⟩
  · rcases List.mem_append.mp hx with hx | hx
    · exact h.list_used x hx
    · rw [List.mem_singleton.mp hx]
      exact h.own_used p q hp
  · obtain ⟨hne, hp'⟩ := update_none hp'
    rw [← List.cons_append] at hm
    rcases List.mem_append.mp hm with hm | hm
    · exact h.own_out p' q' hp' hm
    · rw [List.mem_singleton.mp hm] at hp'
      exact hne (h.own_unique p' p q hp' hp)

theorem unlinked (h : Owns head (q :: xs) used ok own) (hnodup : (head :: q :: xs).Nodup)
    (hok : ok q) : Owns head xs used ok (Function.update own p (some q)) := by
  have hq : q ∉ head :: xs := by
    intro hm
    rcases List.mem_cons.mp hm with rfl | hm
    · exact (List.nodup_cons.mp hnodup).1 List.mem_cons_self
    · exact (List.nodup_cons.mp (List.nodup_cons.mp hnodup).2).1 hm
  have hsub : head :: xs ⊆ head :: q :: xs :=
    List.cons_subset_cons head (List.subset_cons_self q xs)
  have hmem : q ∈ head :: q :: xs := List.mem_cons_of_mem head List.mem_cons_self
  refine ⟨h.head_used, fun x hx => h.list_used x (List.mem_cons_of_mem q hx), fun p' q' hp' => ?_,
    fun p' q' hp' => ?_, fun p' p'' q' hp' hp'' => ?_, fun p' q' hp' => ?_⟩
  · rcases update_some hp' with ⟨_, rfl⟩ | ⟨_, hown⟩
    · exact h.list_used _ List.mem_cons_self
    · exact h.own_used p' q' hown
  · rcases update_some hp' with ⟨_, rfl⟩ | ⟨_, hown⟩
    · exact hq
    · exact fun hm => h.own_out p' q' hown (hsub hm)
  · rcases update_some hp' with ⟨rfl, rfl⟩ | ⟨_, hown⟩
    · rcases update_some hp'' with ⟨rfl, _⟩ | ⟨_, hown'⟩
      · rfl
      · exact absurd hmem (h.own_out p'' _ hown')
    · rcases update_some hp'' with ⟨_, rfl⟩ | ⟨_, hown'⟩
      · exact absurd hmem (h.own_out p' _ hown)
      · exact h.own_unique p' p'' q' hown hown'
  · rcases update_some hp' with ⟨_, rfl⟩ | ⟨_, hown⟩
    · exact hok
    · exact h.own_ok p' q' hown

variable [DecidableEq ν]

theorem alloc (h : Owns head xs used ok own) (hq : used q = false) (hok : ok' q)
    (hother : ∀ x ≠ q, ok x → ok' x) :
    Owns head xs (Function.update used q true) ok' (Function.update own p (some q)) := by
  have hkeep : ∀ x, used x = true → Function.update used q true x = true := fun x hx =>
    (Function.update_of_ne (not_used hx hq) _ _).trans hx
  refine ⟨hkeep _ h.head_used, fun x hx => hkeep x (h.list_used x hx), fun p' q' hp' => ?_,
    fun p' q' hp' hm => ?_, fun p' p'' q' hp' hp'' => ?_, fun p' q' hp' => ?_⟩
  · rcases update_some hp' with ⟨_, rfl⟩ | ⟨_, hown⟩
    · exact Function.update_self _ _ _
    · exact hkeep _ (h.own_used p' q' hown)
  · rcases update_some hp' with ⟨_, rfl⟩ | ⟨_, hown⟩
    · rcases List.mem_cons.mp hm with rfl | hm
      · exact not_used h.head_used hq rfl
      · exact not_used (h.list_used _ hm) hq rfl
    · exact h.own_out p' q' hown hm
  · rcases update_some hp' with ⟨rfl, rfl⟩ | ⟨_, hown⟩
    · rcases update_some hp'' with ⟨rfl, _⟩ | ⟨_, hown'⟩
      · rfl
      · exact absurd rfl (not_used (h.own_used p'' _ hown') hq)
    · rcases update_some hp'' with ⟨_, rfl⟩ | ⟨_, hown'⟩
      · exact absurd rfl (not_used (h.own_used p' _ hown) hq)
      · exact h.own_unique p' p'' q' hown hown'
  · rcases update_some hp' with ⟨_, rfl⟩ | ⟨_, hown⟩
    · exact hok
    · exact hother q' (not_used (h.own_used p' q' hown) hq) (h.own_ok p' q' hown)

theorem free (h : Owns head xs used ok own) (hp : own p = some q) :
    Owns head xs (Function.update used q false) ok (Function.update own p none) := by
  have hout := h.own_out p q hp
  have hkeep : ∀ x ∈ head :: xs, used x = true → Function.update used q false x = true :=
    fun x hx hused => (Function.update_of_ne (fun hxq => hout (by rwa [hxq] at hx)) _ _).trans hused
  refine ⟨hkeep _ List.mem_cons_self h.head_used,
    fun x hx => hkeep x (List.mem_cons_of_mem head hx) (h.list_used x hx), fun p' q' hp' => ?_,
    fun p' q' hp' => h.own_out p' q' (update_none hp').2, fun p' p'' q' hp' hp'' =>
      h.own_unique p' p'' q' (update_none hp').2 (update_none hp'').2,
    fun p' q' hp' => h.own_ok p' q' (update_none hp').2⟩
  obtain ⟨hne, hp'⟩ := update_none hp'
  refine (Function.update_of_ne (fun hq => ?_) _ _).trans (h.own_used p' q' hp')
  rw [hq] at hp'
  exact hne (h.own_unique p' p q hp' hp)

end Owns

end Nodes

/-! ## Who is inside, and what is in memory -/

theorem inside_of {loc : π → Local ν} {p : π} {o : Option ν} {w : Option (Work ν)}
    (hl : loc p = ⟨true, o, w⟩) : (loc p).inside = true := congrArg Local.inside hl

section Lock

variable [DecidableEq ν]

/-- What is in memory while a party inside has this left to store. -/
def MemAt (m : Links ν) (head : ν) (xs : List ν) : Option (Work ν) → Prop
  | none => Ring m head xs
  | some .found => Ring m head xs ∧ xs ≠ []
  | some (.link q ss) => Pending m ss head xs (xs ++ [q])
  | some (.unlink q ss) => ∃ ys, xs = q :: ys ∧ Pending m ss head xs ys

theorem MemAt.walk {m : Links ν} {head : ν} {xs : List ν} {o : Option (Work ν)}
    (h : MemAt m head xs o) : Walk m.next head xs head ∧ (head :: xs).Nodup :=
  match o, h with
  | none, h => ⟨h.fwd, h.nodup⟩
  | some .found, ⟨h, _⟩ => ⟨h.fwd, h.nodup⟩
  | some (.link _ _), h => ⟨Pending.walk h, Pending.nodup h⟩
  | some (.unlink _ _), ⟨_, _, h⟩ => ⟨Pending.walk h, Pending.nodup h⟩

/-- The lock excludes, and the list is whole where nobody is inside. -/
structure Guarded (count : Nat) (m : Links ν) (head : ν) (loc : π → Local ν) (xs : List ν) :
    Prop where
  excl : Exclusive count fun p => (loc p).inside = true
  outside : (∀ p, (loc p).inside = false) → Ring m head xs
  inside : ∀ p, (loc p).inside = true → MemAt m head xs (loc p).work

namespace Guarded

variable {count : Nat} {m m' : Links ν} {head : ν} {loc : π → Local ν} {xs xs' : List ν} {p : π}
  {l : Local ν}

theorem walk (h : Guarded count m head loc xs) :
    Walk m.next head xs head ∧ (head :: xs).Nodup := by
  by_cases hin : ∃ p, (loc p).inside = true
  · obtain ⟨p, hp⟩ := hin
    exact (h.inside p hp).walk
  · have hring := h.outside fun p => Bool.eq_false_iff.mpr fun hp => hin ⟨p, hp⟩
    exact ⟨hring.fwd, hring.nodup⟩

variable [DecidableEq π]

/-- A party outside finds the list whole once it gets in. -/
theorem enter (h : Guarded count m head loc xs) (hpos : 0 < count) (hl : l.inside = true)
    (hw : l.work = none) : Guarded (count - 1) m head (Function.update loc p l) xs := by
  have hfree := h.excl.free hpos
  have hself : Function.update loc p l p = l := Function.update_self p l loc
  refine ⟨h.excl.down hpos (p := p) ?_ fun p' hp' hin => ?_, fun hout => ?_, fun p' hp' => ?_⟩
  · rw [hself]
    exact hl
  · rwa [Function.update_of_ne hp'] at hin
  · exact h.outside fun p' => Bool.eq_false_iff.mpr (hfree p')
  · by_cases hpp : p' = p
    · rw [hpp, hself, hw]
      exact h.outside fun p' => Bool.eq_false_iff.mpr (hfree p')
    · rw [Function.update_of_ne hpp] at hp'
      exact absurd hp' (hfree p')

/-- A party inside works on, and leaves this in memory. -/
theorem within (h : Guarded count m head loc xs) (hp : (loc p).inside = true)
    (hl : l.inside = true) (hmem : MemAt m' head xs' l.work) :
    Guarded count m' head (Function.update loc p l) xs' := by
  have hself : Function.update loc p l p = l := Function.update_self p l loc
  refine ⟨h.excl.stay fun p' => ?_, fun hout => ?_, fun p' hp' => ?_⟩
  · by_cases hpp : p' = p
    · rw [hpp, hself]
      exact iff_of_true hl hp
    · rw [Function.update_of_ne hpp]
  · have hnot := hout p
    rw [hself, hl] at hnot
    cases hnot
  · by_cases hpp : p' = p
    · rw [hpp, hself]
      exact hmem
    · rw [Function.update_of_ne hpp] at hp'
      exact absurd (h.excl.unique hp hp') hpp

/-- A party gives the lock back with no stores left. -/
theorem leave (h : Guarded count m head loc xs) (hp : (loc p).inside = true)
    (hw : (loc p).work = none) (hl : l.inside = false) :
    Guarded (count + 1) m head (Function.update loc p l) xs := by
  have hself : Function.update loc p l p = l := Function.update_self p l loc
  refine ⟨h.excl.up hp ?_ fun p' hp' hin => ?_, fun _ => ?_, fun p' hp' => ?_⟩
  · rw [hself, hl]
    exact Bool.false_ne_true
  · rwa [Function.update_of_ne hp'] at hin
  · have hmem := h.inside p hp
    rwa [hw] at hmem
  · by_cases hpp : p' = p
    · rw [hpp, hself, hl] at hp'
      cases hp'
    · rw [Function.update_of_ne hpp] at hp'
      exact absurd (h.excl.unique hp hp') hpp

/-- A party outside goes on outside. -/
theorem stay (h : Guarded count m head loc xs) (hp : (loc p).inside = false)
    (hl : l.inside = false) : Guarded count m head (Function.update loc p l) xs := by
  have hself : Function.update loc p l p = l := Function.update_self p l loc
  have hsame : ∀ p', (Function.update loc p l p').inside = (loc p').inside := by
    intro p'
    by_cases hpp : p' = p
    · rw [hpp, hself, hl, hp]
    · rw [Function.update_of_ne hpp]
  refine ⟨h.excl.stay fun p' => by rw [hsame p'], fun hout => h.outside fun p' => ?_,
    fun p' hp' => ?_⟩
  · rw [← hsame p']
    exact hout p'
  · have hne : p' ≠ p := by
      rintro rfl
      rw [hself, hl] at hp'
      cases hp'
    rw [Function.update_of_ne hne] at hp' ⊢
    exact h.inside p' hp'

end Guarded

/-! ## The invariant -/

/-- **What holds of every state**, with the list `xs` in memory. -/
structure Inv (Good : β → Prop) (s : Shared π ν β) (xs : List ν) : Prop where
  guarded : Guarded s.count s.links s.head s.loc xs
  owns : Owns s.head xs s.used (fun q => Good (s.val q)) (Local.own ∘ s.loc)
  order : s.entered = s.left ++ xs.map s.val
  good : ∀ b ∈ s.entered, Good b

/-- The empty queue, with nobody at it. -/
theorem Inv.start {Good : β → Prop} {s : Shared π ν β} (hcount : s.count = 1)
    (hloc : ∀ p, s.loc p = ⟨false, none, none⟩) (hring : Ring s.links s.head [])
    (hused : s.used s.head = true) (hentered : s.entered = []) (hleft : s.left = []) :
    Inv Good s [] := by
  have hout : ∀ p, ¬ (s.loc p).inside = true := fun p => by
    rw [hloc p]
    exact Bool.false_ne_true
  have hown : ∀ p q, ¬ (Local.own ∘ s.loc) p = some q := by
    rintro p q h
    cases (congrArg Local.own (hloc p)).symm.trans h
  refine ⟨⟨Or.inl ⟨hcount, hout⟩, fun _ => hring, fun p hp => absurd hp (hout p)⟩,
    ⟨hused, fun x hx => absurd hx List.not_mem_nil, fun p q h => absurd h (hown p q),
      fun p q h => absurd h (hown p q), fun p _ q h => absurd h (hown p q),
      fun p q h => absurd h (hown p q)⟩, ?_, fun b hb => ?_⟩
  · rw [hentered, hleft]
    rfl
  · rw [hentered] at hb
    exact absurd hb List.not_mem_nil

/-- A walk along `next` finds the values that entered and have not left, in their order. -/
theorem Inv.contents {Good : β → Prop} {s : Shared π ν β} {xs : List ν} (h : Inv Good s xs) :
    Walk s.links.next s.head xs s.head ∧ s.head ∉ xs ∧ s.entered = s.left ++ xs.map s.val :=
  ⟨h.guarded.walk.1, (List.nodup_cons.mp h.guarded.walk.2).1, h.order⟩

theorem Inv.memAt {Good : β → Prop} {s : Shared π ν β} {xs : List ν} (h : Inv Good s xs) {p : π}
    {o : Option ν} {w : Option (Work ν)} (hl : s.loc p = ⟨true, o, w⟩) :
    MemAt s.links s.head xs w := by
  have hmem := h.guarded.inside p (inside_of hl)
  rwa [hl] at hmem

variable [DecidableEq π]

omit [DecidableEq ν] in
theorem own_at (s : Shared π ν β) (p : π) (l : Local ν) :
    Local.own ∘ (s.at p l).loc = Function.update (Local.own ∘ s.loc) p l.own :=
  Function.comp_update Local.own s.loc p l

/-- A step that leaves a party's own node what it is. -/
theorem Inv.own_same {Good : β → Prop} {s : Shared π ν β} {xs : List ν} (h : Inv Good s xs) {p : π}
    {l : Local ν} (hl : l.own = (s.loc p).own) :
    Owns s.head xs s.used (fun q => Good (s.val q)) (Local.own ∘ Function.update s.loc p l) := by
  have hsame : Function.update (Local.own ∘ s.loc) p l.own = Local.own ∘ s.loc :=
    Function.update_eq_self_iff.mpr hl
  rw [Function.comp_update, hsame]
  exact h.owns

/-- **Every step of every party keeps the invariant.** -/
theorem Step.inv {Good : β → Prop} {s s' : Shared π ν β} {xs : List ν} (h : Step Good s s')
    (hi : Inv Good s xs) : ∃ xs', Inv Good s' xs' := by
  cases h with
  | alloc p q b hl hq hb =>
    refine ⟨xs, hi.guarded.stay (by rw [hl]) rfl, ?_, ?_, hi.good⟩
    · rw [own_at]
      have hother : ∀ x ≠ q, Good (s.val x) → Good (Function.update s.val q b x) := by
        intro x hx hgood
        rwa [Function.update_of_ne hx]
      have hnew : Good (Function.update s.val q b q) := by rwa [Function.update_self]
      exact hi.owns.alloc hq hnew hother
    · have hmap : xs.map (Function.update s.val q b) = xs.map s.val :=
        List.map_congr_left fun x hx =>
          Function.update_of_ne (Owns.not_used (hi.owns.list_used x hx) hq) _ _
      exact hi.order.trans (congrArg (s.left ++ ·) hmap.symm)
  | down p o hl hpos =>
    exact ⟨xs, hi.guarded.enter hpos rfl rfl, hi.own_same (by rw [hl]), hi.order, hi.good⟩
  | link p q hl =>
    have hring := hi.memAt hl
    have hout : q ∉ s.head :: xs := hi.owns.own_out p q (congrArg Local.own hl)
    exact ⟨xs, hi.guarded.within (inside_of hl) rfl (listAddTail_pending hring hout),
      hi.own_same (by rw [hl]), hi.order, hi.good⟩
  | linkStore p q x ss hl hss =>
    have hpend := hi.memAt hl
    exact ⟨xs, hi.guarded.within (inside_of hl) rfl (Pending.step hpend hss),
      hi.own_same (by rw [hl]), hi.order, hi.good⟩
  | linked p q x hl =>
    have hpend := hi.memAt hl
    have hown : (Local.own ∘ s.loc) p = some q := congrArg Local.own hl
    refine ⟨xs ++ [q], hi.guarded.within (inside_of hl) rfl (Pending.last hpend), ?_, ?_,
      fun b hb => ?_⟩
    · rw [own_at]
      exact hi.owns.linked hown
    · show s.entered ++ [s.val q] = s.left ++ (xs ++ [q]).map s.val
      rw [hi.order, List.map_append, List.append_assoc]
      rfl
    · rcases List.mem_append.mp hb with hb | hb
      · exact hi.good b hb
      · rw [List.mem_singleton.mp hb]
        exact hi.owns.own_ok p q hown
  | found p hl hne =>
    have hring := hi.memAt hl
    obtain ⟨hwalk, hhead, _⟩ := hi.contents
    have hxs : xs ≠ [] := fun hxs => hne ((walk_nil_iff hwalk hhead).mpr hxs)
    exact ⟨xs, hi.guarded.within (inside_of hl) rfl ⟨hring, hxs⟩, hi.own_same (by rw [hl]),
      hi.order, hi.good⟩
  | unlink p hl =>
    obtain ⟨hring, hxs⟩ := hi.memAt hl
    obtain ⟨x, xs, rfl⟩ := List.exists_cons_of_ne_nil hxs
    have hfirst : s.links.next s.head = x := hring.fwd.1
    refine ⟨x :: xs, hi.guarded.within (inside_of hl) rfl ⟨xs, ?_, ?_⟩, hi.own_same (by rw [hl]),
      hi.order, hi.good⟩
    · rw [hfirst]
    · rw [hfirst]
      exact listDel_pending hring
  | unlinkStore p q x ss hl hss =>
    obtain ⟨ys, hys, hpend⟩ := hi.memAt hl
    exact ⟨xs, hi.guarded.within (inside_of hl) rfl ⟨ys, hys, hpend.step hss⟩,
      hi.own_same (by rw [hl]), hi.order, hi.good⟩
  | unlinked p q x hl =>
    obtain ⟨ys, rfl, hpend⟩ := hi.memAt hl
    have hgood : Good (s.val q) := by
      refine hi.good (s.val q) ?_
      rw [hi.order]
      exact List.mem_append_right s.left List.mem_cons_self
    refine ⟨ys, hi.guarded.within (inside_of hl) rfl hpend.last, ?_, ?_, hi.good⟩
    · rw [own_at]
      exact hi.owns.unlinked hi.guarded.walk.2 hgood
    · show s.entered = (s.left ++ [s.val q]) ++ ys.map s.val
      rw [hi.order, List.append_assoc]
      rfl
  | up p o hl =>
    exact ⟨xs, hi.guarded.leave (by rw [hl]) (by rw [hl]) rfl, hi.own_same (by rw [hl]), hi.order,
      hi.good⟩
  | free p q hl =>
    have hown : (Local.own ∘ s.loc) p = some q := congrArg Local.own hl
    refine ⟨xs, hi.guarded.stay (by rw [hl]) rfl, ?_, hi.order, hi.good⟩
    rw [own_at]
    exact hi.owns.free hown

end Lock

end JcmController.Lib.LockedQueue
