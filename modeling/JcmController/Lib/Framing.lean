import Mathlib.Data.List.Basic
import Mathlib.Data.List.Flatten

/-!
# Messages and reads of one stream

Messages are written to a stream one after the other and read from it in pieces: both lists have
the same `flatten`.

* `readsOf cap`: the pieces in which reads of at most `cap` items take one message.
* `Aligned ms cs`: each read starts where a message starts.
* **`eq_of_aligned`**: reads that start at message starts and are at least as many as the messages
  are the messages.
-/

namespace JcmController.Lib

variable {α : Type}

/-! ## One message -/

/-- `readsOf`, with fuel for the number of reads. -/
def readsFrom (cap : Nat) : Nat → List α → List (List α)
  | _, [] => []
  | 0, _ => []
  | fuel + 1, b :: bs => (b :: bs).take cap :: readsFrom cap fuel ((b :: bs).drop cap)

/-- The pieces in which reads of at most `cap` items take one message. -/
def readsOf (cap : Nat) (bs : List α) : List (List α) := readsFrom cap bs.length bs

theorem readsFrom_short {cap fuel : Nat} {bs : List α} (hne : bs ≠ []) (h : bs.length ≤ cap) :
    readsFrom cap (fuel + 1) bs = [bs] := by
  cases bs with
  | nil => exact absurd rfl hne
  | cons b bs => rw [readsFrom, List.take_of_length_le h, List.drop_eq_nil_of_le h, readsFrom]

/-- A message that fits one read. -/
theorem readsOf_short {cap : Nat} {bs : List α} (hne : bs ≠ []) (h : bs.length ≤ cap) :
    readsOf cap bs = [bs] := by
  cases bs with
  | nil => exact absurd rfl hne
  | cons b bs => exact readsFrom_short hne h

/-- A message that fits two reads. -/
theorem readsOf_long {cap : Nat} {bs : List α} (hcap : 0 < cap) (h : cap < bs.length)
    (h' : bs.length ≤ cap + cap) : readsOf cap bs = [bs.take cap, bs.drop cap] := by
  rcases bs with _ | ⟨b, _ | ⟨b', bs⟩⟩
  · exact absurd h (Nat.not_lt_zero cap)
  · rw [List.length_singleton] at h
    omega
  · have hne : (b :: b' :: bs).drop cap ≠ [] := fun he => by
      have := List.drop_eq_nil_iff.mp he
      omega
    have hlen : ((b :: b' :: bs).drop cap).length ≤ cap := by
      rw [List.length_drop]
      omega
    rw [readsOf, List.length_cons, readsFrom, List.length_cons, readsFrom_short hne hlen]

/-! ## Many messages -/

/-- Each read starts where a message starts. -/
def Aligned (ms cs : List (List α)) : Prop :=
  ∀ k < cs.length, ∃ j, (cs.take k).flatten = (ms.take j).flatten

/-- What is left after a first read that ends with message `j` is aligned too. -/
theorem Aligned.tail {ms cs : List (List α)} {c : List α} {j : Nat} (h : Aligned ms (c :: cs))
    (hc : c = (ms.take j).flatten) : Aligned (ms.drop j) cs := by
  intro k hk
  obtain ⟨j', hj'⟩ := h (k + 1) (Nat.succ_lt_succ hk)
  rw [List.take_succ_cons, List.flatten_cons] at hj'
  rcases Nat.le_total j' j with hle | hle
  · -- the read would start before the end of the first one, so nothing lies between
    refine ⟨0, ?_⟩
    have hpre : ((ms.take j').flatten).length ≤ c.length := by
      have htake : ms.take j = ms.take j' ++ (ms.drop j').take (j - j') := by
        rw [← List.take_add, Nat.add_sub_cancel' hle]
      rw [hc, htake, List.flatten_append, List.length_append]
      exact Nat.le_add_right _ _
    rw [← hj', List.length_append] at hpre
    have hnil : (cs.take k).flatten.length = 0 := by omega
    rw [List.length_eq_zero_iff.mp hnil]
    rfl
  · refine ⟨j' - j, ?_⟩
    have htake : ms.take j' = ms.take j ++ (ms.drop j).take (j' - j) := by
      rw [← List.take_add, Nat.add_sub_cancel' hle]
    rw [htake, List.flatten_append, ← hc] at hj'
    exact List.append_cancel_left hj'

/-- **Aligned reads that are as many as the messages are the messages.** -/
theorem eq_of_aligned :
    ∀ {cs ms : List (List α)}, (∀ c ∈ cs, c ≠ []) → (∀ m ∈ ms, m ≠ []) →
      cs.flatten = ms.flatten → Aligned ms cs → ms.length ≤ cs.length → cs = ms
  | [], [], _, _, _, _, _ => rfl
  | [], m :: ms, _, hm, hflat, _, _ => by
    rw [List.flatten_nil, List.flatten_cons] at hflat
    exact absurd (List.append_eq_nil_iff.mp hflat.symm).1 (hm m List.mem_cons_self)
  | c :: cs, [], hc, _, hflat, _, _ => by
    rw [List.flatten_nil, List.flatten_cons] at hflat
    exact absurd (List.append_eq_nil_iff.mp hflat).1 (hc c List.mem_cons_self)
  | [c], [m], _, _, hflat, _, _ => by
    rw [List.flatten_singleton, List.flatten_singleton] at hflat
    rw [hflat]
  | [_], _ :: _ :: _, _, _, _, _, hlen => by
    simp at hlen
  | c :: c' :: cs, m :: ms, hc, hm, hflat, hal, hlen => by
    obtain ⟨j, hj⟩ := hal 1 (by simp)
    rw [List.take_succ_cons, List.take_zero, List.flatten_singleton] at hj
    cases j with
    | zero => exact absurd hj (hc c List.mem_cons_self)
    | succ j =>
      -- the first read is the first `j + 1` messages
      have hrest : (c' :: cs).flatten = (ms.drop j).flatten := by
        have hsplit : (m :: ms).flatten = c ++ (ms.drop j).flatten := by
          rw [hj, ← List.flatten_append, List.take_succ_cons, List.cons_append,
            List.take_append_drop]
        rw [List.flatten_cons, hsplit] at hflat
        exact List.append_cancel_left hflat
      have hmem : ∀ x ∈ ms.drop j, x ≠ [] := fun x hx =>
        hm x (List.mem_cons_of_mem _ (List.mem_of_mem_drop hx))
      have hshort : (ms.drop j).length ≤ (c' :: cs).length := by
        rw [List.length_drop]
        simp only [List.length_cons] at hlen ⊢
        omega
      have ih := eq_of_aligned (fun x hx => hc x (List.mem_cons_of_mem _ hx)) hmem hrest
        (hal.tail hj) hshort
      -- so there were no messages to spare, and the first read is the first message
      have hj0 : j = 0 := by
        have hlen' := congrArg List.length ih
        rw [List.length_drop] at hlen'
        simp only [List.length_cons] at hlen hlen'
        omega
      subst hj0
      rw [List.take_succ_cons, List.take_zero, List.flatten_singleton] at hj
      rw [hj, ih, List.drop_zero]

end JcmController.Lib
