import Mathlib.Data.List.Basic

/-!
# What events add up to

`balance eff es k` is the sum over the events `es` of what each adds to the account `k`.

Results:
* `balance_append`: of a sequence, the sum.
* `balance_map`: of the same events under other names.
* `balance_eq_zero`, `balance_nonneg`: from the events one by one.
* `one_le_balance`: an event that adds one among others that take nothing away.
-/

namespace JcmController.Lib

variable {ε κ : Type}

/-- The balance of an account after these events. -/
def balance (eff : ε → κ → Int) : List ε → κ → Int
  | [], _ => 0
  | e :: es, k => eff e k + balance eff es k

variable {eff : ε → κ → Int} {k : κ}

theorem balance_cons (e : ε) (es : List ε) : balance eff (e :: es) k = eff e k + balance eff es k :=
  rfl

theorem balance_append (es es' : List ε) :
    balance eff (es ++ es') k = balance eff es k + balance eff es' k := by
  induction es with
  | nil => exact (Int.zero_add _).symm
  | cons e es ih =>
    rw [List.cons_append, balance_cons, balance_cons, ih, Int.add_assoc]

theorem balance_eq_zero {es : List ε} (h : ∀ e ∈ es, eff e k = 0) : balance eff es k = 0 := by
  induction es with
  | nil => rfl
  | cons e es ih =>
    obtain ⟨he, hes⟩ := List.forall_mem_cons.mp h
    rw [balance_cons, he, ih hes, Int.zero_add]

theorem balance_nonneg {es : List ε} (h : ∀ e ∈ es, 0 ≤ eff e k) : 0 ≤ balance eff es k := by
  induction es with
  | nil => exact Int.le_refl 0
  | cons e es ih =>
    obtain ⟨he, hes⟩ := List.forall_mem_cons.mp h
    exact Int.add_nonneg he (ih hes)

/-- The same events under other names. -/
theorem balance_map {ε' κ' : Type} {eff' : ε' → κ' → Int} {k' : κ'} {f : ε → ε'}
    (h : ∀ e, eff' (f e) k' = eff e k) (es : List ε) :
    balance eff' (es.map f) k' = balance eff es k := by
  induction es with
  | nil => rfl
  | cons e es ih => rw [List.map_cons, balance_cons, balance_cons, h, ih]

/-- Nothing is taken away, and one event adds one. -/
theorem one_le_balance {es : List ε} (h : ∀ e ∈ es, 0 ≤ eff e k) {e : ε} (he : e ∈ es)
    (h₁ : eff e k = 1) : 1 ≤ balance eff es k := by
  obtain ⟨s, t, rfl⟩ := List.append_of_mem he
  have hs := balance_nonneg fun x hx => h x (List.mem_append_left _ hx)
  have ht := balance_nonneg fun x hx => h x (List.mem_append_right _ (List.mem_cons_of_mem e hx))
  rw [balance_append, balance_cons, h₁]
  omega

end JcmController.Lib
