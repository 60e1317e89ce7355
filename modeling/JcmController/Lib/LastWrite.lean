import Mathlib.Data.List.Forall2

/-!
# The last write wins

An update `f e` puts `e` where an earlier update put something else. `lastWrite f es a` is what the
updates `es`, made one after the other, leave of `a`: the last of them on `a`, or `a` where there
is none.

A state has cells `κ`, and a list of updates for each cell has an effect `act` on it. Updates of a
cell compose in order (`Effect`), so a loop whose body makes some updates of some cells makes all
of them, in the order of the loop, whatever the other cells are.

Results:
* `lastWrite_append`, `lastWrite_idem`: updates compose, and making them again changes nothing.
* `foldlM_effect`: the loop rule.
-/

namespace JcmController.Lib.LastWrite

variable {α β κ σ ι τ : Type}

/-- What the updates `es` leave of `a`. -/
def lastWrite (f : β → α → α) (es : List β) (a : α) : α := (es.getLast?.map (f · a)).getD a

/-- An update leaves nothing of an earlier one. -/
def Absorbs (f : β → α → α) : Prop := ∀ e e' a, f e (f e' a) = f e a

@[simp] theorem lastWrite_nil (f : β → α → α) (a : α) : lastWrite f [] a = a := rfl

theorem lastWrite_append {f : β → α → α} (hf : Absorbs f) (es es' : List β) (a : α) :
    lastWrite f es' (lastWrite f es a) = lastWrite f (es ++ es') a := by
  unfold lastWrite
  rw [List.getLast?_append]
  cases es'.getLast? with
  | none => rfl
  | some e' =>
    cases es.getLast? with
    | none => rfl
    | some e => exact hf e' e a

/-- **Making the updates again changes nothing.** -/
theorem lastWrite_idem {f : β → α → α} (hf : Absorbs f) (es : List β) (a : α) :
    lastWrite f es (lastWrite f es a) = lastWrite f es a := by
  unfold lastWrite
  cases es.getLast? with
  | none => rfl
  | some e => exact hf e e a

/-- Updates of the cells of a state, in order. -/
structure Effect (act : (κ → List β) → σ → σ) : Prop where
  nil : ∀ s, act (fun _ => []) s = s
  append : ∀ g g' s, act g' (act g s) = act (fun k => g k ++ g' k) s

/-- **The loop rule.** Where the body makes the updates `g y` for an element that stands for `y`,
the loop makes those of all elements, in their order. -/
theorem foldlM_effect {act : (κ → List β) → σ → σ} (hact : Effect act) {Inv : σ → Prop}
    (hinv : ∀ g s, Inv s → Inv (act g s)) {step : σ → ι → Option σ} {R : ι → τ → Prop}
    {g : τ → κ → List β}
    (hstep : ∀ x y, R x y → ∀ s, Inv s → step s x = some (act (g y) s)) {xs : List ι}
    {ys : List τ} (h : List.Forall₂ R xs ys) (s : σ) (hs : Inv s) :
    xs.foldlM step s = some (act (fun k => ys.flatMap fun y => g y k) s) := by
  induction h generalizing s with
  | nil => exact congrArg some (hact.nil s).symm
  | cons hxy _ ih =>
    rw [List.foldlM_cons, hstep _ _ hxy s hs]
    refine (ih _ (hinv _ s hs)).trans (congrArg some ?_)
    rw [hact.append]
    simp only [List.flatMap_cons]

end JcmController.Lib.LastWrite
