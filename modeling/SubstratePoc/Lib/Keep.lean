import Mathlib.Logic.Function.Basic

namespace SubstratePoc.Lib

variable {α β : Type*}

def keep (P : α → Prop) [DecidablePred P] (f d : α → β) : α → β :=
  fun x => if P x then f x else d x

variable {P : α → Prop} [DecidablePred P] {f d : α → β} {x : α}

theorem keep_apply (h : P x) : keep P f d x = f x := if_pos h

theorem keep_self : keep P d d = d := funext fun _ => ite_self _

variable [DecidableEq α] {v : β}

theorem update_cases (f : α → β) (x : α) (v : β) (y : α) :
    y = x ∧ Function.update f x v y = v ∨ y ≠ x ∧ Function.update f x v y = f y := by
  by_cases hy : y = x
  · subst hy
    exact .inl ⟨rfl, Function.update_self ..⟩
  · exact .inr ⟨hy, Function.update_of_ne hy ..⟩

theorem keep_update_of_pos (h : P x) :
    keep P (Function.update f x v) d = Function.update (keep P f d) x v := by
  funext y
  by_cases hy : y = x
  · subst hy
    rw [keep_apply h, Function.update_self, Function.update_self]
  · simp only [keep, Function.update_of_ne hy]

theorem keep_update_of_neg (h : ¬P x) : keep P (Function.update f x v) d = keep P f d := by
  funext y
  by_cases hy : y = x
  · subst hy
    simp only [keep, if_neg h]
  · simp only [keep, Function.update_of_ne hy]

end SubstratePoc.Lib
