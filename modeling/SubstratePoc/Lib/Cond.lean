import Mathlib.Logic.Function.Basic
import SubstratePoc.Lib.Run

namespace SubstratePoc.Lib

variable {σ ε ι : Type*}

structure Cond (σ ε ι : Type*) where
  /-- the goroutine that takes the step -/
  mover : ε → Option ι
  /-- the goroutine is about to look at its condition, which does not hold -/
  waits : σ → ι → Bool
  /-- the step wakes the goroutine, if it sleeps -/
  wakes : σ → ε → ι → Bool

variable [DecidableEq ι]

/-- A step of the system by a goroutine that does not sleep, or a goroutine that calls `Wait`. -/
def Cond.step (C : Cond σ ε ι) (step : σ → ε → Option σ) (w : σ × (ι → Bool)) :
    ε ⊕ ι → Option (σ × (ι → Bool))
  | .inl e =>
    if (C.mover e).any w.2 then none
    else (step w.1 e).map fun s => (s, fun i => w.2 i && !C.wakes w.1 e i)
  | .inr i => if C.waits w.1 i then some (w.1, Function.update w.2 i true) else none

variable {C : Cond σ ε ι} {step : σ → ε → Option σ}

theorem Cond.step_cases {s s' : σ} {z z' : ι → Bool} {x : ε ⊕ ι}
    (h : C.step step (s, z) x = some (s', z')) :
    (∃ e, x = .inl e ∧ step s e = some s' ∧ (∀ i, C.mover e = some i → z i = false) ∧
        ∀ i, z' i = (z i && !C.wakes s e i)) ∨
      ∃ i, x = .inr i ∧ s' = s ∧ C.waits s i = true ∧ z' = Function.update z i true := by
  cases x with
  | inl e =>
    unfold Cond.step at h
    dsimp only at h
    split_ifs at h with hm
    obtain ⟨t, ht, heq⟩ := Option.map_eq_some_iff.mp h
    cases heq
    refine .inl ⟨e, rfl, ht, fun i hi => ?_, fun _ => rfl⟩
    rw [hi] at hm
    exact Bool.eq_false_iff.mpr hm
  | inr i =>
    unfold Cond.step at h
    dsimp only at h
    split_ifs at h with hw
    cases h
    exact .inr ⟨i, rfl, rfl, hw, rfl⟩

/-- No wake-up of goroutine `i` is lost if it still waits, when it waits, after every step of another
that does not wake it. -/
theorem Cond.run_waits (i : ι) {J : σ → Prop} {P : σ × (ι → Bool) → ε ⊕ ι → Prop}
    (hJ : ∀ s e s', J s → step s e = some s' → J s')
    (hstep : ∀ s z e s', J s → P (s, z) (.inl e) → step s e = some s' → C.mover e ≠ some i →
      C.wakes s e i = false → z i = true → C.waits s i = true → C.waits s' i = true)
    {s s' : σ} {z z' : ι → Bool} {xs : List (ε ⊕ ι)} (hs : J s)
    (hz : z i = true → C.waits s i = true)
    (hP : Along (C.step step) P (s, z) xs) (h : run (C.step step) (s, z) xs = some (s', z')) :
    z' i = true → C.waits s' i = true := by
  refine (run_invariant (I := fun w => J w.1 ∧ (w.2 i = true → C.waits w.1 i = true))
    ?_ ⟨hs, hz⟩ hP h).2
  rintro ⟨s, z⟩ x ⟨s', z'⟩ ⟨hs, hI⟩ hp hx
  rcases Cond.step_cases hx with ⟨e, rfl, ht, hmover, hz'⟩ | ⟨j, rfl, rfl, hw, rfl⟩
  · refine ⟨hJ s e s' hs ht, fun hi => ?_⟩
    dsimp only at hi ⊢
    rw [hz', Bool.and_eq_true, Bool.not_eq_true'] at hi
    refine hstep s z e s' hs hp ht (fun hm => ?_) hi.2 hi.1 (hI hi.1)
    rw [hmover i hm] at hi
    exact Bool.false_ne_true hi.1
  · refine ⟨hs, fun hi => ?_⟩
    by_cases hij : i = j
    · subst hij
      exact hw
    · dsimp only at hi
      rw [Function.update_of_ne hij] at hi
      exact hI hi

end SubstratePoc.Lib
