import SubstratePoc.Lib.Run

namespace SubstratePoc.Lib

variable {σ τ ε δ : Type*} {step : σ → ε → Option σ} {step' : τ → δ → Option τ}
  {P : σ → ε → Prop} {R : σ → τ → Prop}

/-- What one admissible step can be matched by, a run of admissible steps can be matched by. -/
theorem run_simulates (hstep : ∀ s e s' t, R s t → P s e → step s e = some s' →
      ∃ ds t', run step' t ds = some t' ∧ R s' t')
    {s s' : σ} {t : τ} {es : List ε} (hR : R s t) (hP : Along step P s es)
    (hrun : run step s es = some s') : ∃ ds t', run step' t ds = some t' ∧ R s' t' := by
  induction es generalizing s t with
  | nil => exact ⟨[], t, rfl, (Option.some.inj hrun) ▸ hR⟩
  | cons e es ih =>
    obtain ⟨u, hu, hes⟩ := run_cons hrun
    obtain ⟨ds, t₁, hds, hR₁⟩ := hstep s e u t hR hP.head hu
    obtain ⟨ds', t', hds', hR'⟩ := ih hR₁ (hP.tail hu) hes
    refine ⟨ds ++ ds', t', ?_, hR'⟩
    rw [run_append, hds]
    exact hds'

end SubstratePoc.Lib
