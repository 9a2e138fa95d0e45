import Mathlib.Tactic.Common

namespace SubstratePoc.Lib

variable {σ ε : Type*}

def run (step : σ → ε → Option σ) : σ → List ε → Option σ
  | s, [] => some s
  | s, e :: es => (step s e).bind fun s' => run step s' es

/-- Every step of the run meets `P` in the state in which it is taken. -/
def Along (step : σ → ε → Option σ) (P : σ → ε → Prop) : σ → List ε → Prop
  | _, [] => True
  | s, e :: es => P s e ∧ match step s e with
    | none => True
    | some s' => Along step P s' es

instance Along.decidable (step : σ → ε → Option σ) (P : σ → ε → Prop)
    [∀ s e, Decidable (P s e)] : ∀ s es, Decidable (Along step P s es)
  | _, [] => .isTrue trivial
  | s, e :: es =>
    have : Decidable (match step s e with | none => True | some s' => Along step P s' es) :=
      match step s e with
      | none => .isTrue trivial
      | some s' => Along.decidable step P s' es
    inferInstanceAs (Decidable (_ ∧ _))

variable {step : σ → ε → Option σ} {P Q : σ → ε → Prop} {I : σ → Prop}

theorem run_cons {s s'' : σ} {e : ε} {es : List ε} (h : run step s (e :: es) = some s'') :
    ∃ s', step s e = some s' ∧ run step s' es = some s'' := by
  simpa only [run, Option.bind_eq_some_iff] using h

theorem run_append (s : σ) (es es' : List ε) :
    run step s (es ++ es') = (run step s es).bind fun t => run step t es' := by
  induction es generalizing s with
  | nil => rfl
  | cons e es ih =>
    rw [List.cons_append, run, run, Option.bind_assoc]
    simp only [ih]

theorem Along.head {s : σ} {e : ε} {es : List ε} (h : Along step P s (e :: es)) : P s e := h.1

theorem Along.tail {s s' : σ} {e : ε} {es : List ε} (h : Along step P s (e :: es))
    (hs : step s e = some s') : Along step P s' es := by
  have ht := h.2
  rwa [hs] at ht

theorem Along.and {s : σ} {es : List ε} (hP : Along step P s es) (hQ : Along step Q s es) :
    Along step (fun s e => P s e ∧ Q s e) s es := by
  induction es generalizing s with
  | nil => trivial
  | cons e es ih =>
    refine ⟨⟨hP.head, hQ.head⟩, ?_⟩
    split
    · trivial
    · rename_i t ht
      exact ih (hP.tail ht) (hQ.tail ht)

theorem Along.of_mem {C : ε → Prop} (s : σ) {es : List ε} (hC : ∀ e ∈ es, C e) :
    Along step (fun _ e => C e) s es := by
  induction es generalizing s with
  | nil => trivial
  | cons e es ih =>
    rw [List.forall_mem_cons] at hC
    refine ⟨hC.1, ?_⟩
    split
    · trivial
    · exact ih _ hC.2

theorem Along.and_mem {C : ε → Prop} {s : σ} {es : List ε} (h : Along step P s es)
    (hC : ∀ e ∈ es, C e) : Along step (fun s e => P s e ∧ C e) s es :=
  h.and (.of_mem s hC)

/-- The invariant rule: what one admissible step preserves, a run of admissible steps
preserves. -/
theorem run_invariant (hstep : ∀ s e s', I s → P s e → step s e = some s' → I s')
    {s s' : σ} {es : List ε} (hI : I s) (hP : Along step P s es)
    (hrun : run step s es = some s') : I s' := by
  induction es generalizing s with
  | nil => exact (Option.some.inj hrun) ▸ hI
  | cons e es ih =>
    obtain ⟨t, ht, hrun⟩ := run_cons hrun
    exact ih (hstep s e t hI hP.head ht) (hP.tail ht) hrun

/-- The rule for an invariant that an event of the run establishes. -/
theorem run_of_mem (hstep : ∀ s e s', I s → P s e → step s e = some s' → I s') {e : ε}
    (he : ∀ s s', step s e = some s' → I s') {s s' : σ} {es : List ε} (hmem : e ∈ es)
    (hP : Along step P s es) (hrun : run step s es = some s') : I s' := by
  induction es generalizing s with
  | nil => cases hmem
  | cons e' es ih =>
    obtain ⟨t, ht, hes⟩ := run_cons hrun
    rcases List.mem_cons.mp hmem with rfl | hmem
    · exact run_invariant hstep (he s t ht) (hP.tail ht) hes
    · exact ih hmem (hP.tail ht) hes

/-- A run into `Q` has a first step into `Q`, taken in a state that keeps the invariant. -/
theorem run_first {Q : σ → Prop} (hstep : ∀ s e s', I s → P s e → step s e = some s' → I s')
    {s s' : σ} {es : List ε} (hI : I s) (hP : Along step P s es) (hs : ¬Q s) (hs' : Q s')
    (hrun : run step s es = some s') : ∃ pre e post t u, es = pre ++ e :: post ∧
      run step s pre = some t ∧ I t ∧ ¬Q t ∧ step t e = some u ∧ Q u ∧ run step u post = some s' := by
  induction es generalizing s with
  | nil => exact absurd ((Option.some.inj hrun) ▸ hs') hs
  | cons e es ih =>
    obtain ⟨t, ht, hrun⟩ := run_cons hrun
    by_cases hQ : Q t
    · exact ⟨[], e, es, s, t, rfl, rfl, hI, hs, ht, hQ, hrun⟩
    · obtain ⟨pre, e', post, v, u, rfl, hpre, hv⟩ :=
        ih (hstep s e t hI hP.head ht) (hP.tail ht) hQ hrun
      exact ⟨e :: pre, e', post, v, u, rfl, by rw [run, ht, Option.bind_some, hpre], hv⟩

theorem run_invariant_mem {C : ε → Prop} (hstep : ∀ s e s', C e → I s → step s e = some s' → I s')
    {s s' : σ} {es : List ε} (hC : ∀ e ∈ es, C e) (hI : I s) (hrun : run step s es = some s') :
    I s' := by
  induction es generalizing s with
  | nil => exact (Option.some.inj hrun) ▸ hI
  | cons e es ih =>
    obtain ⟨t, ht, hrun⟩ := run_cons hrun
    rw [List.forall_mem_cons] at hC
    exact ih hC.2 (hstep s e t hC.1 hI ht) hrun

theorem run_preserves (hstep : ∀ s e s', I s → step s e = some s' → I s') {s s' : σ} {es : List ε}
    (hI : I s) (hrun : run step s es = some s') : I s' :=
  run_invariant_mem (C := fun _ => True) (fun s e s' _ => hstep s e s') (fun _ _ => trivial) hI hrun

/-- The rule for an exact side condition: admissible steps keep `I`, the first inadmissible one
leads to `J`, and nothing leads out of `J`. -/
theorem run_dichotomy {J : σ → Prop} {C : ε → Prop}
    (hkeep : ∀ s e s', C e → I s → P s e → step s e = some s' → I s')
    (hleave : ∀ s e s', C e → I s → ¬P s e → step s e = some s' → J s')
    (hstay : ∀ s e s', C e → J s → step s e = some s' → J s')
    {s s' : σ} {es : List ε} (hC : ∀ e ∈ es, C e) (hI : I s) (hrun : run step s es = some s') :
    Along step P s es ∧ I s' ∨ ¬Along step P s es ∧ J s' := by
  -- on the events: after the first inadmissible step `J` is carried by the rule above
  induction es generalizing s with
  | nil => exact .inl ⟨trivial, (Option.some.inj hrun) ▸ hI⟩
  | cons e es ih =>
    obtain ⟨t, ht, hrun⟩ := run_cons hrun
    rw [List.forall_mem_cons] at hC
    by_cases hP : P s e
    · have hiff : Along step P s (e :: es) ↔ Along step P t es := by
        simp [Along, hP, ht]
      rw [hiff]
      exact ih hC.2 (hkeep s e t hC.1 hI hP ht) hrun
    · have hJ := hleave s e t hC.1 hI hP ht
      exact .inr ⟨fun h => hP h.head, run_invariant_mem hstay hC.2 hJ hrun⟩

/-- The rule for a side condition that is exact at every step: the steps of a run meet it if and
only if every state of the run keeps the invariant. -/
theorem along_iff_invariant (hstep : ∀ s e s', I s → step s e = some s' → (P s e ↔ I s'))
    {s s' : σ} {es : List ε} (hI : I s) (hrun : run step s es = some s') :
    Along step P s es ↔ ∀ pre t, pre <+: es → run step s pre = some t → I t := by
  induction es generalizing s with
  | nil =>
    refine ⟨fun _ pre t hpre ht => ?_, fun _ => trivial⟩
    rw [List.prefix_nil] at hpre
    subst hpre
    exact (Option.some.inj ht) ▸ hI
  | cons e es ih =>
    obtain ⟨u, hu, hes⟩ := run_cons hrun
    constructor
    · intro hP pre t hpre ht
      cases pre with
      | nil => exact (Option.some.inj ht) ▸ hI
      | cons e' pre =>
        obtain ⟨rfl, hsub⟩ := List.cons_prefix_cons.mp hpre
        obtain ⟨v, hv, hvt⟩ := run_cons ht
        obtain rfl := Option.some.inj (hu.symm.trans hv)
        have hIu := (hstep s e' u hI hu).mp hP.head
        exact (ih hIu hes).mp (hP.tail hu) pre t hsub hvt
    · intro h
      have hIu : I u := by
        apply h [e] u (List.prefix_append [e] es)
        rw [run, hu]
        rfl
      refine ⟨(hstep s e u hI hu).mpr hIu, ?_⟩
      rw [hu]
      refine (ih hIu hes).mpr fun pre t hpre ht => ?_
      apply h (e :: pre) t (List.cons_prefix_cons.mpr ⟨rfl, hpre⟩)
      rw [run, hu]
      exact ht

/-! ## Observations -/

/-- What the steps of a run let an observer see. -/
def trace {O : Type*} (step : σ → ε → Option σ) (obs : σ → ε → List O) : σ → List ε → List O
  | _, [] => []
  | s, e :: es => obs s e ++ match step s e with
    | none => []
    | some s' => trace step obs s' es

/-- The invariant rule for a state together with what has been observed so far. -/
theorem run_trace_invariant {O : Type*} {obs : σ → ε → List O} {I : σ → List O → Prop}
    (hstep : ∀ s e s' l, I s l → P s e → step s e = some s' → I s' (l ++ obs s e))
    {s s' : σ} {es : List ε} (hI : I s []) (hP : Along step P s es)
    (hrun : run step s es = some s') : I s' (trace step obs s es) := by
  have hacc : ∀ l, I s l → I s' (l ++ trace step obs s es) := by
    clear hI
    induction es generalizing s with
    | nil =>
      intro l hl
      rw [trace, List.append_nil]
      exact (Option.some.inj hrun) ▸ hl
    | cons e es ih =>
      intro l hl
      obtain ⟨t, ht, hes⟩ := run_cons hrun
      have h := ih (hP.tail ht) hes _ (hstep s e t l hl hP.head ht)
      rw [List.append_assoc] at h
      rwa [trace, ht]
  exact hacc [] hI

end SubstratePoc.Lib
