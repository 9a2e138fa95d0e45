import Mathlib.Data.List.Infix
import Mathlib.Data.List.ReduceOption
import SubstratePoc.Lib.Run

namespace SubstratePoc.Lib

variable {α : Type*}

/-- `p` is what the stream `S` holds at offset `o`. -/
def Agrees (S : List α) (o : ℕ) (p : List α) : Prop := p <+: S.drop o

instance [DecidableEq α] (S : List α) (o : ℕ) (p : List α) : Decidable (Agrees S o p) :=
  inferInstanceAs (Decidable (p <+: S.drop o))

/-- The position after the segment `(o, p)`: it moves only if the segment starts at or before
the position and reaches beyond it. -/
def splice (w o : ℕ) (p : List α) : ℕ := if o ≤ w ∧ w < o + p.length then o + p.length else w

/-- The elements of the segment `(o, p)` that a receiver at position `w` has not taken. -/
def fresh (w o : ℕ) (p : List α) : List α :=
  if o ≤ w ∧ w < o + p.length then p.drop (w - o) else []

theorem Agrees.mono {S S' : List α} {o : ℕ} {p : List α} (hS : S <+: S') (h : Agrees S o p) :
    Agrees S' o p := by
  obtain ⟨t, rfl⟩ := hS
  refine h.trans ?_
  rw [List.drop_append]
  exact List.prefix_append _ _

theorem Agrees.drop_to {S : List α} {o w : ℕ} {p : List α} (h : Agrees S o p) (ho : o ≤ w) :
    Agrees S w (p.drop (w - o)) := by
  have hd : p.drop (w - o) <+: (S.drop o).drop (w - o) := List.IsPrefix.drop h (w - o)
  rwa [List.drop_drop, Nat.add_sub_cancel' ho] at hd

theorem Agrees.length_le {S : List α} {o : ℕ} {p : List α} (h : Agrees S o p) (ho : o ≤ S.length) :
    o + p.length ≤ S.length := by
  have hl := List.IsPrefix.length_le h
  rw [List.length_drop] at hl
  omega

theorem Agrees.take_append {S : List α} {o : ℕ} {p : List α} (h : Agrees S o p) :
    S.take o ++ p = S.take (o + p.length) := by
  rw [List.take_add, ← List.prefix_iff_eq_take.mp h]

theorem Agrees.append {S : List α} {o : ℕ} {p q : List α} (hp : Agrees S o p)
    (hq : Agrees S (o + p.length) q) : Agrees S o (p ++ q) := by
  obtain ⟨t, ht⟩ := hp
  rw [Agrees, ← List.drop_drop, ← ht, List.drop_left] at hq
  rw [Agrees, ← ht]
  exact (List.prefix_append_right_inj p).mpr hq

theorem agrees_drop (S : List α) (o : ℕ) : Agrees S o (S.drop o) := List.prefix_rfl

theorem le_splice (w o : ℕ) (p : List α) : w ≤ splice w o p := by
  unfold splice
  split_ifs with h
  · exact h.2.le
  · exact le_rfl

theorem splice_mono {w w' : ℕ} (h : w ≤ w') (o : ℕ) (p : List α) :
    splice w o p ≤ splice w' o p := by
  unfold splice
  split_ifs <;> omega

theorem splice_self (w : ℕ) (p : List α) : splice w w p = w + p.length := by
  unfold splice
  split_ifs with h
  · rfl
  · omega

theorem splice_gap {w o : ℕ} (p : List α) (h : w < o) : splice w o p = w := by
  unfold splice
  rw [if_neg (by omega)]

theorem splice_old {w o : ℕ} {p : List α} (h : o + p.length ≤ w) : splice w o p = w := by
  unfold splice
  rw [if_neg (by omega)]

theorem splice_cover {w o : ℕ} {p : List α} (ho : o ≤ w) (h : w ≤ o + p.length) :
    splice w o p = o + p.length := by
  unfold splice
  split_ifs with hc
  · rfl
  · omega

/-! ## Runs of segments -/

def spliceAll (w : ℕ) (ss : List (ℕ × List α)) : ℕ := ss.foldl (fun w s => splice w s.1 s.2) w

theorem spliceAll_append (w : ℕ) (ss ss' : List (ℕ × List α)) :
    spliceAll w (ss ++ ss') = spliceAll (spliceAll w ss) ss' := List.foldl_append

theorem le_spliceAll (w : ℕ) (ss : List (ℕ × List α)) : w ≤ spliceAll w ss := by
  induction ss generalizing w with
  | nil => exact le_rfl
  | cons s ss ih => exact (le_splice w s.1 s.2).trans (ih _)

theorem spliceAll_mono {w w' : ℕ} (h : w ≤ w') (ss : List (ℕ × List α)) :
    spliceAll w ss ≤ spliceAll w' ss := by
  induction ss generalizing w w' with
  | nil => exact h
  | cons s ss ih => exact ih (splice_mono h s.1 s.2)

theorem spliceAll_le {w n : ℕ} {ss : List (ℕ × List α)} (hw : w ≤ n)
    (hss : ∀ s ∈ ss, s.1 + s.2.length ≤ n) : spliceAll w ss ≤ n := by
  induction ss generalizing w with
  | nil => exact hw
  | cons s ss ih =>
    rw [List.forall_mem_cons] at hss
    apply ih _ hss.2
    show splice w s.1 s.2 ≤ n
    unfold splice
    split_ifs
    · exact hss.1
    · exact hw

/-- What a receiver at position `w` takes of the segments `ss`. -/
def freshAll : ℕ → List (ℕ × List α) → List α
  | _, [] => []
  | w, s :: ss => fresh w s.1 s.2 ++ freshAll (splice w s.1 s.2) ss

theorem splice_eq_add (w o : ℕ) (p : List α) : splice w o p = w + (fresh w o p).length := by
  unfold splice fresh
  split_ifs with h
  · rw [List.length_drop]
    omega
  · rfl

theorem Agrees.fresh {S : List α} {o : ℕ} {p : List α} (h : Agrees S o p) (w : ℕ) :
    Agrees S w (fresh w o p) := by
  unfold Lib.fresh
  split_ifs with hw
  · exact h.drop_to hw.1
  · exact List.nil_prefix

/-- Segments of one stream extend the part of it that has been taken. -/
theorem take_freshAll {S : List α} {ss : List (ℕ × List α)} (h : ∀ s ∈ ss, Agrees S s.1 s.2)
    (w : ℕ) : S.take w ++ freshAll w ss = S.take (spliceAll w ss) := by
  induction ss generalizing w with
  | nil => exact List.append_nil _
  | cons s ss ih =>
    rw [List.forall_mem_cons] at h
    have hs := (h.1.fresh w).take_append
    rw [← splice_eq_add] at hs
    rw [freshAll, ← List.append_assoc, hs]
    exact ih h.2 _

/-- The rule for a receiver: what one segment does to its position and to what it has taken, a run
of segments does. -/
theorem run_splices {σ ε : Type*} (step : σ → ε → Option σ) (seg : ε → ℕ × List α) (I : σ → Prop)
    (pos : σ → ℕ) (out : σ → List α) {n : ℕ}
    (hstep : ∀ s e, I s → pos s < n → (seg e).1 + (seg e).2.length < n → ∃ s', step s e = some s' ∧
      I s' ∧ pos s' = splice (pos s) (seg e).1 (seg e).2 ∧
      out s' = out s ++ fresh (pos s) (seg e).1 (seg e).2)
    {s : σ} (hI : I s) (hpos : pos s < n) {es : List ε}
    (hes : ∀ e ∈ es, (seg e).1 + (seg e).2.length < n) :
    ∃ s', run step s es = some s' ∧ I s' ∧ pos s' = spliceAll (pos s) (es.map seg) ∧
      out s' = out s ++ freshAll (pos s) (es.map seg) := by
  induction es generalizing s with
  | nil => exact ⟨s, rfl, hI, rfl, (List.append_nil _).symm⟩
  | cons e es ih =>
    rw [List.forall_mem_cons] at hes
    obtain ⟨s₁, hs₁, hI₁, hpos₁, hout₁⟩ := hstep s e hI hpos hes.1
    have hlt : pos s₁ < n := by
      rw [hpos₁]
      unfold splice
      split_ifs
      · exact hes.1
      · exact hpos
    obtain ⟨s₂, hs₂, hI₂, hpos₂, hout₂⟩ := ih hI₁ hlt hes.2
    refine ⟨s₂, ?_, hI₂, ?_, ?_⟩
    · rw [run, hs₁, Option.bind_some, hs₂]
    · rw [hpos₂, hpos₁]
      rfl
    · rw [hout₂, hout₁, hpos₁, List.append_assoc]
      rfl

/-! ## Segments that are still to come -/

/-- What lies between the position `w` and `n` is in the segments `ss`. -/
def Covers (w n : ℕ) (ss : List (ℕ × List α)) : Prop :=
  ∀ x, w ≤ x → x < n → ∃ s ∈ ss, s.1 ≤ x ∧ x < s.1 + s.2.length

theorem Covers.mono {w n : ℕ} {ss ss' : List (ℕ × List α)} (h : Covers w n ss)
    (hss : ∀ s ∈ ss, s ∈ ss') : Covers w n ss' := by
  intro x hw hn
  obtain ⟨s, hs, hx⟩ := h x hw hn
  exact ⟨s, hss s hs, hx⟩

/-- The receiver is offered one of the segments before the others.  It may drop that segment: then
it lacks what comes before, and the segment that holds this reaches at least as far. -/
theorem Covers.splice {w n : ℕ} {ss : List (ℕ × List α)} {s : ℕ × List α}
    (h : Covers w n (s :: ss))
    (hss : ∀ t ∈ ss, t.1 < s.1 → s.1 + s.2.length ≤ t.1 + t.2.length) :
    Covers (splice w s.1 s.2) n ss := by
  intro x hw hn
  have hle := (le_splice w s.1 s.2).trans hw
  obtain ⟨t, ht, hx⟩ := h x hle hn
  rcases List.mem_cons.mp ht with rfl | ht
  · have hgap : w < t.1 := by
      by_contra hcov
      rw [splice_cover (by omega) (by omega)] at hw
      omega
    obtain ⟨u, hu, hwu⟩ := h w le_rfl (by omega)
    have hu : u ∈ ss := by
      refine (List.mem_cons.mp hu).resolve_left ?_
      rintro rfl
      omega
    have hend := hss u hu (by omega)
    exact ⟨u, hu, by omega⟩
  · exact ⟨t, ht, hx⟩

theorem Covers.le {w n : ℕ} (h : @Covers α w n []) : n ≤ w := by
  by_contra hlt
  obtain ⟨s, hs, -⟩ := h w le_rfl (by omega)
  cases hs

/-! ## Marks -/

/-- A line holds segments and marks.  Whoever takes the line from position `w` on has reached `n`
at every mark. -/
def Marked (n : ℕ) : ℕ → List (Option (ℕ × List α)) → Prop
  | _, [] => True
  | w, some s :: l => Marked n (splice w s.1 s.2) l
  | w, none :: l => n ≤ w ∧ Marked n w l

theorem Marked.mono {n w w' : ℕ} {l : List (Option (ℕ × List α))} (h : Marked n w l)
    (hw : w ≤ w') : Marked n w' l := by
  induction l generalizing w w' with
  | nil => trivial
  | cons x l ih =>
    cases x with
    | none => exact ⟨h.1.trans hw, ih h.2 hw⟩
    | some s => exact ih h (splice_mono hw s.1 s.2)

theorem marked_append {n w : ℕ} {l l' : List (Option (ℕ × List α))} :
    Marked n w (l ++ l') ↔ Marked n w l ∧ Marked n (spliceAll w l.reduceOption) l' := by
  induction l generalizing w with
  | nil => simp [Marked, spliceAll]
  | cons x l ih =>
    cases x with
    | none =>
      rw [List.cons_append, Marked, Marked, ih, and_assoc, List.reduceOption_cons_of_none]
    | some s =>
      rw [List.cons_append, Marked, Marked, ih, List.reduceOption_cons_of_some]
      rfl

theorem Marked.of_isPrefix {n w : ℕ} {l l' : List (Option (ℕ × List α))} (h : Marked n w l')
    (hl : l <+: l') : Marked n w l := by
  obtain ⟨t, rfl⟩ := hl
  exact (marked_append.mp h).1

theorem marked_of_notMem {n w : ℕ} {l : List (Option (ℕ × List α))} (h : none ∉ l) :
    Marked n w l := by
  induction l generalizing w with
  | nil => trivial
  | cons x l ih =>
    rw [List.mem_cons, not_or] at h
    cases x with
    | none => exact absurd rfl h.1
    | some s => exact ih h.2

end SubstratePoc.Lib
