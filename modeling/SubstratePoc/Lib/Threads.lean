import Mathlib.Data.List.Nodup
import Mathlib.Logic.Function.Basic

namespace SubstratePoc.Lib

variable {A : Type*}

/-- The goroutine that moves, between the others. -/
theorem threads_split {ts : List (List A)} {i : ℕ} {t : List A} (h : ts[i]? = some t) :
    ∃ L R, ts = L ++ t :: R ∧ L.length = i ∧ ∀ u, ts.set i u = L ++ u :: R := by
  obtain ⟨hi, ht⟩ := List.getElem?_eq_some_iff.mp h
  refine ⟨ts.take i, ts.drop (i + 1), ?_, ?_, ?_⟩
  · rw [← ht, List.getElem_cons_drop, List.take_append_drop]
  · rw [List.length_take]
    omega
  · intro u
    rw [List.set_eq_take_append_cons_drop, if_pos hi]

theorem flatten_split (L R : List (List A)) (t : List A) :
    (L ++ t :: R).flatten = L.flatten ++ (t ++ R.flatten) := by
  simp

theorem mem_of_replace {X Y push : List A} {a x : A} (h : x ∈ X ++ (push ++ Y)) :
    x ∈ push ∨ x ∈ X ++ a :: Y := by
  simp only [List.mem_append, List.mem_cons] at h ⊢
  tauto

theorem mem_flatten_replace {L R : List (List A)} {rest push : List A} {a x : A}
    (h : x ∈ (L ++ (push ++ rest) :: R).flatten) :
    x ∈ push ∨ x ∈ (L ++ (a :: rest) :: R).flatten := by
  rw [flatten_split, List.append_assoc] at h
  rw [flatten_split, List.cons_append]
  exact mem_of_replace h

theorem forall_false_of_all {f : A → Bool} {l : List A} (h : l.all (!f ·) = true) :
    ∀ x ∈ l, f x = false := by
  intro x hx
  simpa using List.all_eq_true.mp h x hx

theorem filter_eq_nil_of_false {f : A → Bool} {l : List A} (h : ∀ x ∈ l, f x = false) :
    l.filter f = [] := by
  rw [List.filter_eq_nil_iff]
  simpa using h

theorem filter_replace {f : A → Bool} {X Y push : List A} {a : A} (ha : f a = false)
    (hpush : ∀ b ∈ push, f b = false) :
    (X ++ (push ++ Y)).filter f = (X ++ a :: Y).filter f := by
  rw [List.filter_append, List.filter_append, filter_eq_nil_of_false hpush, List.nil_append,
    List.filter_append, List.filter_cons_of_neg (by simp [ha])]

theorem forall_false_of_once {f : A → Bool} {X Y : List A} {a : A}
    (h : ((X ++ a :: Y).filter f).length ≤ 1) (ha : f a = true) : ∀ x ∈ X ++ Y, f x = false := by
  rw [List.filter_append, List.filter_cons_of_pos ha, List.length_append, List.length_cons] at h
  have hX : (X.filter f).length = 0 := by omega
  have hY : (Y.filter f).length = 0 := by omega
  rw [List.length_eq_zero_iff, List.filter_eq_nil_iff] at hX hY
  rw [List.forall_mem_append]
  exact ⟨fun x hx => by simpa using hX x hx, fun x hx => by simpa using hY x hx⟩

/-! ## Actions at the end of a goroutine -/

theorem eq_nil_of_last {f : A → Bool} {a : A} {rest : List A}
    (h : ∀ x ∈ (a :: rest).dropLast, f x = false) (ha : f a = true) : rest = [] := by
  cases rest with
  | nil => rfl
  | cons b l =>
    have := h a (by simp)
    rw [ha] at this
    cases this

/-- Such actions stay at the end if only they leave one to do, at the end. -/
theorem last_replace {f : A → Bool} {a : A} {push rest : List A}
    (h : ∀ x ∈ (a :: rest).dropLast, f x = false) (hpush : ∀ x ∈ push.dropLast, f x = false)
    (ha : f a = false → ∀ x ∈ push, f x = false) :
    ∀ x ∈ (push ++ rest).dropLast, f x = false := by
  cases rest with
  | nil => rwa [List.append_nil]
  | cons b l =>
    intro x hx
    rw [List.dropLast_append_of_ne_nil (by simp)] at hx
    have hself : f a = false := h a (by simp)
    rcases List.mem_append.mp hx with hx | hx
    · exact ha hself x hx
    · exact h x (by simp [hx])

/-- The entry of one name, in a list of names without repetitions. -/
theorem map_set_of_nodup {N B : Type*} [DecidableEq N] {ns : List N} {f : N → B} {n : N} {i : ℕ}
    {b : B} (hns : ns.Nodup) (hi : ns[i]? = some n) :
    (ns.map f).set i b = ns.map (Function.update f n b) := by
  obtain ⟨hlt, rfl⟩ := List.getElem?_eq_some_iff.mp hi
  rw [hns.map_update, if_pos (List.getElem_mem hlt), hns.idxOf_getElem]

end SubstratePoc.Lib
