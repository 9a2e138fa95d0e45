import Mathlib.Data.List.Basic

namespace SubstratePoc.Lib

variable {α : Type*} [DecidableEq α] {l : List α} {a : α} {i : ℕ}

theorem idxOf?_eq_some_append :
    l.idxOf? a = some i ↔ ∃ p q, l = p ++ a :: q ∧ a ∉ p ∧ p.length = i := by
  induction l generalizing i with
  | nil => simp
  | cons x l ih =>
    rw [List.idxOf?_cons]
    by_cases hx : x = a
    · subst hx
      rw [if_pos (by simp)]
      constructor
      · rintro ⟨⟩
        exact ⟨[], l, rfl, by simp, rfl⟩
      · rintro ⟨p, q, heq, hp, rfl⟩
        cases p with
        | nil => rfl
        | cons y p =>
          obtain ⟨rfl, -⟩ := List.cons.inj heq
          exact absurd List.mem_cons_self hp
    · rw [if_neg (by simpa using hx), Option.map_eq_some_iff]
      constructor
      · rintro ⟨j, hj, rfl⟩
        obtain ⟨p, q, rfl, hp, rfl⟩ := ih.mp hj
        exact ⟨x :: p, q, rfl, by simp [Ne.symm hx, hp], rfl⟩
      · rintro ⟨p, q, heq, hp, rfl⟩
        cases p with
        | nil => exact absurd (List.cons.inj heq).1 hx
        | cons y p =>
          obtain ⟨rfl, rfl⟩ := List.cons.inj heq
          exact ⟨p.length, ih.mpr ⟨p, q, rfl, fun h => hp (List.mem_cons_of_mem _ h), rfl⟩, rfl⟩

def lastIdxOf? (a : α) (l : List α) : Option ℕ := (l.reverse.idxOf? a).map (l.length - 1 - ·)

theorem lastIdxOf?_eq_some_append :
    lastIdxOf? a l = some i ↔ ∃ p q, l = p ++ a :: q ∧ a ∉ q ∧ p.length = i := by
  rw [lastIdxOf?, Option.map_eq_some_iff]
  constructor
  · rintro ⟨j, hj, rfl⟩
    obtain ⟨p, q, heq, hp, rfl⟩ := idxOf?_eq_some_append.mp hj
    have hl : l = q.reverse ++ a :: p.reverse := by
      rw [← List.reverse_reverse l, heq]
      simp
    refine ⟨q.reverse, p.reverse, hl, by simpa using hp, ?_⟩
    rw [hl]
    simp
  · rintro ⟨p, q, rfl, hq, rfl⟩
    refine ⟨q.length, idxOf?_eq_some_append.mpr ⟨q.reverse, p.reverse, by simp, by simpa using hq,
      by simp⟩, ?_⟩
    simp

end SubstratePoc.Lib
