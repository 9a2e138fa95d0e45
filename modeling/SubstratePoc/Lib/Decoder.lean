import Mathlib.Data.List.Infix

namespace SubstratePoc.Lib

variable {α β ε σ τ : Type}

/-! ## Decoders that agree -/

/-- The same value, and states that are related; or the same error.  An error in `ends` is one
that the first decoder has for want of input, and says nothing about the second. -/
inductive SameResult (ends : ε → Prop) (R : σ → τ → Prop) :
    Except ε (α × σ) → Except ε (α × τ) → Prop
  | ok (a : α) {s : σ} {t : τ} (h : R s t) : SameResult ends R (.ok (a, s)) (.ok (a, t))
  | error (e : ε) : SameResult ends R (.error e) (.error e)
  | ended {e : ε} (h : ends e) (y : Except ε (α × τ)) : SameResult ends R (.error e) y

/-- Two decoders with the same result from all states that are related. -/
def Sim (ends : ε → Prop) (R : σ → τ → Prop) (x : StateT σ (Except ε) α)
    (y : StateT τ (Except ε) α) : Prop :=
  ∀ s t, R s t → SameResult ends R (x s) (y t)

section Sim

variable {ends : ε → Prop} {R : σ → τ → Prop}

theorem Sim.pure (a : α) : Sim ends R (Pure.pure a) (Pure.pure a) := fun _ _ h => .ok a h

theorem Sim.fail (e : ε) : Sim (α := α) ends R (fun _ => .error e) (fun _ => .error e) :=
  fun _ _ _ => .error e

theorem Sim.bind {x : StateT σ (Except ε) α} {y : StateT τ (Except ε) α}
    {k : α → StateT σ (Except ε) β} {l : α → StateT τ (Except ε) β} (hx : Sim ends R x y)
    (hk : ∀ a, Sim ends R (k a) (l a)) : Sim ends R (x >>= k) (y >>= l) := by
  intro s t h
  show SameResult ends R (x s >>= fun r => k r.1 r.2) (y t >>= fun r => l r.1 r.2)
  have hxy := hx s t h
  generalize x s = u at hxy
  generalize y t = v at hxy
  cases hxy with
  | ok a h' => exact hk a _ _ h'
  | error e => exact .error e
  | ended he => exact .ended he _

end Sim

/-! ## An input that is there at once -/

/-- The two errors for an input that ends: before the first byte asked for, and after it. -/
structure Ends (ε : Type) where
  eof : ε
  unexpectedEOF : ε

def Ends.Is (e : Ends ε) (x : ε) : Prop := x = e.eof ∨ x = e.unexpectedEOF

def takeByte (e : Ends ε) : StateT (List α) (Except ε) α
  | [] => .error e.eof
  | c :: r => .ok (c, r)

def takeFull (e : Ends ε) (n : ℕ) : StateT (List α) (Except ε) (List α) := fun s =>
  if n ≤ s.length then .ok (s.take n, s.drop n)
  else .error (if s.isEmpty then e.eof else e.unexpectedEOF)

/-- `t` is the input `s` with `u` after it. -/
def Extends (u s t : List α) : Prop := t = s ++ u

theorem sim_takeByte (e : Ends ε) (u : List α) :
    Sim e.Is (Extends u) (takeByte e) (takeByte e) := by
  rintro s t rfl
  cases s with
  | nil => exact .ended (.inl rfl) _
  | cons c s => exact .ok c rfl

theorem sim_takeFull (e : Ends ε) (n : ℕ) (u : List α) :
    Sim e.Is (Extends u) (takeFull e n) (takeFull e n) := by
  rintro s t rfl
  unfold takeFull
  by_cases hn : n ≤ s.length
  · have hlen : n ≤ (s ++ u).length := by
      rw [List.length_append]
      omega
    rw [if_pos hn, if_pos hlen, List.take_append_of_le_length hn,
      List.drop_append_of_le_length hn]
    exact .ok _ rfl
  · rw [if_neg hn]
    refine .ended ?_ _
    split_ifs
    · exact .inl rfl
    · exact .inr rfl

end SubstratePoc.Lib
