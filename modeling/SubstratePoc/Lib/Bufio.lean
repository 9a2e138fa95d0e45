import Mathlib.Data.List.Infix

namespace SubstratePoc.Lib

variable {α : Type*}

structure BufWriter (α : Type*) where
  /-- what has reached the connection -/
  out : List α
  /-- what is still buffered -/
  buf : List α
  size : ℕ
  size_pos : 0 < size
  le_size : buf.length ≤ size

namespace BufWriter

def new (size : ℕ) (h : 0 < size) : BufWriter α := ⟨[], [], size, h, Nat.zero_le _⟩

def flush (w : BufWriter α) : BufWriter α := { w with
  out := w.out ++ w.buf
  buf := []
  le_size := Nat.zero_le _ }

def writeByte (w : BufWriter α) (c : α) : BufWriter α :=
  if h : w.buf.length < w.size then
    { w with buf := w.buf ++ [c], le_size := by rw [List.length_append]; exact h }
  else { w with out := w.out ++ w.buf, buf := [c], le_size := w.size_pos }

/-- `Write`.  Its loop runs at most twice: a write that does not fit fills the buffer and
flushes it, and with an empty buffer a write that still does not fit goes out directly. -/
def write (w : BufWriter α) (p : List α) : BufWriter α :=
  if h : w.buf.length + p.length ≤ w.size then
    { w with buf := w.buf ++ p, le_size := by rwa [List.length_append] }
  else if w.buf = [] then { w with out := w.out ++ p }
  else
    let n := w.size - w.buf.length
    if h' : (p.drop n).length ≤ w.size then
      { w with out := w.out ++ (w.buf ++ p.take n), buf := p.drop n, le_size := h' }
    else { w with
      out := w.out ++ (w.buf ++ p.take n) ++ p.drop n
      buf := []
      le_size := Nat.zero_le _ }

/-- `WriteString` on a connection that is no `io.StringWriter`: fill, flush and go on. -/
def writeString (w : BufWriter α) (s : List α) : BufWriter α := s.foldl writeByte w

structure Emits (w w' : BufWriter α) (p : List α) : Prop where
  size_eq : w'.size = w.size
  bytes : w'.out ++ w'.buf = w.out ++ w.buf ++ p
  mono : w.out <+: w'.out
  fits : w.buf.length + p.length ≤ w.size → w'.out = w.out
  spills : w.size < w.buf.length + p.length → w.out.length < w'.out.length

theorem Emits.refl (w : BufWriter α) : Emits w w [] :=
  ⟨rfl, (List.append_nil _).symm, List.prefix_rfl, fun _ => rfl, fun h => by
    have := w.le_size
    rw [List.length_nil] at h
    omega⟩

theorem Emits.buf_eq {w w' : BufWriter α} {p : List α} (h : Emits w w' p)
    (hfit : w.buf.length + p.length ≤ w.size) : w'.buf = w.buf ++ p := by
  have hb := h.bytes
  rw [h.fits hfit, List.append_assoc] at hb
  exact List.append_cancel_left hb

theorem Emits.trans {w w' w'' : BufWriter α} {p q : List α} (h : Emits w w' p)
    (h' : Emits w' w'' q) : Emits w w'' (p ++ q) := by
  refine ⟨h'.size_eq.trans h.size_eq, ?_, h.mono.trans h'.mono, ?_, ?_⟩
  · rw [h'.bytes, h.bytes, List.append_assoc]
  · intro hfit
    rw [List.length_append] at hfit
    have hp := h.buf_eq (by omega)
    rw [h'.fits (by rw [hp, h.size_eq, List.length_append]; omega), h.fits (by omega)]
  · intro hspill
    rw [List.length_append] at hspill
    have hle := h'.mono.length_le
    -- the first part that does not fit sends something, and nothing sent is taken back
    by_cases hp : w.size < w.buf.length + p.length
    · have := h.spills hp
      omega
    · have hb := h.buf_eq (by omega)
      have := h'.spills (by rw [hb, h.size_eq, List.length_append]; omega)
      rw [h.fits (by omega)] at this
      exact this

theorem emits_writeByte (w : BufWriter α) (c : α) : Emits w (w.writeByte c) [c] := by
  have hle := w.le_size
  have hpos := w.size_pos
  unfold writeByte
  split_ifs with h
  · refine ⟨rfl, (List.append_assoc _ _ _).symm, List.prefix_rfl, fun _ => rfl, ?_⟩
    simp only [List.length_singleton]
    omega
  · refine ⟨rfl, rfl, List.prefix_append _ _, ?_, ?_⟩ <;>
      simp only [List.length_singleton, List.length_append] <;> omega

theorem emits_writeString (w : BufWriter α) (s : List α) : Emits w (w.writeString s) s := by
  induction s generalizing w with
  | nil => exact Emits.refl w
  | cons c s ih => exact (emits_writeByte w c).trans (ih (w.writeByte c))

theorem emits_write (w : BufWriter α) (p : List α) : Emits w (w.write p) p := by
  have hle := w.le_size
  have hpos := w.size_pos
  unfold write
  dsimp only
  -- it fits, it bypasses the empty buffer, its rest fits after a flush, or its rest goes out, too
  split_ifs with h1 h2 h3
  · exact ⟨rfl, (List.append_assoc _ _ _).symm, List.prefix_rfl, fun _ => rfl, fun h => by omega⟩
  · refine ⟨rfl, by simp [h2], List.prefix_append _ _, fun h => absurd h h1, fun _ => ?_⟩
    simp only [h2, List.length_nil, List.length_append] at h1 ⊢
    omega
  · refine ⟨rfl, by simp, List.prefix_append _ _, fun h => absurd h h1, fun _ => ?_⟩
    simp only [List.length_append, List.length_take]
    omega
  · refine ⟨rfl, by simp, ?_, fun h => absurd h h1, fun _ => ?_⟩
    · rw [List.append_assoc]
      exact List.prefix_append _ _
    · simp only [List.length_append, List.length_take, List.length_drop] at h3 ⊢
      omega

end BufWriter

end SubstratePoc.Lib
