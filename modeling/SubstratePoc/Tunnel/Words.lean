import Mathlib.Algebra.Group.Nat.Defs
import SubstratePoc.Lib.Run
import SubstratePoc.Tunnel.Buffer

namespace SubstratePoc.Tunnel
open Lib

/-- `s[n:]`; `none` is the panic. -/
def sliceFrom (s : Bytes) (n : UInt64) : Option Bytes :=
  if n.toNat ≤ s.length then some (s.drop n.toNat) else none

namespace Words

structure ReplayBuffer where
  base : UInt64
  buf : Bytes
  max : ℕ
  deriving DecidableEq

def newReplayBuffer (max : ℕ) : ReplayBuffer := ⟨0, [], max⟩

namespace ReplayBuffer

def free (b : ReplayBuffer) : ℤ := b.max - b.buf.length

def len (b : ReplayBuffer) : ℕ := b.buf.length

/-- `End`. -/
def endOffset (b : ReplayBuffer) : UInt64 := b.base + UInt64.ofNat b.buf.length

/-- `Append`, with whether the slice was taken; otherwise it is `ErrFull`. -/
def append (b : ReplayBuffer) (p : Bytes) : ReplayBuffer × Bool :=
  if b.max < b.buf.length + p.length then (b, false) else ({ b with buf := b.buf ++ p }, true)

def trimTo (b : ReplayBuffer) (offset : UInt64) : Option ReplayBuffer :=
  if offset ≤ b.base then some b
  else if b.endOffset ≤ offset then some { b with base := b.endOffset, buf := [] }
  else (sliceFrom b.buf (offset - b.base)).map fun rest => { b with base := offset, buf := rest }

/-- `From`. -/
def fromOffset (b : ReplayBuffer) (offset : UInt64) :
    Option (Except Tunnel.ReplayBuffer.FromError Bytes) :=
  if offset < b.base then some (.error (.alreadyAcked offset.toNat b.base.toNat))
  else if b.endOffset < offset then
    some (.error (.beyondEnd offset.toNat b.endOffset.toNat))
  else (sliceFrom b.buf (offset - b.base)).map .ok

end ReplayBuffer

/-- The buffer of natural numbers that a buffer of words stands for. -/
structure Represents (b : ReplayBuffer) (c : Tunnel.ReplayBuffer) : Prop where
  base_eq : b.base.toNat = c.base
  buf_eq : b.buf = c.buf
  max_eq : b.max = c.max

namespace Represents

variable {b : ReplayBuffer} {c : Tunnel.ReplayBuffer}

theorem new (max : ℕ) : Represents (newReplayBuffer max) (Tunnel.newReplayBuffer max) :=
  ⟨rfl, rfl, rfl⟩

theorem endOffset_eq (h : Represents b c) (hlt : c.endOffset < 2 ^ 64) :
    b.endOffset.toNat = c.endOffset := by
  unfold Tunnel.ReplayBuffer.endOffset at hlt ⊢
  rw [ReplayBuffer.endOffset, UInt64.toNat_add, UInt64.toNat_ofNat', h.base_eq, h.buf_eq]
  omega

theorem append (h : Represents b c) (p : Bytes) :
    (c.append p = none ∧ b.append p = (b, false)) ∨
      ∃ b' c', c.append p = some c' ∧ b.append p = (b', true) ∧ Represents b' c' := by
  unfold Tunnel.ReplayBuffer.append ReplayBuffer.append
  rw [h.max_eq, h.buf_eq]
  split_ifs with hfull
  · exact .inl ⟨rfl, rfl⟩
  · exact .inr ⟨_, _, rfl, rfl, h.base_eq, rfl, rfl⟩

theorem sliceFrom_eq (h : Represents b c) {offset : UInt64} (h1 : c.base ≤ offset.toNat)
    (h2 : offset.toNat ≤ c.endOffset) :
    sliceFrom b.buf (offset - b.base) = some (c.buf.drop (offset.toNat - c.base)) := by
  have hle : b.base ≤ offset := by
    rw [UInt64.le_iff_toNat_le, h.base_eq]
    exact h1
  unfold Tunnel.ReplayBuffer.endOffset at h2
  rw [sliceFrom, UInt64.toNat_sub_of_le _ _ hle, h.base_eq, h.buf_eq, if_pos (by omega)]

theorem trimTo (h : Represents b c) (hlt : c.endOffset < 2 ^ 64) (offset : UInt64) :
    ∃ b', b.trimTo offset = some b' ∧ Represents b' (c.trimTo offset.toNat) := by
  unfold ReplayBuffer.trimTo Tunnel.ReplayBuffer.trimTo
  simp only [UInt64.le_iff_toNat_le, h.base_eq, h.endOffset_eq hlt]
  split_ifs with h1 h2
  · exact ⟨b, rfl, h⟩
  · exact ⟨_, rfl, h.endOffset_eq hlt, rfl, h.max_eq⟩
  · rw [h.sliceFrom_eq (by omega) (by omega)]
    exact ⟨_, rfl, rfl, rfl, h.max_eq⟩

theorem fromOffset (h : Represents b c) (hlt : c.endOffset < 2 ^ 64) (offset : UInt64) :
    b.fromOffset offset = some (c.fromOffset offset.toNat) := by
  unfold ReplayBuffer.fromOffset Tunnel.ReplayBuffer.fromOffset
  simp only [UInt64.lt_iff_toNat_lt, h.base_eq, h.endOffset_eq hlt]
  split_ifs with h1 h2
  · rfl
  · rfl
  · rw [h.sliceFrom_eq (by omega) (by omega)]
    rfl

end Represents

/-! ## Whole runs -/

inductive Op
  | append (p : Bytes)
  | trimTo (offset : UInt64)
  | fromOffset (offset : UInt64)
  deriving DecidableEq

/-- A buffer with what has been done to it. -/
structure History where
  buffer : ReplayBuffer
  /-- the slices that `Append` has taken, one after the other -/
  stream : Bytes
  /-- for each `TrimTo` the lesser of its offset and of `End` at that time -/
  marks : List ℕ
  deriving DecidableEq

namespace History

def new (max : ℕ) : History := ⟨newReplayBuffer max, [], []⟩

/-- One call; `none` if it panics. -/
def step (h : History) : Op → Option History
  | .append p =>
    let r := h.buffer.append p
    some { h with buffer := r.1, stream := if r.2 then h.stream ++ p else h.stream }
  | .trimTo offset => (h.buffer.trimTo offset).map fun b => { h with
      buffer := b
      marks := min offset.toNat h.buffer.endOffset.toNat :: h.marks }
  | .fromOffset offset => (h.buffer.fromOffset offset).map fun _ => h

/-- The greatest of the marks, 0 if there are none. -/
def lowWater (h : History) : ℕ := h.marks.foldr Max.max 0

/-- The buffer stands for one that retains the stream from the low-water mark on. -/
structure Tracks (max : ℕ) (h : History) (c : Tunnel.ReplayBuffer) : Prop where
  represents : Represents h.buffer c
  retains : c.Retains h.stream
  base_eq : c.base = h.lowWater
  max_eq : c.max = max

theorem length_stream_step {h h' : History} {op : Op} (hs : h.step op = some h') :
    h.stream.length ≤ h'.stream.length := by
  cases op with
  | append p =>
    obtain rfl := Option.some.inj hs
    dsimp only
    split_ifs
    · rw [List.length_append]
      exact Nat.le_add_right _ _
    · exact le_rfl
  | trimTo | fromOffset =>
    obtain ⟨_, -, rfl⟩ := Option.map_eq_some_iff.mp hs
    exact le_rfl

variable {max : ℕ} {h h' : History} {c : Tunnel.ReplayBuffer}

theorem Tracks.endOffset_lt (hI : Tracks max h c) (hlt : h.stream.length < 2 ^ 64) :
    c.endOffset < 2 ^ 64 := hI.retains.endOffset_eq.trans_lt hlt

theorem Tracks.step (hI : Tracks max h c) (hlt : h.stream.length < 2 ^ 64) (op : Op) :
    ∃ h' c', h.step op = some h' ∧ Tracks max h' c' := by
  have hend := hI.endOffset_lt hlt
  cases op with
  | append p =>
    obtain ⟨-, hb⟩ | ⟨b', c', hc, hb, hrep⟩ := hI.represents.append p
    · refine ⟨h, c, ?_, hI⟩
      rw [History.step, hb]
      rfl
    · obtain ⟨hbase, -, hmax⟩ := Tunnel.ReplayBuffer.append_eq_some hc
      refine ⟨_, c', rfl, ?_, ?_, hbase.trans hI.base_eq, hmax.trans hI.max_eq⟩
      · rw [hb]
        exact hrep
      · rw [hb, if_pos rfl]
        exact hI.retains.append hc
  | trimTo offset =>
    obtain ⟨b', hb, hrep⟩ := hI.represents.trimTo hend offset
    have hs : h.step (.trimTo offset) = some { h with
        buffer := b'
        marks := min offset.toNat h.buffer.endOffset.toNat :: h.marks } := by
      rw [History.step, hb]
      rfl
    refine ⟨_, _, hs, hrep, hI.retains.trimTo _, ?_, (c.max_trimTo _).trans hI.max_eq⟩
    rw [Tunnel.ReplayBuffer.base_trimTo, hI.base_eq, ← hI.represents.endOffset_eq hend, max_comm]
    rfl
  | fromOffset offset =>
    refine ⟨h, c, ?_, hI⟩
    rw [History.step, hI.represents.fromOffset hend]
    rfl

theorem Tracks.run {ops : List Op} (hrun : run History.step (History.new max) ops = some h)
    (hlt : h.stream.length < 2 ^ 64) : ∃ c, Tracks max h c := by
  -- the stream only grows, so its last length bounds all the others
  refine run_preserves (I := fun h => h.stream.length < 2 ^ 64 → ∃ c, Tracks max h c) ?_ ?_ hrun hlt
  · intro h₁ op h₂ hI hs hlt₂
    have hlt₁ := (length_stream_step hs).trans_lt hlt₂
    obtain ⟨c, hc⟩ := hI hlt₁
    obtain ⟨h', c', hs', hc'⟩ := hc.step hlt₁ op
    cases hs.symm.trans hs'
    exact ⟨c', hc'⟩
  · intro _
    exact ⟨_, .new max, .new max, rfl, rfl⟩

end History

/-- After every sequence of calls that has appended fewer than 2^64 bytes, the buffer holds the
stream from the low-water mark on, `Append` and `From` succeed exactly where they should, and no
call panics. -/
theorem refines_stream {max : ℕ} {ops : List Op} {h : History}
    (hrun : run History.step (History.new max) ops = some h) (hlt : h.stream.length < 2 ^ 64) :
    h.buffer.buf = h.stream.drop h.buffer.base.toNat ∧
    h.buffer.endOffset.toNat = h.stream.length ∧
    h.buffer.base.toNat = h.lowWater ∧
    h.buffer.len + h.buffer.free = max ∧ h.buffer.len ≤ max ∧
    (∀ p, ((h.buffer.append p).2 = false ↔ max < h.buffer.len + p.length) ∧
      ((h.buffer.append p).2 = false → (h.buffer.append p).1 = h.buffer)) ∧
    (∀ o, (∃ r, h.buffer.fromOffset o = some (.ok r)) ↔
      h.buffer.base ≤ o ∧ o ≤ h.buffer.endOffset) ∧
    (∀ o r, h.buffer.fromOffset o = some (.ok r) → r = h.stream.drop o.toNat) ∧
    ∀ op, (h.step op).isSome = true := by
  obtain ⟨c, hI⟩ := History.Tracks.run hrun hlt
  have hend := hI.endOffset_lt hlt
  have hrep := hI.represents
  have hbuf := hI.retains.buf_eq
  have hlen := c.le_max
  have hmax : h.buffer.max = max := hrep.max_eq.trans hI.max_eq
  rw [← hrep.buf_eq, hI.max_eq] at hlen
  refine ⟨?_, ?_, ?_, ?_, hlen, ?_, ?_, ?_, ?_⟩
  · rw [hrep.buf_eq, hrep.base_eq, hbuf]
  · rw [hrep.endOffset_eq hend, hI.retains.endOffset_eq]
  · rw [hrep.base_eq, hI.base_eq]
  · rw [ReplayBuffer.len, ReplayBuffer.free, hmax]
    omega
  · intro p
    unfold ReplayBuffer.append ReplayBuffer.len
    rw [hmax]
    split_ifs with hfull
    · exact ⟨by simp [hfull], fun _ => rfl⟩
    · exact ⟨by simp [hfull], by simp⟩
  · intro o
    rw [hrep.fromOffset hend, UInt64.le_iff_toNat_le, UInt64.le_iff_toNat_le, hrep.base_eq,
      hrep.endOffset_eq hend]
    constructor
    · rintro ⟨r, hr⟩
      obtain ⟨h1, h2, -⟩ := Tunnel.ReplayBuffer.fromOffset_eq_ok (Option.some.inj hr)
      exact ⟨h1, h2⟩
    · rintro ⟨h1, h2⟩
      exact ⟨_, congrArg some (Tunnel.ReplayBuffer.fromOffset_ok h1 h2)⟩
  · intro o r hr
    rw [hrep.fromOffset hend] at hr
    obtain ⟨h1, h2, -⟩ := Tunnel.ReplayBuffer.fromOffset_eq_ok (Option.some.inj hr)
    rw [hI.retains.fromOffset h1 (h2.trans_eq hI.retains.endOffset_eq)] at hr
    exact (Except.ok.inj (Option.some.inj hr)).symm
  · intro op
    obtain ⟨h', c', hs, -⟩ := hI.step hlt op
    rw [hs]
    rfl

def trimmedTwice : List Op :=
  -- appends up to the cap, a trim beyond the end, one below the base, and a lookup at the end
  -- of the 64-bit range
  [.append [1, 2, 3], .append [4, 5], .trimTo 2, .append [4, 5], .trimTo 0xffffffffffffffff,
    .append [6], .trimTo 1, .fromOffset 0xffffffffffffffff]

theorem refines_stream_trimmedTwice :
    ∃ h, run History.step (History.new 4) trimmedTwice = some h ∧ h.stream = [1, 2, 3, 4, 5, 6] ∧
      h.buffer = ⟨5, [6], 4⟩ ∧ h.buffer.base.toNat = h.lowWater := by
  have hrun : run History.step (History.new 4) trimmedTwice =
      some ⟨⟨5, [6], 4⟩, [1, 2, 3, 4, 5, 6], [1, 5, 2]⟩ := by decide
  exact ⟨_, hrun, rfl, rfl, (refines_stream hrun (by decide)).2.2.1⟩

end Words

end SubstratePoc.Tunnel
