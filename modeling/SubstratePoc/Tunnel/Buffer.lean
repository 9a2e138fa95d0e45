import SubstratePoc.Lib.Segment

namespace SubstratePoc.Tunnel
open Lib

/-- Payloads, and Go strings, which are byte strings. -/
abbrev Bytes := List UInt8

/-- `ReplayBuffer`.  `append` is the only way to grow `buf`, so the cap is part of the type. -/
structure ReplayBuffer where
  /-- stream offset of `buf[0]` -/
  base : ℕ
  buf : Bytes
  max : ℕ
  le_max : buf.length ≤ max
  deriving DecidableEq

def newReplayBuffer (max : ℕ) : ReplayBuffer := ⟨0, [], max, Nat.zero_le _⟩

namespace ReplayBuffer

/-- `Free`: how many more bytes `append` can take. -/
def free (b : ReplayBuffer) : ℕ := b.max - b.buf.length

/-- `Len`: the retained (un-acked) byte count. -/
def len (b : ReplayBuffer) : ℕ := b.buf.length

/-- `End`: the offset one past the last retained byte. -/
def endOffset (b : ReplayBuffer) : ℕ := b.base + b.buf.length

/-- `Append`; `none` is `ErrFull`. -/
def append (b : ReplayBuffer) (p : Bytes) : Option ReplayBuffer :=
  if h : b.max < b.buf.length + p.length then none
  else some ⟨b.base, b.buf ++ p, b.max, by rw [List.length_append]; omega⟩

/-- `TrimTo`: offsets at or below `base` are a no-op, offsets beyond `End` are clamped. -/
def trimTo (b : ReplayBuffer) (offset : ℕ) : ReplayBuffer :=
  if offset ≤ b.base then b
  else if b.endOffset ≤ offset then ⟨b.endOffset, [], b.max, Nat.zero_le _⟩
  else ⟨offset, b.buf.drop (offset - b.base), b.max, by
    have := b.le_max
    rw [List.length_drop]
    omega⟩

/-- The two errors of `From`, with the numbers their texts name. -/
inductive FromError
  /-- the offset is below `base`: the peer acked these bytes -/
  | alreadyAcked (offset base : ℕ)
  | beyondEnd (offset endOffset : ℕ)
  deriving DecidableEq

/-- `From`: the retained bytes starting at `offset`. -/
def fromOffset (b : ReplayBuffer) (offset : ℕ) : Except FromError Bytes :=
  if offset < b.base then .error (.alreadyAcked offset b.base)
  else if b.endOffset < offset then .error (.beyondEnd offset b.endOffset)
  else .ok (b.buf.drop (offset - b.base))

@[simp] theorem len_eq_zero (b : ReplayBuffer) : b.len = 0 ↔ b.buf = [] := List.length_eq_zero_iff

theorem base_le_endOffset (b : ReplayBuffer) : b.base ≤ b.endOffset := Nat.le_add_right _ _

theorem length_drop_base {b : ReplayBuffer} {offset : ℕ} (h : b.base ≤ offset) :
    (b.buf.drop (offset - b.base)).length = b.endOffset - offset := by
  rw [List.length_drop, endOffset]
  omega

theorem append_eq_some {b b' : ReplayBuffer} {p : Bytes} (h : b.append p = some b') :
    b'.base = b.base ∧ b'.buf = b.buf ++ p ∧ b'.max = b.max := by
  unfold append at h
  split_ifs at h
  obtain rfl := Option.some.inj h
  exact ⟨rfl, rfl, rfl⟩

/-- A chunk cut to `Free` bytes is always accepted: the `ErrFull` branch is for callers that do
not look at `Free` first. -/
theorem append_take_free (b : ReplayBuffer) (p : Bytes) :
    ∃ b', b.append (p.take (min p.length b.free)) = some b' := by
  have hm := b.le_max
  refine ⟨_, dif_neg ?_⟩
  rw [List.length_take]
  unfold free
  omega

@[simp] theorem endOffset_append {b b' : ReplayBuffer} {p : Bytes} (h : b.append p = some b') :
    b'.endOffset = b.endOffset + p.length := by
  obtain ⟨hb, hf, -⟩ := append_eq_some h
  rw [endOffset, endOffset, hb, hf, List.length_append, Nat.add_assoc]

@[simp] theorem endOffset_trimTo (b : ReplayBuffer) (offset : ℕ) :
    (b.trimTo offset).endOffset = b.endOffset := by
  unfold trimTo
  split_ifs with h1 h2
  · rfl
  · rfl
  · simp only [endOffset, List.length_drop] at h2 ⊢
    omega

theorem base_trimTo (b : ReplayBuffer) (offset : ℕ) :
    (b.trimTo offset).base = Max.max b.base (min offset b.endOffset) := by
  have hb := b.base_le_endOffset
  unfold trimTo
  split_ifs with h1 h2
  · omega
  · show b.endOffset = _
    omega
  · show offset = _
    omega

theorem base_le_base_trimTo (b : ReplayBuffer) (offset : ℕ) :
    b.base ≤ (b.trimTo offset).base := by
  rw [base_trimTo]
  exact le_max_left _ _

theorem buf_trimTo (b : ReplayBuffer) (offset : ℕ) :
    (b.trimTo offset).buf = b.buf.drop ((b.trimTo offset).base - b.base) := by
  unfold trimTo
  split_ifs with h1 h2
  · simp
  · simp [endOffset]
  · rfl

@[simp] theorem max_trimTo (b : ReplayBuffer) (offset : ℕ) : (b.trimTo offset).max = b.max := by
  unfold trimTo
  split_ifs <;> rfl

theorem trimTo_buf_eq_nil {b : ReplayBuffer} {offset : ℕ} :
    (b.trimTo offset).buf = [] ↔ b.buf = [] ∨ b.endOffset ≤ offset := by
  have hend := b.endOffset_trimTo offset
  have hbase := b.base_trimTo offset
  rw [← List.length_eq_zero_iff, ← List.length_eq_zero_iff]
  unfold endOffset at *
  omega

theorem fromOffset_eq_ok {b : ReplayBuffer} {offset : ℕ} {r : Bytes}
    (h : b.fromOffset offset = .ok r) :
    b.base ≤ offset ∧ offset ≤ b.endOffset ∧ r = b.buf.drop (offset - b.base) := by
  unfold fromOffset at h
  split_ifs at h with h1 h2
  refine ⟨by omega, by omega, ?_⟩
  exact (Except.ok.inj h).symm

theorem fromOffset_ok {b : ReplayBuffer} {offset : ℕ} (h1 : b.base ≤ offset)
    (h2 : offset ≤ b.endOffset) : b.fromOffset offset = .ok (b.buf.drop (offset - b.base)) := by
  unfold fromOffset
  rw [if_neg (by omega), if_neg (by omega)]

/-- What the buffer is for: of the stream `S` appended so far it retains everything from
`base` on. -/
structure Retains (b : ReplayBuffer) (S : Bytes) : Prop where
  base_le : b.base ≤ S.length
  buf_eq : b.buf = S.drop b.base

namespace Retains

variable {b b' : ReplayBuffer} {S p : Bytes} {offset : ℕ}

theorem new (max : ℕ) : Retains (newReplayBuffer max) [] := ⟨le_rfl, rfl⟩

theorem endOffset_eq (h : Retains b S) : b.endOffset = S.length := by
  have := h.base_le
  rw [endOffset, h.buf_eq, List.length_drop]
  omega

theorem append (h : Retains b S) (ha : b.append p = some b') : Retains b' (S ++ p) := by
  obtain ⟨hb, hf, -⟩ := append_eq_some ha
  have hle := h.base_le
  refine ⟨?_, ?_⟩
  · rw [hb, List.length_append]
    omega
  · rw [hf, hb, h.buf_eq, List.drop_append_of_le_length hle]

theorem trimTo (h : Retains b S) (offset : ℕ) : Retains (b.trimTo offset) S := by
  -- trimming moves `base` but never beyond `End`, which is where the stream ends
  have hle := (b.trimTo offset).base_le_endOffset
  rw [endOffset_trimTo, h.endOffset_eq] at hle
  refine ⟨hle, ?_⟩
  rw [buf_trimTo, h.buf_eq, List.drop_drop, Nat.add_sub_cancel' (b.base_le_base_trimTo offset)]

theorem fromOffset (h : Retains b S) (h1 : b.base ≤ offset) (h2 : offset ≤ S.length) :
    b.fromOffset offset = .ok (S.drop offset) := by
  rw [fromOffset_ok h1 (h.endOffset_eq ▸ h2), h.buf_eq, List.drop_drop, Nat.add_sub_cancel' h1]

theorem agrees_of_fromOffset {r : Bytes} (h : Retains b S) (hf : b.fromOffset offset = .ok r) :
    Agrees S offset r ∧ offset + r.length = S.length := by
  obtain ⟨h1, h2, hr⟩ := fromOffset_eq_ok hf
  rw [h.endOffset_eq] at h2
  rw [h.buf_eq, List.drop_drop, Nat.add_sub_cancel' h1] at hr
  subst hr
  refine ⟨agrees_drop S offset, ?_⟩
  rw [List.length_drop]
  omega

end Retains

end ReplayBuffer

end SubstratePoc.Tunnel
