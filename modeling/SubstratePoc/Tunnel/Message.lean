import SubstratePoc.Tunnel.Conn

namespace SubstratePoc.Tunnel
open Lib

/-- The session frames, each with the fields its type makes meaningful. -/
inductive Msg
  | opn (sid : UInt64) (target : Bytes)
  | attach (sid : UInt64) (offset : ℕ) (target : Bytes)
  | attachOK (sid : UInt64) (offset : ℕ)
  | data (sid : UInt64) (offset : ℕ) (payload : Bytes)
  | ack (sid : UInt64) (offset : ℕ)
  | close (sid : UInt64) (dir : UInt8) (reason : Bytes)
  deriving DecidableEq

namespace Msg

/-- The `tunnel.Frame` literal a message is sent as. -/
def frame : Msg → Frame
  | opn sid target => { type := FrameType.typeOpen.byte, sessionID := sid, target }
  | attach sid offset target =>
    { type := FrameType.typeAttach.byte, sessionID := sid, offset := .ofNat offset, target }
  | attachOK sid offset =>
    { type := FrameType.typeAttachOK.byte, sessionID := sid, offset := .ofNat offset }
  | data sid offset payload =>
    { type := FrameType.typeData.byte, sessionID := sid, offset := .ofNat offset, payload }
  | ack sid offset =>
    { type := FrameType.typeAck.byte, sessionID := sid, offset := .ofNat offset }
  | close sid dir reason => { type := FrameType.typeClose.byte, sessionID := sid, dir, reason }

/-- `WriteFrame` does not refuse the message. -/
def Sendable (m : Msg) : Prop := refusal m.frame = none

instance (m : Msg) : Decidable m.Sendable := inferInstanceAs (Decidable (_ = _))

theorem sendable_data {sid : UInt64} {offset : ℕ} {p : Bytes} :
    (data sid offset p).Sendable ↔ p.length ≤ maxPayload := by
  show (if maxPayload < p.length then some (EncodeError.payloadTooLarge p.length) else none) =
    none ↔ _
  split_ifs with h
  · simp only [false_iff]
    omega
  · simp only [true_iff]
    omega

/-- The piece of a stream that a DATA frame holds. -/
def segment : Msg → Option (ℕ × Bytes)
  | data _ offset p => some (offset, p)
  | _ => none

/-- The frames that bind the session to their connection. -/
def asks : Msg → Bool
  | opn _ _ | attach _ _ _ => true
  | _ => false

/-- An ACK of at most `n` bytes. -/
def AcksUpTo (n : ℕ) : Msg → Prop
  | ack _ offset => offset ≤ n
  | _ => True

theorem AcksUpTo.mono {n n' : ℕ} {m : Msg} (hn : n ≤ n') (h : m.AcksUpTo n) : m.AcksUpTo n' := by
  cases m with
  | ack sid offset => exact le_trans (b := n) h hn
  | _ => trivial

end Msg

def segments (ms : List Msg) : List (ℕ × Bytes) := ms.filterMap Msg.segment

theorem segments_append (ms ms' : List Msg) : segments (ms ++ ms') = segments ms ++ segments ms' :=
  List.filterMap_append

theorem mem_segments {ms : List Msg} {s : ℕ × Bytes} :
    s ∈ segments ms ↔ ∃ sid, .data sid s.1 s.2 ∈ ms := by
  unfold segments
  rw [List.mem_filterMap]
  constructor
  · rintro ⟨m, hm, hs⟩
    cases m with
    | data sid offset p =>
      obtain rfl := Option.some.inj hs
      exact ⟨sid, hm⟩
    | _ => cases hs
  · rintro ⟨sid, hm⟩
    exact ⟨_, hm, rfl⟩

end SubstratePoc.Tunnel
