import SubstratePoc.Tunnel.Codec

namespace SubstratePoc.Tunnel
open Lib

/-- `putString` takes the strings of the frame. -/
def Frame.Fits (f : Frame) : Prop :=
  f.actorID.length ≤ maxString ∧ f.target.length ≤ maxString ∧ f.reason.length ≤ maxString

/-- A decoded frame is refused only for a string, and if it is not, it came from the bytes that
it is encoded to. -/
theorem decodeFrame_eq_ok {b r : Bytes} {f : Frame} (h : decodeFrame b = .ok (f, r)) :
    (refusal f = none ↔ f.Fits) ∧ (refusal f = none → b = written f ++ r) := by
  have hnil : ([] : Bytes).length ≤ maxString := Nat.zero_le _
  unfold refusal written Frame.Fits
  cases decodeFrame_decodes h with
  | hello hk | opens hk | attach hk | close hk =>
    simp only [hk, stringRefusal_eq_none, hnil, and_true, true_and]
    intro hfit
    simp only [stringBytes_of_le hfit, List.cons_append, List.append_assoc]
  | attachOK hk | ack hk | ping hk | pong hk =>
    simp only [hk, hnil, and_true, List.cons_append, List.append_assoc, forall_const]
  | data hk hp =>
    simp only [hk, hnil, and_true, if_neg (Nat.not_lt.mpr hp), List.cons_append, List.append_assoc,
      forall_const]

/-- `encodeFrame`, whatever is in the writer, returns nil and writes the bytes `p`. -/
def EncodesTo (f : Frame) (p : Bytes) : Prop :=
  ∀ w : ByteWriter, (encodeFrame w f).2 = none ∧ BufWriter.Emits w (encodeFrame w f).1 p

/-- A decoded frame is encoded to the bytes it was read from if and only if no string in it is
longer than `maxString`. -/
theorem encodesTo_consumed_iff_fits {b r : Bytes} {f : Frame} (h : decodeFrame b = .ok (f, r)) :
    (∃ p, b = p ++ r ∧ EncodesTo f p) ↔ f.Fits := by
  obtain ⟨hfits, hbytes⟩ := decodeFrame_eq_ok h
  rw [← hfits]
  constructor
  · rintro ⟨p, -, henc⟩
    rw [← encodeFrame_error newConn f]
    exact (henc newConn).1
  · intro hf
    exact ⟨written f, hbytes hf, fun w => ⟨(encodeFrame_error w f).trans hf, emits_encodeFrame w f⟩⟩

def closeAndMore : Bytes :=
  -- a CLOSE of neither direction with a reason of one byte, and a byte of the next frame
  [7, 0, 0, 0, 0, 0, 0, 0, 7, 9, 0, 1, 98, 8]

theorem encodesTo_closeAndMore : ∃ f p, decodeFrame closeAndMore = .ok (f, [8]) ∧
    closeAndMore = p ++ [8] ∧ EncodesTo f p := by
  have h : decodeFrame closeAndMore =
      .ok ({ type := 7, sessionID := 7, dir := 9, reason := [98] }, [8]) := by decide
  obtain ⟨p, hp⟩ := (encodesTo_consumed_iff_fits h).mpr (by unfold Frame.Fits; decide)
  exact ⟨_, p, h, hp⟩

def longID : Bytes :=
  -- an actor id with one byte more than `maxString`
  List.replicate 4097 97

theorem not_encodesTo_long_id : ∃ b f, decodeFrame b = .ok (f, []) ∧ ∀ p, ¬EncodesTo f p := by
  have hlen : longID.length = 4097 := List.length_replicate
  refine ⟨1 :: (beBytes 2 longID.length ++ (longID ++ [])), { type := 1, actorID := longID }, ?_, ?_⟩
  · unfold decodeFrame Source.decodeFrame
    rw [Reader.bind_ok (x := whole.readByte) rfl]
    have hread : longID.length < 256 ^ 2 := by
      rw [hlen]
      decide
    exact Reader.bind_ok (getString_announced hread [])
  · intro p henc
    have hnone := (henc newConn).1
    rw [encodeFrame_error] at hnone
    have hle : longID.length ≤ maxString := stringRefusal_eq_none.mp hnone
    rw [hlen] at hle
    exact absurd hle (by decide)

end SubstratePoc.Tunnel
