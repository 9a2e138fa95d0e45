import SubstratePoc.Tunnel.Conn

namespace SubstratePoc.Tunnel
open Lib

theorem decodeFrame_take {f : Frame} (h : refusal f = none) {n : ℕ} (hn : n < (written f).length) :
    ∃ e, decodeFrame ((written f).take n) = .error e := by
  have hrest : (written f).drop n ≠ [] := by
    rw [Ne, List.drop_eq_nil_iff]
    omega
  obtain ⟨e, he, -⟩ := decodeFrame_part h (List.take_append_drop n _) hrest
  exact ⟨e, he⟩

/-! ## Streams of frames -/

/-- A frame of a known type with only the fields of its type set and none of them too long. -/
structure Frame.WellFormed (f : Frame) : Prop where
  known : (FrameType.ofByte f.type).isSome = true
  own : f.meaningful = f
  actorID_le : f.actorID.length ≤ maxString
  target_le : f.target.length ≤ maxString
  reason_le : f.reason.length ≤ maxString
  payload_le : f.payload.length ≤ maxPayload

/-- The bytes that reach the connection when the frames are encoded one after another and the
writer is then flushed. -/
def encoded (fs : List Frame) : Bytes :=
  (fs.foldl (fun w f => (encodeFrame w f).1) newConn).flush.out

theorem Frame.WellFormed.refusal_eq_none {f : Frame} (h : f.WellFormed) : refusal f = none := by
  obtain ⟨k, hk⟩ := Option.isSome_iff_exists.mp h.known
  unfold refusal
  rw [hk]
  cases k with
  | typeHello => exact stringRefusal_eq_none.mpr h.actorID_le
  | typeOpen | typeAttach => exact stringRefusal_eq_none.mpr h.target_le
  | typeClose => exact stringRefusal_eq_none.mpr h.reason_le
  | typeData => exact if_neg (Nat.not_lt.mpr h.payload_le)
  | typeAttachOK | typeAck | typePing | typePong => rfl

theorem emits_encodeFrames (fs : List Frame) (w : ByteWriter) :
    BufWriter.Emits w (fs.foldl (fun w f => (encodeFrame w f).1) w) (fs.flatMap written) := by
  induction fs generalizing w with
  | nil => exact BufWriter.Emits.refl w
  | cons f fs ih => exact (emits_encodeFrame w f).trans (ih (encodeFrame w f).1)

theorem encoded_eq (fs : List Frame) : encoded fs = fs.flatMap written :=
  (emits_encodeFrames fs newConn).bytes

theorem decodeUpTo_append {fs : List Frame} (h : ∀ f ∈ fs, refusal f = none) (r : Bytes) :
    decodeUpTo fs.length (fs.flatMap written ++ r) = (fs.map Frame.meaningful, r) := by
  induction fs with
  | nil => rfl
  | cons f fs ih =>
    rw [List.forall_mem_cons] at h
    rw [List.length_cons, List.flatMap_cons, List.append_assoc, decodeUpTo,
      decodeFrame_written h.1]
    dsimp only
    rw [ih h.2]
    rfl

/-- Of a stream that is cut, the frames that arrived whole are read. -/
theorem decodeUpTo_take {fs : List Frame} (h : ∀ f ∈ fs, refusal f = none) {n m : ℕ}
    (hm : ((fs.flatMap written).take n).length ≤ m) : ∃ j rest,
      decodeUpTo m ((fs.flatMap written).take n) = ((fs.take j).map Frame.meaningful, rest) ∧
      (fs.flatMap written).take n = (fs.take j).flatMap written ++ rest := by
  induction fs generalizing n m with
  | nil =>
    rw [List.flatMap_nil, List.take_nil]
    exact ⟨0, [], by cases m <;> rfl, rfl⟩
  | cons f fs ih =>
    rw [List.forall_mem_cons] at h
    rw [List.flatMap_cons] at hm ⊢
    by_cases hn : n < (written f).length
    · -- the cut is inside the first frame
      rw [List.take_append_of_le_length hn.le]
      obtain ⟨e, he⟩ := decodeFrame_take h.1 hn
      refine ⟨0, (written f).take n, ?_, rfl⟩
      cases m with
      | zero => rfl
      | succ m =>
        rw [decodeUpTo, he]
        rfl
    · have htake : (written f ++ fs.flatMap written).take n =
          written f ++ (fs.flatMap written).take (n - (written f).length) := by
        rw [List.take_append, List.take_of_length_le (by omega)]
      have hpos := written_pos f
      rw [htake] at hm ⊢
      rw [List.length_append] at hm
      obtain ⟨m, rfl⟩ : ∃ m', m = m' + 1 := ⟨m - 1, by omega⟩
      obtain ⟨j, rest, hdec, heq⟩ := ih h.2 (n := n - (written f).length) (m := m) (by omega)
      refine ⟨j + 1, rest, ?_, ?_⟩
      · rw [decodeUpTo, decodeFrame_written h.1]
        dsimp only
        rw [hdec]
        rfl
      · rw [heq, List.take_succ_cons, List.flatMap_cons, List.append_assoc]

/-- For well-formed frames, `encodeFrame` reports no error; decoding what it writes, followed by
any bytes, gives the frames back and leaves those bytes; no frame is read from a strict prefix of
one frame's encoding; and a stream cut after `n` bytes gives the frames that are whole in it. -/
theorem decode_encoded {fs : List Frame} (h : ∀ f ∈ fs, f.WellFormed) (trailing : Bytes) :
    (∀ f ∈ fs, ∀ w, (encodeFrame w f).2 = none) ∧
    decodeUpTo fs.length (encoded fs ++ trailing) = (fs, trailing) ∧
    (∀ f ∈ fs, ∀ n < (encoded [f]).length, ∃ e, decodeFrame ((encoded [f]).take n) = .error e) ∧
    ∀ n, ∃ j rest, decodeAll ((encoded fs).take n) = (fs.take j, rest) ∧
      (encoded fs).take n = encoded (fs.take j) ++ rest := by
  have hr : ∀ f ∈ fs, refusal f = none := fun f hf => (h f hf).refusal_eq_none
  have hown : ∀ gs : List Frame, gs ⊆ fs → gs.map Frame.meaningful = gs := by
    intro gs hgs
    rw [List.map_congr_left (g := id) fun f hf => (h f (hgs hf)).own, List.map_id]
  refine ⟨fun f hf w => (encodeFrame_error w f).trans (hr f hf), ?_, ?_, ?_⟩
  · rw [encoded_eq, decodeUpTo_append hr, hown fs (List.Subset.refl fs)]
  · intro f hf n hn
    rw [encoded_eq, List.flatMap_singleton] at hn ⊢
    exact decodeFrame_take (hr f hf) hn
  · intro n
    obtain ⟨j, rest, hdec, heq⟩ := decodeUpTo_take hr (n := n) le_rfl
    rw [hown _ (List.take_subset j fs)] at hdec
    simp only [encoded_eq]
    exact ⟨j, rest, hdec, heq⟩

def threeFrames : List Frame :=
  -- a HELLO, a DATA frame without payload, and a CLOSE of neither direction
  [{ type := 1, actorID := [97] }, { type := 5, sessionID := 7, offset := 3 },
    { type := 7, sessionID := 7, dir := 9, reason := [98] }]

theorem decode_encoded_threeFrames :
    decodeUpTo threeFrames.length (encoded threeFrames ++ [8]) = (threeFrames, [8]) := by
  have h : ∀ f ∈ threeFrames, f.WellFormed := by
    simp only [threeFrames, List.forall_mem_cons, List.not_mem_nil, false_imp_iff, implies_true,
      and_true]
    refine ⟨⟨rfl, rfl, ?_, ?_, ?_, ?_⟩, ⟨rfl, rfl, ?_, ?_, ?_, ?_⟩, ⟨rfl, rfl, ?_, ?_, ?_, ?_⟩⟩ <;>
      decide
  exact (decode_encoded h [8]).2.1

end SubstratePoc.Tunnel
