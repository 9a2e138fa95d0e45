import SubstratePoc.Tunnel.Wire

namespace SubstratePoc.Tunnel
open Lib

/-- `NewConn`: the write side, a 64 KiB buffered writer. -/
def newConn : ByteWriter := BufWriter.new (64 * 1024) (by decide)

/-- `Conn.WriteFrame` on a connection without I/O errors: encode, then flush unless the frame
was refused. -/
def writeFrame (w : ByteWriter) (f : Frame) : ByteWriter × Option EncodeError :=
  match encodeFrame w f with
  | (w', some e) => (w', some e)
  | (w', none) => (w'.flush, none)

/-- Frames written one after another, with what each call returned. -/
def writeFrames (w : ByteWriter) : List Frame → ByteWriter × List (Option EncodeError)
  | [] => (w, [])
  | f :: fs =>
    let r := writeFrame w f
    let rs := writeFrames r.1 fs
    (rs.1, r.2 :: rs.2)

/-- The frames for which `WriteFrame` returned nil. -/
def acceptedFrames (fs : List Frame) : List Frame :=
  ((fs.zip (writeFrames newConn fs).2).filter fun x => x.2 = none).map Prod.fst

/-- `decodeFrame` repeated until it fails, and the bytes no frame was read from. -/
def decodeUpTo : ℕ → Bytes → List Frame × Bytes
  | 0, b => ([], b)
  | n + 1, b => match decodeFrame b with
    | .error _ => ([], b)
    | .ok (f, r) =>
      let rest := decodeUpTo n r
      (f :: rest.1, rest.2)

/-- Every frame takes at least one byte, so the length of the stream is fuel enough. -/
def decodeAll (b : Bytes) : List Frame × Bytes := decodeUpTo b.length b

/-- What the peer decodes is exactly what the writer was told it had sent. -/
def Intact (fs : List Frame) : Prop :=
  decodeAll (writeFrames newConn fs).1.out = ((acceptedFrames fs).map Frame.meaningful, [])

/-! ## Lengths -/

/-- The length of a frame on the wire. -/
def Frame.size (f : Frame) : ℕ :=
  match FrameType.ofByte f.type with
  | some .typeHello => 3 + f.actorID.length
  | some .typeOpen => 11 + f.target.length
  | some .typeAttach => 19 + f.target.length
  | some .typeAttachOK => 17
  | some .typeData => 21 + f.payload.length
  | some .typeAck => 17
  | some .typeClose => 12 + f.reason.length
  | some .typePing => 9
  | some .typePong => 9
  | none => 1

theorem written_pos (f : Frame) : 0 < (written f).length := Nat.succ_pos _

theorem length_stringBytes {s : Bytes} (h : stringRefusal s = none) :
    (stringBytes s).length = 2 + s.length := by
  rw [stringBytes_of_le (stringRefusal_eq_none.mp h), List.length_append, length_beBytes]

theorem length_payloadBytes {p : Bytes} (h : p.length ≤ maxPayload) :
    (payloadBytes p).length = 4 + p.length := by
  rw [payloadBytes, if_neg (Nat.not_lt.mpr h), List.length_append, length_beBytes]

theorem length_written {f : Frame} (h : refusal f = none) : (written f).length = f.size := by
  revert h
  unfold refusal written Frame.size
  rcases FrameType.ofByte f.type with _ | k
  · intro h
    cases h
  cases k with
  | typeHello | typeOpen | typeAttach | typeClose =>
    intro h
    simp only [List.length_cons, List.length_append, length_beBytes, length_stringBytes h]
    omega
  | typeAttachOK | typeAck | typePing | typePong =>
    intro _
    simp
  | typeData =>
    intro h
    dsimp only at h
    split_ifs at h with hp
    simp only [List.length_cons, List.length_append, length_beBytes,
      length_payloadBytes (Nat.not_lt.mp hp)]
    omega

theorem size_meaningful (f : Frame) : f.meaningful.size = f.size := by
  unfold Frame.meaningful Frame.size
  rcases ht : FrameType.ofByte f.type with _ | k
  · simp [ht]
  cases k <;> simp [ht]

theorem decodeFrame_length {b r : Bytes} {f : Frame} (h : decodeFrame b = .ok (f, r)) :
    b.length = f.size + r.length := by
  cases decodeFrame_decodes h with
  | hello hk | opens hk | attach hk | attachOK hk | ack hk | close hk | ping hk | pong hk =>
    simp only [Frame.size, hk, List.length_cons, List.length_append, length_beBytes]
    omega
  | data hk hp =>
    simp only [Frame.size, hk, List.length_cons, List.length_append, length_beBytes,
      length_payloadBytes hp]
    omega

theorem decodeUpTo_length {n : ℕ} {b : Bytes} :
    b.length = ((decodeUpTo n b).1.map Frame.size).sum + (decodeUpTo n b).2.length := by
  induction n generalizing b with
  | zero => simp [decodeUpTo]
  | succ n ih =>
    unfold decodeUpTo
    rcases hd : decodeFrame b with e | ⟨f, r⟩
    · simp
    · have := decodeFrame_length hd
      have := ih (b := r)
      simp only [List.map_cons, List.sum_cons]
      omega

/-! ## Decoding a concatenation -/

theorem decodeUpTo_written {fs : List Frame} (h : ∀ f ∈ fs, refusal f = none) {n : ℕ}
    (hn : (fs.flatMap written).length ≤ n) :
    decodeUpTo n (fs.flatMap written) = (fs.map Frame.meaningful, []) := by
  induction fs generalizing n with
  | nil => cases n <;> rfl
  | cons f fs ih =>
    have hpos := written_pos f
    rw [List.flatMap_cons, List.length_append] at hn
    -- the frame has at least one byte, so there is fuel for it
    obtain ⟨m, rfl⟩ : ∃ m, n = m + 1 := ⟨n - 1, by omega⟩
    rw [List.flatMap_cons, decodeUpTo, decodeFrame_written (h f List.mem_cons_self)]
    dsimp only
    rw [ih (fun g hg => h g (List.mem_cons_of_mem f hg)) (by omega)]
    rfl

/-! ## The writer after a sequence of frames -/

theorem writeFrame_accepted {w : ByteWriter} {f : Frame} (h : refusal f = none) :
    writeFrame w f = ((encodeFrame w f).1.flush, none) := by
  have he := encodeFrame_error w f
  unfold writeFrame
  rcases hf : encodeFrame w f with ⟨w', e⟩
  rw [hf, h] at he
  dsimp only at he
  subst he
  rfl

theorem writeFrame_refused {w : ByteWriter} {f : Frame} (h : refusal f ≠ none) :
    writeFrame w f = ((encodeFrame w f).1, refusal f) := by
  have he := encodeFrame_error w f
  unfold writeFrame
  rcases hf : encodeFrame w f with ⟨w', e⟩
  rw [hf] at he
  dsimp only at he
  subst he
  rcases hr : refusal f with _ | e
  · exact absurd hr h
  · rfl

theorem writeFrames_append (w : ByteWriter) (fs gs : List Frame) :
    writeFrames w (fs ++ gs) =
      ((writeFrames (writeFrames w fs).1 gs).1,
        (writeFrames w fs).2 ++ (writeFrames (writeFrames w fs).1 gs).2) := by
  induction fs generalizing w with
  | nil => rfl
  | cons f fs ih => simp [writeFrames, ih]

theorem writeFrames_errors (w : ByteWriter) (fs : List Frame) :
    (writeFrames w fs).2 = fs.map refusal := by
  induction fs generalizing w with
  | nil => rfl
  | cons f fs ih =>
    simp only [writeFrames, ih, List.map_cons, List.cons.injEq, and_true]
    by_cases h : refusal f = none
    · rw [writeFrame_accepted h, h]
    · rw [writeFrame_refused h]

theorem acceptedFrames_eq (fs : List Frame) :
    acceptedFrames fs = fs.filter fun f => refusal f = none := by
  unfold acceptedFrames
  rw [writeFrames_errors]
  induction fs with
  | nil => rfl
  | cons f fs ih => by_cases h : refusal f = none <;> simp_all

theorem emits_writeFrames {fs : List Frame} (h : ∀ f ∈ fs, refusal f ≠ none) (w : ByteWriter) :
    BufWriter.Emits w (writeFrames w fs).1 (fs.flatMap written) := by
  induction fs generalizing w with
  | nil => exact BufWriter.Emits.refl w
  | cons f fs ih =>
    have hf := writeFrame_refused (w := w) (h f List.mem_cons_self)
    have ht := ih (fun g hg => h g (List.mem_cons_of_mem f hg)) (encodeFrame w f).1
    simp only [writeFrames, hf, List.flatMap_cons]
    exact (emits_encodeFrame w f).trans ht

theorem bytes_writeFrame (w : ByteWriter) (f : Frame) :
    (writeFrame w f).1.out ++ (writeFrame w f).1.buf = w.out ++ w.buf ++ written f := by
  have he := (emits_encodeFrame w f).bytes
  by_cases h : refusal f = none
  · rw [writeFrame_accepted h]
    simpa [BufWriter.flush] using he
  · rw [writeFrame_refused h]
    exact he

/-- Nothing is lost or reordered on the way: what was sent and what is buffered are together
everything any frame has put into the writer. -/
theorem bytes_writeFrames (w : ByteWriter) (fs : List Frame) :
    (writeFrames w fs).1.out ++ (writeFrames w fs).1.buf =
      w.out ++ w.buf ++ fs.flatMap written := by
  induction fs generalizing w with
  | nil => simp [writeFrames]
  | cons f fs ih =>
    simp only [writeFrames, ih, bytes_writeFrame, List.flatMap_cons, List.append_assoc]

theorem size_writeFrames (w : ByteWriter) (fs : List Frame) :
    (writeFrames w fs).1.size = w.size := by
  induction fs generalizing w with
  | nil => rfl
  | cons f fs ih =>
    simp only [writeFrames, ih]
    have he := (emits_encodeFrame w f).size_eq
    by_cases h : refusal f = none
    · rw [writeFrame_accepted h]
      exact he
    · rw [writeFrame_refused h]
      exact he

theorem buf_writeFrames_accepted {w : ByteWriter} {fs : List Frame} {g : Frame}
    (h : refusal g = none) : (writeFrames w (fs ++ [g])).1.buf = [] := by
  rw [writeFrames_append]
  simp only [writeFrames, writeFrame_accepted h]
  rfl

theorem split_refused (fs : List Frame) :
    ∃ pre bad, fs = pre ++ bad ∧ (∀ f ∈ bad, refusal f ≠ none) ∧
      ∀ w : ByteWriter, w.buf = [] → (writeFrames w pre).1.buf = [] := by
  induction fs using List.reverseRecOn with
  | nil => exact ⟨[], [], rfl, by simp, fun w hw => hw⟩
  | append_singleton fs f ih =>
    by_cases h : refusal f = none
    · refine ⟨fs ++ [f], [], (List.append_nil _).symm, by simp, fun w _ => ?_⟩
      exact buf_writeFrames_accepted h
    · obtain ⟨pre, bad, rfl, hbad, hpre⟩ := ih
      refine ⟨pre, bad ++ [f], List.append_assoc _ _ _, ?_, hpre⟩
      intro g hg
      rcases List.mem_append.mp hg with hg | hg
      · exact hbad g hg
      · rw [List.mem_singleton.mp hg]
        exact h

/-! ## When the stream stays intact -/

/-- No refused frame comes before an accepted one, and what the refused frames leave behind
fits in the writer's buffer. -/
def RefusedLast (fs : List Frame) : Prop :=
  ∃ good bad, fs = good ++ bad ∧ (∀ f ∈ good, refusal f = none) ∧
    (∀ f ∈ bad, refusal f ≠ none) ∧ (bad.flatMap written).length ≤ 64 * 1024

theorem out_writeFrames_accepted {fs : List Frame} (h : ∀ f ∈ fs, refusal f = none)
    {w : ByteWriter} (hw : w.buf = []) :
    (writeFrames w fs).1.out = w.out ++ fs.flatMap written ∧ (writeFrames w fs).1.buf = [] := by
  have hb : (writeFrames w fs).1.buf = [] := by
    rcases List.eq_nil_or_concat' fs with rfl | ⟨pre, g, rfl⟩
    · exact hw
    · apply buf_writeFrames_accepted
      apply h
      simp
  have hbytes := bytes_writeFrames w fs
  rw [hb, hw, List.append_nil, List.append_nil] at hbytes
  exact ⟨hbytes, hb⟩

theorem intact_of_refusedLast {fs : List Frame} (h : RefusedLast fs) : Intact fs := by
  obtain ⟨good, bad, rfl, hgood, hbad, hfit⟩ := h
  have hg := out_writeFrames_accepted hgood (w := newConn) rfl
  have hacc : acceptedFrames (good ++ bad) = good := by
    rw [acceptedFrames_eq, List.filter_append, List.filter_eq_self.mpr (by simpa using hgood),
      List.filter_eq_nil_iff.mpr (by simpa using hbad), List.append_nil]
  have hout : (writeFrames newConn (good ++ bad)).1.out = good.flatMap written := by
    rw [writeFrames_append]
    rw [(emits_writeFrames hbad _).fits, hg.1]
    · rfl
    · rw [hg.2, size_writeFrames, List.length_nil, Nat.zero_add]
      exact hfit
  rw [Intact, hacc, hout]
  exact decodeUpTo_written hgood le_rfl

theorem length_flatMap_written (fs : List Frame) :
    (fs.flatMap written).length = ((fs.filter fun f => refusal f = none).map Frame.size).sum +
      ((fs.filter fun f => refusal f ≠ none).flatMap written).length := by
  induction fs with
  | nil => rfl
  | cons f fs ih =>
    rw [List.flatMap_cons, List.length_append, ih]
    by_cases h : refusal f = none
    · simp only [List.filter_cons, h, decide_true, ↓reduceIte, ne_eq, not_true_eq_false,
        decide_false, Bool.false_eq_true, List.map_cons, List.sum_cons, length_written h]
      omega
    · simp only [List.filter_cons, h, decide_false, Bool.false_eq_true, ↓reduceIte, ne_eq,
        not_false_eq_true, decide_true, List.flatMap_cons, List.length_append]
      omega

theorem flatMap_written_eq_nil {fs : List Frame} (h : (fs.flatMap written).length = 0) :
    fs = [] := by
  cases fs with
  | nil => rfl
  | cons f fs =>
    have := written_pos f
    rw [List.flatMap_cons, List.length_append] at h
    omega

/-- If the peer decodes exactly the accepted frames, it has received exactly their bytes, so
no byte of a refused frame has left the buffer; what is buffered was written after the last
flush. -/
theorem refusedLast_of_intact {fs : List Frame} (h : Intact fs) : RefusedLast fs := by
  obtain ⟨pre, bad, rfl, hbad, hpre⟩ := split_refused fs
  have hbuf := hpre newConn rfl
  have hem := emits_writeFrames hbad (writeFrames newConn pre).1
  -- the bytes that reached the peer are those of the accepted frames
  have hdec := decodeUpTo_length (n := (writeFrames newConn (pre ++ bad)).1.out.length)
    (b := (writeFrames newConn (pre ++ bad)).1.out)
  rw [← decodeAll, h, acceptedFrames_eq, List.map_map, List.length_nil, Nat.add_zero,
    show Frame.size ∘ Frame.meaningful = Frame.size from funext size_meaningful] at hdec
  have hall := congrArg List.length (bytes_writeFrames newConn (pre ++ bad))
  have hnew : newConn.out ++ newConn.buf = [] := rfl
  rw [hnew, List.nil_append, List.length_append, hdec, length_flatMap_written (pre ++ bad)] at hall
  -- so everything the refused frames wrote is still buffered
  have hrefused : (writeFrames newConn (pre ++ bad)).1.buf.length =
      ((pre.filter fun f => refusal f ≠ none).flatMap written).length +
        (bad.flatMap written).length := by
    have hb : bad.filter (fun f => refusal f ≠ none) = bad :=
      List.filter_eq_self.mpr (by simpa using hbad)
    rw [Nat.add_left_cancel hall, List.filter_append, List.flatMap_append, List.length_append, hb]
  rw [writeFrames_append] at hrefused
  have hbytes := congrArg List.length hem.bytes
  have hmono := hem.mono.length_le
  simp only [List.length_append, hbuf, List.length_nil, Nat.add_zero] at hbytes
  dsimp only at hrefused
  have hclean : pre.filter (fun f => refusal f ≠ none) = [] := by
    apply flatMap_written_eq_nil
    omega
  -- a refused frame before the last flush would have left bytes that are not in the buffer
  refine ⟨pre, bad, rfl, ?_, hbad, ?_⟩
  · intro f hf
    by_contra hne
    exact List.filter_eq_nil_iff.mp hclean f hf (by simpa using hne)
  · by_contra hbig
    have hspill := hem.spills (by
      rw [hbuf, size_writeFrames, List.length_nil, Nat.zero_add]
      exact Nat.lt_of_not_le hbig)
    omega

/-- The peer decodes exactly the frames `WriteFrame` accepted, with no byte over, if and only
if refused frames come last and their remains fit in the buffer. -/
theorem intact_iff_refusedLast (fs : List Frame) : Intact fs ↔ RefusedLast fs :=
  ⟨refusedLast_of_intact, intact_of_refusedLast⟩

theorem refusal_open {sid : UInt64} {t : Bytes} (h : maxString < t.length) :
    refusal { type := 2, sessionID := sid, target := t } = some (.stringTooLong t.length) := by
  show stringRefusal t = _
  rw [stringRefusal, if_pos h]

/-- An OPEN whose target is one byte too long, and the PING that flushes its header. -/
theorem not_intact_long_target :
    ¬Intact [{ type := 2, sessionID := 7, target := List.replicate 4097 97 },
      { type := 8, nonce := 1 }] := by
  intro h
  obtain ⟨good, bad, hfs, hgood, hbad, -⟩ := refusedLast_of_intact h
  have hopen : refusal { type := 2, sessionID := 7, target := List.replicate 4097 97 } ≠ none := by
    rw [refusal_open (by rw [List.length_replicate]; decide)]
    exact Option.some_ne_none _
  have hping : refusal { type := 8, nonce := 1 } = none := rfl
  cases good with
  | nil =>
    rw [List.nil_append] at hfs
    apply hbad { type := 8, nonce := 1 } _ hping
    rw [← hfs]
    exact List.mem_cons_of_mem _ List.mem_cons_self
  | cons g good =>
    rw [List.cons_append] at hfs
    apply hopen
    rw [(List.cons.inj hfs).1]
    exact hgood g List.mem_cons_self

end SubstratePoc.Tunnel
