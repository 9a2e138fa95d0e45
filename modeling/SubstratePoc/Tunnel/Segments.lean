import SubstratePoc.Lib.BufReader
import SubstratePoc.Tunnel.Conn

namespace SubstratePoc.Tunnel
open Lib

namespace Source

variable {σ τ : Type}

/-- A frame loop: `ReadFrame` until it fails, for at most `n` rounds. -/
def readFrames (r : Source σ) : ℕ → σ → List Frame × Option DecodeError
  | 0, _ => ([], none)
  | n + 1, s => match r.decodeFrame s with
    | .error e => ([], some e)
    | .ok (f, s') =>
      let rest := r.readFrames n s'
      (f :: rest.1, rest.2)

theorem Agree.readFrames {R : σ → τ → Prop} {r : Source σ} {q : Source τ}
    (h : Agree (fun _ => False) R r q) (n : ℕ) {s : σ} {t : τ} (hst : R s t) :
    r.readFrames n s = q.readFrames n t := by
  induction n generalizing s t with
  | zero => rfl
  | succ n ih =>
    have hsame := h.decodeFrame s t hst
    unfold Source.readFrames
    generalize r.decodeFrame s = x at hsame
    generalize q.decodeFrame t = y at hsame
    cases hsame with
    | ok f hst' =>
      dsimp only
      rw [ih hst']
    | error e => rfl
    | ended he => exact he.elim

end Source

/-- The read side of `NewConn`: a `bufio.Reader` of 64 KiB. -/
def connReader : Source (BufReader UInt8) where
  readByte := BufReader.readByte ends (64 * 1024)
  readFull := BufReader.readFull ends (64 * 1024)

theorem connReader_agree : connReader.Agree (fun _ => False) BufReader.Reads whole where
  readByte := BufReader.sim_readByte (by decide)
  readFull n := BufReader.sim_readFull (by decide) n

/-- `ReadFrame` gives the same frames in whatever segments the bytes arrive. -/
theorem connReader_readFrames {segs : List Bytes} (h : ∀ p ∈ segs, p ≠ []) (n : ℕ) :
    connReader.readFrames n ⟨[], segs⟩ = whole.readFrames n segs.flatten :=
  connReader_agree.readFrames n ⟨h, rfl⟩

/-! ## A connection that ends anywhere -/

/-- The frames of which all is in the first `m` bytes. -/
def framesWithin : ℕ → List Frame → List Frame
  | _, [] => []
  | m, f :: fs =>
    if (written f).length ≤ m then f :: framesWithin (m - (written f).length) fs else []

theorem whole_decodeFrame : whole.decodeFrame = decodeFrame := rfl

theorem whole_readFrames_prefix {fs : List Frame} (hfs : ∀ f ∈ fs, refusal f = none) {b : Bytes}
    (hb : b <+: fs.flatMap written) :
    ∃ e, ends.Is e ∧ ∀ n, (framesWithin b.length fs).length < n →
      whole.readFrames n b = ((framesWithin b.length fs).map Frame.meaningful, some e) := by
  -- induction on the frames: `b` begins with the whole of the first, or ends inside of it
  induction fs generalizing b with
  | nil =>
    rw [List.flatMap_nil, List.prefix_nil] at hb
    subst hb
    refine ⟨.eof, .inl rfl, fun n hn => ?_⟩
    obtain ⟨n, rfl⟩ := Nat.exists_eq_add_one_of_ne_zero (by omega : n ≠ 0)
    rfl
  | cons f fs ih =>
    rw [List.forall_mem_cons] at hfs
    rw [List.flatMap_cons] at hb
    by_cases hlen : (written f).length ≤ b.length
    · obtain ⟨c, rfl⟩ := List.prefix_of_prefix_length_le (List.prefix_append _ _) hb hlen
      obtain ⟨e, he, hread⟩ := ih hfs.2 ((List.prefix_append_right_inj _).mp hb)
      have hw : framesWithin (written f ++ c).length (f :: fs) =
          f :: framesWithin c.length fs := by
        rw [framesWithin, if_pos hlen, List.length_append, Nat.add_sub_cancel_left]
      refine ⟨e, he, fun n hn => ?_⟩
      rw [hw, List.length_cons] at hn
      obtain ⟨n, rfl⟩ := Nat.exists_eq_add_one_of_ne_zero (by omega : n ≠ 0)
      rw [Source.readFrames, whole_decodeFrame, decodeFrame_written hfs.1, hw]
      dsimp only
      rw [hread n (by omega)]
      rfl
    · have hw : framesWithin b.length (f :: fs) = [] := by rw [framesWithin, if_neg hlen]
      obtain ⟨u, hu⟩ := List.prefix_of_prefix_length_le hb (List.prefix_append _ _) (by omega)
      have hne : u ≠ [] := by
        rintro rfl
        rw [← hu, List.append_nil] at hlen
        omega
      obtain ⟨e, hdec, he⟩ := decodeFrame_part hfs.1 hu hne
      refine ⟨e, he, fun n hn => ?_⟩
      obtain ⟨n, rfl⟩ := Nat.exists_eq_add_one_of_ne_zero (by omega : n ≠ 0)
      rw [Source.readFrames, whole_decodeFrame, hdec, hw]
      rfl

/-- Frames written to a connection that delivers its bytes in any segments and ends anywhere: the
frame loop of the peer reads those that arrived whole, and then an end of input. -/
theorem readFrames_of_segments {fs : List Frame} (hfs : ∀ f ∈ fs, refusal f = none)
    {segs : List Bytes} (hsegs : ∀ p ∈ segs, p ≠ [])
    (hpre : segs.flatten <+: (writeFrames newConn fs).1.out) :
    ∃ e, (e = .eof ∨ e = .unexpectedEOF) ∧
      ∀ n, (framesWithin segs.flatten.length fs).length < n →
        connReader.readFrames n ⟨[], segs⟩ =
          ((framesWithin segs.flatten.length fs).map Frame.meaningful, some e) := by
  have hout : (writeFrames newConn fs).1.out = fs.flatMap written :=
    (out_writeFrames_accepted hfs (w := newConn) rfl).1
  rw [hout] at hpre
  obtain ⟨e, he, hread⟩ := whole_readFrames_prefix hfs hpre
  refine ⟨e, he, fun n hn => ?_⟩
  rw [connReader_readFrames hsegs]
  exact hread n hn

def cutSegments : List Bytes :=
  -- an `ACK` and a `DATA` frame in segments that fall inside of fields, with the last byte
  -- lost
  [[6, 0, 0, 0], [0, 0, 0, 0, 7, 0, 0, 0, 0, 0, 0, 0, 9, 5, 0],
    [0, 0, 0, 0, 0, 0, 7, 0, 0, 0, 0, 0, 0, 0, 2, 0, 0, 0], [2, 65]]

theorem readFrames_of_segments_cut :
    ∃ e, connReader.readFrames 2 ⟨[], cutSegments⟩ =
      ([{ type := 6, sessionID := 7, offset := 9 }], some e) := by
  have hfs : ∀ f ∈ [{ type := 6, sessionID := 7, offset := 9 },
      ({ type := 5, sessionID := 7, offset := 2, payload := [65, 66] } : Frame)],
      refusal f = none := by decide
  have hsegs : ∀ p ∈ cutSegments, p ≠ [] := by decide
  obtain ⟨e, -, hread⟩ := readFrames_of_segments hfs hsegs (by decide)
  exact ⟨e, hread 2 (by decide)⟩

end SubstratePoc.Tunnel
