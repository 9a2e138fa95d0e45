import SubstratePoc.Tunnel.Message

namespace SubstratePoc.Sidecar
open Lib Tunnel

structure ClientSession where
  sessionID : UInt64
  target : Bytes
  upBuf : ReplayBuffer
  downDelivered : ℕ
  upClosed : Bool
  downClosed : Bool
  dead : Bool
  deriving DecidableEq

def newClientSession (sessionBuffer : ℕ) (id : UInt64) (target : Bytes) : ClientSession where
  sessionID := id
  target := target
  upBuf := newReplayBuffer sessionBuffer
  downDelivered := 0
  upClosed := false
  downClosed := false
  dead := false

namespace ClientSession

/-- The chunk `writeUp` takes off `p` in one round of its loop, with its offset. -/
def nextChunk (s : ClientSession) (p : Bytes) : Bytes × ℕ :=
  (p.take (min p.length s.upBuf.free), s.upBuf.endOffset)

/-- One round of `writeUp` up to the send; `none` is the `ErrFull` that `nextChunk` rules out. -/
def writeUp (s : ClientSession) (p : Bytes) : Option ClientSession :=
  (s.upBuf.append (s.nextChunk p).1).map fun b => { s with upBuf := b }

def onUpstreamAck (s : ClientSession) (offset : ℕ) : ClientSession :=
  { s with upBuf := s.upBuf.trimTo offset }

/-- `deliverDown` up to the agent write: what is left to write, if anything is. -/
def deliverDown (s : ClientSession) (offset : ℕ) (payload : Bytes) : Option Bytes :=
  if s.dead then none
  else if offset < s.downDelivered then
    if payload.length ≤ s.downDelivered - offset then none
    else some (payload.drop (s.downDelivered - offset))
  else if s.downDelivered < offset then none
  else some payload

/-- `deliverDown` after the agent write of `n` bytes. -/
def delivered (s : ClientSession) (n : ℕ) : ClientSession :=
  { s with downDelivered := s.downDelivered + n }

def attachFrame (s : ClientSession) : Msg := .attach s.sessionID s.downDelivered s.target

/-- `onAttachOK`: the trimmed session and the frames it sends. -/
def onAttachOK (s : ClientSession) (offset : ℕ) : ClientSession × List Msg :=
  let s := { s with upBuf := s.upBuf.trimTo offset }
  match s.upBuf.fromOffset offset with
  | .error _ => (s, [])
  | .ok replay => (s, if 0 < replay.length then [.data s.sessionID offset replay] else [])

/-- `onClose(DirDown)`. -/
def onClose (s : ClientSession) : ClientSession := { s with downClosed := true }

/-- `closeUp`; `none` if the half was closed already. -/
def closeUp (s : ClientSession) : Option ClientSession :=
  if s.upClosed then none else some { s with upClosed := true }

/-- `closeAll`; `none` if the session was dead already. -/
def closeAll (s : ClientSession) : Option ClientSession :=
  if s.dead then none else some { s with dead := true }

/-- A DATA frame handled to its end, with an agent that takes all of it. -/
def deliver (s : ClientSession) (offset : ℕ) (payload : Bytes) : ClientSession :=
  match s.deliverDown offset payload with
  | none => s
  | some q => s.delivered q.length

/-- The frames of a connection handled one after the other, as far as `deliverDown` is
concerned. -/
def deliverAll (s : ClientSession) (ms : List Msg) : ClientSession :=
  ms.foldl (fun s m => match m with | .data _ offset p => s.deliver offset p | _ => s) s

theorem dead_deliver (s : ClientSession) (offset : ℕ) (p : Bytes) :
    (s.deliver offset p).dead = s.dead := by
  unfold deliver
  split <;> rfl

theorem downDelivered_deliver {s : ClientSession} (hd : s.dead = false) (offset : ℕ) (p : Bytes) :
    (s.deliver offset p).downDelivered = splice s.downDelivered offset p := by
  unfold deliver deliverDown splice
  rw [if_neg (by simp [hd])]
  split_ifs with h1 h2 h3 h4 h5 h6 h7 <;> simp only [delivered, List.length_drop] <;> omega

theorem dead_deliverAll (s : ClientSession) (ms : List Msg) : (s.deliverAll ms).dead = s.dead := by
  induction ms generalizing s with
  | nil => rfl
  | cons m ms ih =>
    cases m <;> simp only [deliverAll, List.foldl_cons] at ih ⊢ <;> rw [ih]
    exact dead_deliver ..

theorem deliverAll_append (s : ClientSession) (ms ms' : List Msg) :
    s.deliverAll (ms ++ ms') = (s.deliverAll ms).deliverAll ms' := List.foldl_append ..

theorem downDelivered_deliverAll {s : ClientSession} (hd : s.dead = false) (ms : List Msg) :
    (s.deliverAll ms).downDelivered = spliceAll s.downDelivered (segments ms) := by
  induction ms generalizing s with
  | nil => rfl
  | cons m ms ih =>
    cases m with
    | data sid offset p =>
      have h := ih ((dead_deliver s offset p).trans hd)
      rwa [downDelivered_deliver hd] at h
    | _ => exact ih hd

theorem le_downDelivered_deliverAll {s : ClientSession} (hd : s.dead = false) (ms : List Msg) :
    s.downDelivered ≤ (s.deliverAll ms).downDelivered := by
  rw [downDelivered_deliverAll hd]
  exact le_spliceAll _ _

theorem downDelivered_deliverAll_le {s : ClientSession} {n : ℕ} {ms : List Msg}
    (hd : s.dead = false) (hs : s.downDelivered ≤ n)
    (hms : ∀ sid offset p, .data sid offset p ∈ ms → offset + p.length ≤ n) :
    (s.deliverAll ms).downDelivered ≤ n := by
  rw [downDelivered_deliverAll hd]
  apply spliceAll_le hs
  intro x hx
  obtain ⟨sid, hmem⟩ := mem_segments.mp hx
  exact hms sid x.1 x.2 hmem

theorem deliver_gap {s : ClientSession} {offset : ℕ} (p : Bytes) (h : s.downDelivered < offset) :
    s.deliver offset p = s := by
  unfold deliver deliverDown
  split_ifs <;> first | rfl | omega

theorem onAttachOK_fst (s : ClientSession) (offset : ℕ) :
    (s.onAttachOK offset).1 = { s with upBuf := s.upBuf.trimTo offset } := by
  unfold onAttachOK
  dsimp only
  split <;> rfl

theorem eq_data_of_mem_onAttachOK {s : ClientSession} {offset : ℕ} {m : Msg}
    (h : m ∈ (s.onAttachOK offset).2) : ∃ p, m = .data s.sessionID offset p := by
  unfold onAttachOK at h
  dsimp only at h
  split at h
  · cases h
  · split_ifs at h
    · exact ⟨_, List.mem_singleton.mp h⟩
    · cases h

theorem onAttachOK_eq {s : ClientSession} {offset : ℕ} (h1 : s.upBuf.base ≤ offset)
    (h2 : offset ≤ s.upBuf.endOffset) :
    (s.onAttachOK offset).2 = if offset < s.upBuf.endOffset then
      [.data s.sessionID offset (s.upBuf.buf.drop (offset - s.upBuf.base))] else [] := by
  have hbase : (s.upBuf.trimTo offset).base = offset := by
    rw [ReplayBuffer.base_trimTo]
    omega
  have hbuf : (s.upBuf.trimTo offset).buf = s.upBuf.buf.drop (offset - s.upBuf.base) := by
    rw [ReplayBuffer.buf_trimTo, hbase]
  have hfrom := ReplayBuffer.fromOffset_ok hbase.le
    (h2.trans_eq (s.upBuf.endOffset_trimTo offset).symm)
  rw [hbase, Nat.sub_self, List.drop_zero, hbuf] at hfrom
  simp only [onAttachOK, hfrom, ReplayBuffer.length_drop_base h1, Nat.sub_pos_iff_lt]

end ClientSession

end SubstratePoc.Sidecar
