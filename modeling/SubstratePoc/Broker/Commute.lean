import SubstratePoc.Broker.Goroutine

namespace SubstratePoc.Broker
open Lib Tunnel

/-- The actions of one goroutine, nothing happening between them and all I/O succeeding: the
session they leave and what they do outside of it.  `none` if they are more than `n` or one of
them waits. -/
def perform : ℕ → Session → List Act → Option (Session × List Effect)
  | _, s, [] => some (s, [])
  | 0, _, _ :: _ => none
  | n + 1, s, a :: rest => (exec s a .ok).bind fun r =>
    (perform n r.s (r.push ++ rest)).map fun x => (x.1, r.eff ++ x.2)

def handle (s : Session) (h : Handler) : Option (Session × List Effect) := perform 5 s h.acts

def dataThenAck (s : Session) (payload : Bytes) (offset : ℕ) : Option Session :=
  (handle s (.data s.upstreamWritten payload)).bind fun x =>
    (handle x.1 (.ack offset)).map Prod.fst

def ackThenData (s : Session) (payload : Bytes) (offset : ℕ) : Option Session :=
  (handle s (.ack offset)).bind fun x =>
    (handle x.1 (.data s.upstreamWritten payload)).map Prod.fst

theorem handle_ack (s : Session) (offset : ℕ) :
    handle s (.ack offset) = some (s.onDownstreamAck offset, []) := rfl

theorem handle_data {s : Session} (hd : s.dead = false) (hc : s.connected = true)
    (payload : Bytes) : ∃ eff, handle s (.data s.upstreamWritten payload) =
      some (s.onDataWritten payload.length, .upstream payload :: eff) := by
  have hdata : s.onData s.upstreamWritten payload = (s, some payload) := by
    simp [Session.onData, hd, hc]
  have htconn : (s.onDataWritten payload.length).tconn = s.tconn := rfl
  unfold handle
  cases ht : s.tconn with
  | none =>
    refine ⟨[], ?_⟩
    simp [Handler.acts, perform, exec, hdata, upstreamWrite, hd, htconn, ht]
  | some tc =>
    have hack : (Msg.ack s.sessionID (s.onDataWritten payload.length).upstreamWritten).Sendable := rfl
    refine ⟨[.frame tc (.ack s.sessionID (s.onDataWritten payload.length).upstreamWritten)], ?_⟩
    simp [Handler.acts, perform, exec, hdata, upstreamWrite, hd, htconn, ht, hack]

/-- The two orders leave the same state, with the request outstanding, if and only if the ACK
leaves something in `downBuf`; the order with the ACK first always leaves it outstanding. -/
theorem data_ack_comm_iff {s : Session} (hd : s.dead = false) (hc : s.connected = true)
    (payload : Bytes) (offset : ℕ) : ∃ t u, dataThenAck s payload offset = some t ∧
      ackThenData s payload offset = some u ∧ u.requestOutstanding = true ∧
      (t = u ↔ s.downBuf.buf ≠ [] ∧ offset < s.downBuf.endOffset) ∧
      (t.requestOutstanding = true ↔ s.downBuf.buf ≠ [] ∧ offset < s.downBuf.endOffset) := by
  have hcond : s.downBuf.buf ≠ [] ∧ offset < s.downBuf.endOffset ↔
      (s.downBuf.trimTo offset).buf ≠ [] := by
    rw [Ne, Ne, ReplayBuffer.trimTo_buf_eq_nil, not_or, Nat.not_le]
  have hack := s.onDownstreamAck_eq offset
  obtain ⟨eff, hdata⟩ := handle_data hd hc payload
  obtain ⟨eff', hdata'⟩ : ∃ eff', handle (s.onDownstreamAck offset) (.data s.upstreamWritten payload) =
      some ((s.onDownstreamAck offset).onDataWritten payload.length, eff') := by
    obtain ⟨eff', h⟩ := handle_data (s := s.onDownstreamAck offset) (by rw [hack, hd])
      (by rw [hack, hc]) payload
    exact ⟨_, by rwa [show (s.onDownstreamAck offset).upstreamWritten = s.upstreamWritten by
      rw [hack]] at h⟩
  refine ⟨(s.onDataWritten payload.length).onDownstreamAck offset,
    (s.onDownstreamAck offset).onDataWritten payload.length, ?_, ?_, rfl, ?_⟩
  · rw [dataThenAck, hdata]
    rfl
  · rw [ackThenData, handle_ack, Option.bind_some, hdata']
    rfl
  · rw [hcond, hack, Session.onDownstreamAck_eq]
    by_cases hb : (s.downBuf.trimTo offset).buf = []
    · simp [Session.onDataWritten, Session.armWatchdog, hb]
    · simp [Session.onDataWritten, Session.armWatchdog, hb]

def answeredInTwo : Session := { newSession 16 [] 1 [] with
  -- a request is answered with two bytes, of which the ACK confirms one
  upstream := true
  connected := true
  upstreamWritten := 3
  requestOutstanding := true
  downBuf := ⟨0, [8, 9], 16, by decide⟩ }

theorem data_ack_comm_answeredInTwo : ∃ t, dataThenAck answeredInTwo [1] 1 = some t ∧
    ackThenData answeredInTwo [1] 1 = some t ∧ t.requestOutstanding = true := by
  obtain ⟨t, u, ht, hu, hreq, heq, -⟩ :=
    data_ack_comm_iff (s := answeredInTwo) rfl rfl [1] 1
  obtain rfl := heq.mpr (by decide)
  exact ⟨t, ht, hu, hreq⟩

/-- The response is acknowledged to its end.  If that ACK comes after the next request, the
session looks as if it waited for nothing. -/
theorem data_ack_ne_answered : ∃ es w t u, run step (World.create 16 [] 1 []) es = some w ∧
    w.AtRest ∧ w.s.dead = false ∧ w.s.connected = true ∧ dataThenAck w.s [2] 1 = some t ∧
    ackThenData w.s [2] 1 = some u ∧ t.requestOutstanding = false ∧ u.requestOutstanding = true := by
  refine ⟨[.call (.bind 0), .run 0 .ok, .run 0 .ok, .call .dial, .run 1 .ok, .run 1 .ok,
    .call (.data 0 [1]), .run 2 .ok, .run 2 .ok, .run 2 .ok, .run 2 .ok, .run 2 .ok,
    .run 1 (.read [8] none), .run 1 .ok, .run 1 .ok], _, _, _, rfl, ?_, rfl, rfl, rfl, rfl, rfl, rfl⟩
  decide

end SubstratePoc.Broker
