import SubstratePoc.Broker.Attach
import SubstratePoc.Pair.System

namespace SubstratePoc.Protocol
open Lib Tunnel Broker Sidecar
open Pair (Config sessionLost targetNotAllowed)

/-- `attach` says that `connectOnce` has the session in its snapshot and has not written its ATTACH
yet, `handled` that the broker has handled the session's ATTACH or OPEN on the current connection;
`up` and `down` are the frames in flight on it. -/
structure Net where
  cs : Option ClientSession
  conn : Option ConnId
  conns : ℕ
  attach : Bool
  handled : Bool
  up : List Msg
  down : List Msg
  broker : Option Session

/-! ## The sidecar -/

/-- `send`: a frame that `WriteFrame` refuses is lost, as is every frame while the tunnel is
down. -/
def Net.send (w : Net) (ms : List Msg) : Net :=
  if w.conn.isSome then { w with up := w.up ++ ms.filter (decide ·.Sendable) } else w

/-- `deliverDown` with an agent that takes everything. -/
def deliverDown (cs : ClientSession) (offset : ℕ) (p : Bytes) : ClientSession × List Msg :=
  match cs.deliverDown offset p with
  | none => (cs, [])
  | some q =>
    let cs := cs.delivered q.length
    (cs, [.ack cs.sessionID cs.downDelivered])

/-- One frame of `readLoop`. -/
def readFrame (cs : ClientSession) (w : Net) : Msg → Net
  | .attachOK _ offset =>
    let r := cs.onAttachOK offset
    { w with cs := some r.1 }.send r.2
  | .data _ offset p =>
    let r := deliverDown cs offset p
    { w with cs := some r.1 }.send r.2
  | .ack _ offset => { w with cs := some (cs.onUpstreamAck offset) }
  | .close _ dir _ => if dir = dirDown then { w with cs := some cs.onClose } else w
  | .opn _ _ | .attach _ _ _ => w

/-! ## The broker -/

/-- `sendToSidecar`, frame after frame: a frame that `WriteFrame` refuses detaches the session. -/
def Net.sendToSidecar (w : Net) (s : Session) : List Msg → Net
  | [] => { w with broker := some s }
  | m :: ms => match s.tconn with
    | none => { w with broker := some s }
    | some k =>
      if m.Sendable then
        (if w.conn = some k then { w with down := w.down ++ [m] } else w).sendToSidecar s ms
      else w.sendToSidecar (s.detach k).1 ms

/-- `onData` with a destination that takes everything. -/
def onData (s : Session) (offset : ℕ) (p : Bytes) : Session × List Msg :=
  let r := s.onData offset p
  match r.2 with
  | none => (r.1, [])
  | some q =>
    let s := r.1.onDataWritten q.length
    (s, [.ack s.sessionID s.upstreamWritten])

/-- `dialUpstream` from the end of the dial to the start of the reader. -/
def dialUpstream (s : Session) : Option (Session × List Msg) :=
  if s.connected then none
  else s.dialed.map fun r =>
    if 0 < r.2.length then
      let s := r.1.flushed r.2.length
      (s, [.ack s.sessionID s.upstreamWritten])
    else (r.1, [])

def openSession (cfg : Config) (k : ConnId) (target : Bytes) (w : Net) : Net :=
  if !cfg.allowTarget target then
    { w with down := w.down ++ [.close cfg.sessionID dirDown targetNotAllowed] }
  else match w.broker with
  | some s =>
    let s := s.bind k
    w.sendToSidecar s (s.onSidecarAttach 0)
  | none => { w with
      broker := some ((newSession cfg.sessionBufferBytes cfg.actorID cfg.sessionID target).bind k) }

def attachSession (cfg : Config) (k : ConnId) (offset : ℕ) (target : Bytes) (w : Net) : Net :=
  match w.broker with
  | some s =>
    let s := s.bind k
    w.sendToSidecar s (s.onSidecarAttach offset)
  | none =>
    if offset = 0 ∧ target ≠ [] then
      let w := openSession cfg k target w
      match w.broker with
      | some s => w.sendToSidecar s (s.onSidecarAttach offset)
      | none => w
    else { w with down := w.down ++ [.close cfg.sessionID dirDown sessionLost] }

def handleFrame (cfg : Config) (k : ConnId) (w : Net) : Msg → Net
  | .opn _ target => { openSession cfg k target w with handled := true }
  | .attach _ offset target => { attachSession cfg k offset target w with handled := true }
  | .data _ offset p => match w.broker with
    | none => w
    | some s => w.sendToSidecar (onData s offset p).1 (onData s offset p).2
  | .ack _ offset => { w with broker := w.broker.map (·.onDownstreamAck offset) }
  | .attachOK _ _ | .close _ _ _ => w

/-! ## Steps -/

inductive Event
  | openSession
  /-- `connectOnce` publishes the connection and takes its snapshot of the sessions -/
  | connect
  /-- `connectOnce` writes the session's ATTACH -/
  | attach
  /-- one round of `writeUp` -/
  | writeUp (p : Bytes)
  /-- the sidecar handles the next frame -/
  | recvDown
  /-- the broker handles the next frame -/
  | recvUp
  /-- the dial completes -/
  | dialed
  /-- one round of `produceDownstream` -/
  | produce (p : Bytes)
  /-- the frame loop of an earlier connection ends -/
  | detach (k : ConnId)
  | cut
  deriving DecidableEq

def step (cfg : Config) (w : Net) : Event → Option Net
  | .openSession => match w.cs with
    | some _ => none
    | none =>
      let cs := newClientSession cfg.sessionBuffer cfg.sessionID cfg.target
      some ({ w with cs := some cs }.send [.opn cs.sessionID cs.target])
  | .connect => if w.conn.isSome then none
    else some { w with conn := some w.conns, conns := w.conns + 1, attach := w.cs.isSome }
  | .attach => match w.cs with
    | none => none
    | some cs => if w.attach then some ({ w with attach := false }.send [cs.attachFrame]) else none
  | .writeUp p => match w.cs with
    | none => none
    | some cs => if p = [] ∨ readSize < p.length ∨ cs.upBuf.free = 0 then none
      else (cs.writeUp p).map fun cs' =>
        { w with cs := some cs' }.send [.data cs.sessionID (cs.nextChunk p).2 (cs.nextChunk p).1]
  | .recvDown => match w.down with
    | [] => none
    | m :: down => match w.cs with
      | none => some { w with down }
      | some cs => some (readFrame cs { w with down } m)
  | .recvUp => match w.conn, w.up with
    | some k, m :: up => some (handleFrame cfg k { w with up } m)
    | _, _ => none
  | .dialed => match w.broker with
    | none => none
    | some s => (dialUpstream s).map fun r => w.sendToSidecar r.1 r.2
  | .produce p => match w.broker with
    | none => none
    | some s => if s.connected = false ∨ p = [] ∨ readSize < p.length ∨ s.downBuf.free = 0 then none
      else (s.produce p).map fun s' =>
        w.sendToSidecar s' [.data s.sessionID (s.nextChunk p).2 (s.nextChunk p).1]
  | .detach k => if w.conn = some k ∨ w.conns ≤ k then none
    else some { w with broker := w.broker.map fun s => (s.detach k).1 }
  | .cut => if w.conn.isSome then
      some { w with conn := none, attach := false, handled := false, up := [], down := [] }
    else none

def start : Net := ⟨none, none, 0, false, false, [], [], none⟩

/-- No replay of this step exceeds `MaxPayload`. -/
def fits (w : Net) : Event → Bool
  | .recvUp => match w.up, w.broker with
    | .attach _ offset _ :: _, some s => s.downBuf.endOffset - offset ≤ maxPayload
    | .opn _ _ :: _, some s => s.downBuf.endOffset ≤ maxPayload
    | _, _ => true
  | .recvDown => match w.down, w.cs with
    | .attachOK _ offset :: _, some cs => cs.upBuf.endOffset - offset ≤ maxPayload
    | _, _ => true
  | _ => true

/-! ## What the handlers do -/

theorem send_eq {w : Net} {ms : List Msg} (h : ∀ m ∈ ms, m.Sendable) :
    w.send ms = { w with up := if w.conn.isSome then w.up ++ ms else w.up } := by
  unfold Net.send
  rw [List.filter_eq_self.mpr (by simpa using h)]
  split_ifs <;> rfl

theorem sendToSidecar_eq {w : Net} {s : Session} {ms : List Msg} (h : ∀ m ∈ ms, m.Sendable) :
    w.sendToSidecar s ms = { w with
      broker := some s
      down := if s.tconn.isSome ∧ w.conn = s.tconn then w.down ++ ms else w.down } := by
  induction ms generalizing w with
  | nil => simp [Net.sendToSidecar]
  | cons m ms ih =>
    rw [List.forall_mem_cons] at h
    unfold Net.sendToSidecar
    rcases hs : s.tconn with _ | k
    · simp
    · simp only [if_pos h.1, ih h.2, hs]
      split_ifs <;> simp_all

/-- Agent bytes the broker has taken: written, or queued before the dial. -/
def taken (s : Session) : ℕ := s.upstreamWritten + s.preConn.length

/-- An upstream handler brings what the broker has taken to `n`, acknowledges what is written and
leaves the downstream half alone. -/
structure Takes (n : ℕ) (s s' : Session) (ms : List Msg) : Prop where
  taken_eq : taken s' = n
  le_written : s.upstreamWritten ≤ s'.upstreamWritten
  dead : s'.dead = false
  tconn : s'.tconn = s.tconn
  downBuf : s'.downBuf = s.downBuf
  preConn : s'.connected = true → s'.preConn = []
  acks : ∀ m ∈ ms, ∃ sid, m = .ack sid s'.upstreamWritten

theorem takes_self {s : Session} (hd : s.dead = false)
    (hpre : s.connected = true → s.preConn = []) : Takes (taken s) s s [] :=
  ⟨rfl, le_rfl, hd, rfl, rfl, hpre, by simp⟩

theorem takes_onDataWritten {s : Session} (hd : s.dead = false) (hpre : s.preConn = []) (n : ℕ) :
    Takes (s.upstreamWritten + n) s (s.onDataWritten n)
      [.ack s.sessionID (s.onDataWritten n).upstreamWritten] := by
  refine ⟨?_, Nat.le_add_right _ _, hd, rfl, rfl, fun _ => hpre, by simp⟩
  simp [taken, Session.onDataWritten, Session.armWatchdog, hpre]

theorem takes_queue {s : Session} (hd : s.dead = false) (hc : s.connected = false) (q : Bytes) :
    Takes (taken s + q.length) s { s with preConn := s.preConn ++ q } [] := by
  refine ⟨?_, le_rfl, hd, rfl, rfl, fun h => ?_, by simp⟩
  · simp [taken, Nat.add_assoc]
  · rw [show ({ s with preConn := s.preConn ++ q } : Session).connected = s.connected from rfl,
      hc] at h
    cases h

theorem onData_takes {s : Session} (hd : s.dead = false)
    (hpre : s.connected = true → s.preConn = []) (offset : ℕ) (p : Bytes) :
    Takes (splice (taken s) offset p) s (onData s offset p).1 (onData s offset p).2 := by
  -- a DATA frame moves what the broker has taken to its end if it starts at or before it and
  -- reaches beyond
  unfold onData Session.onData
  rw [if_neg (by simp [hd])]
  -- both branches compare the offset with what has been taken, and keep the same part
  by_cases hc : s.connected = true
  · have htaken : taken s = s.upstreamWritten := by simp [taken, hpre hc]
    have hself := takes_self hd hpre
    have hwrite := takes_onDataWritten hd (hpre hc)
    rw [if_neg (by simp [hc])]
    rw [htaken] at hself ⊢
    split_ifs with h1 h2 h3
    · rwa [splice_old (by omega)]
    · rw [splice_cover h1.le (by omega)]
      have h := hwrite (p.drop (s.upstreamWritten - offset)).length
      rwa [List.length_drop, show s.upstreamWritten + (p.length - (s.upstreamWritten - offset)) =
        offset + p.length by omega, ← List.length_drop] at h
    · rwa [splice_gap p h3]
    · rw [show offset = s.upstreamWritten by omega, splice_self]
      exact hwrite p.length
  · have hc' : s.connected = false := by simpa using hc
    have hself := takes_self hd hpre
    have hqueue := takes_queue hd hc'
    rw [if_pos (by simp [hc'])]
    simp only [show s.upstreamWritten + s.preConn.length = taken s from rfl]
    split_ifs with h1 h2 h3
    · rwa [splice_old (by omega)]
    · rw [splice_cover h1.le (by omega)]
      have h := hqueue (p.drop (taken s - offset))
      rwa [List.length_drop, show taken s + (p.length - (taken s - offset)) = offset + p.length by
        omega] at h
    · rwa [splice_gap p h3]
    · rw [show offset = taken s by omega, splice_self]
      exact hqueue p

theorem dialUpstream_takes {s : Session} {r : Session × List Msg} (hd : s.dead = false)
    (h : dialUpstream s = some r) : Takes (taken s) s r.1 r.2 := by
  unfold dialUpstream Session.dialed at h
  split_ifs at h with hc hd'
  · simp [hd] at hd'
  · simp only [Option.map_some, Option.some.injEq] at h
    split_ifs at h with hp
    · subst h
      refine ⟨?_, Nat.le_add_right _ _, hd, rfl, rfl, fun _ => rfl, by simp⟩
      simp [taken, Session.flushed, Session.armWatchdog]
    · subst h
      refine ⟨?_, le_rfl, hd, rfl, rfl, fun _ => rfl, by simp⟩
      have hnil : s.preConn = [] := by simpa using hp
      simp [taken, Session.armWatchdog, hnil]

end SubstratePoc.Protocol
