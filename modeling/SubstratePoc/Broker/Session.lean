import SubstratePoc.Tunnel.Message

namespace SubstratePoc.Broker
open Lib Tunnel

/-- Tunnel connections, in the order in which the broker accepts them. -/
abbrev ConnId := ℕ

/-- Why an upstream connection ended: `io.EOF`, or an error with its text. -/
inductive Cause
  | eof
  | err (text : Bytes)
  deriving DecidableEq

def upstreamEOF : Bytes := "upstream EOF".toUTF8.data.toList

def dialFailed : Bytes := "dial failed: ".toUTF8.data.toList

/-- The reason `closeUpstream` puts into its CLOSE. -/
def Cause.reason : Cause → Bytes
  | .eof => upstreamEOF
  | .err text => text

/-- `session`.  `upstream` says whether the connection field is set, `watchdog` whether a timer
is armed and has not fired. -/
structure Session where
  actorID : Bytes
  sessionID : UInt64
  target : Bytes
  tconn : Option ConnId
  upstream : Bool
  connected : Bool
  preConn : Bytes
  downBuf : ReplayBuffer
  upstreamWritten : ℕ
  requestOutstanding : Bool
  upClosed : Bool
  downClosed : Bool
  dead : Bool
  watchdog : Bool
  deriving DecidableEq

def newSession (sessionBufferBytes : ℕ) (actorID : Bytes) (sessionID : UInt64) (target : Bytes) :
    Session where
  actorID := actorID
  sessionID := sessionID
  target := target
  tconn := none
  upstream := false
  connected := false
  preConn := []
  downBuf := newReplayBuffer sessionBufferBytes
  upstreamWritten := 0
  requestOutstanding := false
  upClosed := false
  downClosed := false
  dead := false
  watchdog := false

namespace Session

def bind (s : Session) (tc : ConnId) : Session := { s with tconn := some tc }

/-- `detach`: the new state and whether the actor is to be woken. -/
def detach (s : Session) (tc : ConnId) : Session × Bool :=
  if s.tconn ≠ some tc then (s, false)
  else ({ s with tconn := none },
    s.requestOutstanding && (decide (0 < s.downBuf.len) || s.downClosed))

/-- `armWatchdogLocked`. -/
def armWatchdog (s : Session) : Session := { s with watchdog := true }

/-- `dialUpstream` once the dial has succeeded: publish the connection and take the
pre-connect bytes.  `none` if the session died meanwhile. -/
def dialed (s : Session) : Option (Session × Bytes) :=
  if s.dead then none
  else some ({ s with upstream := true, connected := true, preConn := [] }.armWatchdog, s.preConn)

/-- `dialUpstream` after the pre-connect bytes have been written. -/
def flushed (s : Session) (n : ℕ) : Session :=
  { s with upstreamWritten := s.upstreamWritten + n, requestOutstanding := true }

/-- The chunk `produceDownstream` takes off `p` in one round of its loop, with its start. -/
def nextChunk (s : Session) (p : Bytes) : Bytes × ℕ :=
  (p.take (min p.length s.downBuf.free), s.downBuf.endOffset)

/-- One round of `produceDownstream` up to the tunnel write: `none` is the `ErrFull` that
`nextChunk` rules out. -/
def produce (s : Session) (p : Bytes) : Option Session :=
  (s.downBuf.append (s.nextChunk p).1).map fun b => { s with downBuf := b }

/-- `onData` up to the upstream write: what is left to write, if anything is. -/
def onData (s : Session) (offset : ℕ) (payload : Bytes) : Session × Option Bytes :=
  if s.dead then (s, none)
  else if !s.connected then
    let accepted := s.upstreamWritten + s.preConn.length
    -- a replayed beginning is cut off, a gap is dropped, everything else is queued
    if offset < accepted then
      if payload.length ≤ accepted - offset then (s, none)
      else ({ s with preConn := s.preConn ++ payload.drop (accepted - offset) }, none)
    else if accepted < offset then (s, none)
    else ({ s with preConn := s.preConn ++ payload }, none)
  else if offset < s.upstreamWritten then
    if payload.length ≤ s.upstreamWritten - offset then (s, none)
    else (s, some (payload.drop (s.upstreamWritten - offset)))
  else if s.upstreamWritten < offset then (s, none)
  else (s, some payload)

/-- `onData` after the upstream write of `n` bytes. -/
def onDataWritten (s : Session) (n : ℕ) : Session :=
  { s with upstreamWritten := s.upstreamWritten + n, requestOutstanding := true }.armWatchdog

def onDownstreamAck (s : Session) (offset : ℕ) : Session :=
  let s := { s with downBuf := s.downBuf.trimTo offset }
  if s.downBuf.len = 0 then { s with requestOutstanding := false } else s

/-- The frames `onSidecarAttach` sends, read off the session under the lock. -/
def onSidecarAttach (s : Session) (deliveredOffset : ℕ) : List Msg :=
  let replay := match s.downBuf.fromOffset deliveredOffset with
    | .ok r => r
    | .error _ => []
  let downClosed := s.downClosed && s.downBuf.endOffset == deliveredOffset + replay.length
  [.attachOK s.sessionID s.upstreamWritten] ++
    (if 0 < replay.length then [.data s.sessionID deliveredOffset replay] else []) ++
    (if downClosed then [.close s.sessionID dirDown upstreamEOF] else [])

/-- `onSidecarClose(DirUp)`; the result says whether there is a connection to half-close. -/
def onSidecarClose (s : Session) : Session × Bool := ({ s with upClosed := true }, s.upstream)

/-- `closeUpstream`: the new state with `bound` and `pending`; `none` if it was closed. -/
def closeUpstream (s : Session) : Option (Session × Bool × Bool) :=
  if s.downClosed then none
  else some ({ s with downClosed := true }, s.tconn.isSome, s.requestOutstanding)

/-- `maybeDestroy`'s condition. -/
def done (s : Session) : Bool := s.upClosed && s.downClosed && decide (s.downBuf.len = 0)

/-- `destroy`; `none` if the session was dead already. -/
def destroy (s : Session) : Option Session :=
  if s.dead then none else some { s with dead := true, watchdog := false }

/-- The watchdog's callback. -/
def watchdogWakes (s : Session) : Bool := !s.dead && s.requestOutstanding && s.tconn.isNone

theorem onDownstreamAck_eq (s : Session) (offset : ℕ) :
    s.onDownstreamAck offset = { s with
      downBuf := s.downBuf.trimTo offset
      requestOutstanding :=
        if (s.downBuf.trimTo offset).buf = [] then false else s.requestOutstanding } := by
  unfold onDownstreamAck
  dsimp only
  simp only [ReplayBuffer.len_eq_zero]
  split_ifs <;> rfl

theorem onSidecarAttach_cons (s : Session) (d : ℕ) : ∃ ms,
    s.onSidecarAttach d = .attachOK s.sessionID s.upstreamWritten :: ms ∧
      ∀ m ∈ ms, (∃ p, m = .data s.sessionID d p) ∨ m = .close s.sessionID dirDown upstreamEOF := by
  unfold onSidecarAttach
  dsimp only
  rw [List.append_assoc, List.singleton_append]
  refine ⟨_, rfl, ?_⟩
  rw [List.forall_mem_append]
  constructor <;> split_ifs <;> simp

end Session

end SubstratePoc.Broker
