import SubstratePoc.Broker.Session
import SubstratePoc.Lib.Run
import SubstratePoc.Lib.Threads

namespace SubstratePoc.Broker
open Lib Tunnel

/-- What the caller of `produceDownstream` does when it returns. -/
inductive After
  | ret
  /-- `readUpstreamLoop` reads on -/
  | read
  /-- the read that returned these bytes also returned an error -/
  | close (cause : Cause)
  deriving DecidableEq

inductive Act
  | bind (tc : ConnId)
  | register (tc : ConnId)
  | detach (tc : ConnId)
  | dial
  | dialed
  | flush (pre : Bytes)
  | flushed (n : ℕ)
  | readUpstream
  | produce (p : Bytes) (after : After)
  | onData (offset : ℕ) (payload : Bytes)
  | upWrite (payload : Bytes)
  | onDataWritten (n : ℕ)
  | onDownstreamAck (offset : ℕ)
  | onSidecarAttach (deliveredOffset : ℕ)
  | onSidecarClose (dir : UInt8)
  | closeWrite
  | closeUpstream (cause : Cause)
  | send (m : Msg)
  | write (tc : ConnId) (m : Msg)
  | wake
  | maybeDestroy
  | destroy
  | removeSession
  | watchdog
  deriving DecidableEq

/-- How an I/O call turns out. -/
inductive Choice
  | ok
  /-- an error, after `n` bytes of a write -/
  | fail (n : ℕ) (text : Bytes)
  /-- what a read from the destination returns -/
  | read (p : Bytes) (err : Option Cause)
  deriving DecidableEq

/-- What an action does outside the session. -/
inductive Effect
  /-- bytes written to the destination -/
  | upstream (p : Bytes)
  /-- a frame a tunnel connection accepted -/
  | frame (tc : ConnId) (m : Msg)
  | wake
  | register (tc : ConnId)
  | removeSession
  | closeWrite
  deriving DecidableEq

structure Result where
  s : Session
  /-- what the goroutine does before it goes on -/
  push : List Act
  eff : List Effect

def readSize : ℕ := 32 * 1024

def After.acts : After → List Act
  | .ret => []
  | .read => [.readUpstream]
  | .close cause => [.closeUpstream cause]

/-- A write to the destination: the bytes it takes and the error.  `destroy` closes the
connection, so nothing is written after it. -/
def upstreamWrite (s : Session) (p : Bytes) : Choice → Option (Bytes × Option Cause)
  | .ok => if s.dead then none else some (p, none)
  | .fail n text => some (if s.dead then [] else p.take n, some (.err text))
  | .read _ _ => none

/-- One round of `produceDownstream`'s loop.  The tunnel write and the wake happen under the
lock; a full buffer leaves the goroutine waiting. -/
def execProduce (s : Session) (p : Bytes) (after : After) (c : Choice) : Option Result :=
  if p = [] then some ⟨s, after.acts, []⟩
  else if s.dead then some ⟨s, [.destroy], []⟩
  else if s.downBuf.free = 0 then none
  else match s.produce p with
  | none => some ⟨s, [.destroy], []⟩
  | some s' =>
    let chunk := (s.nextChunk p).1
    let push := [Act.produce (p.drop chunk.length) after]
    let wake := if s'.requestOutstanding then [Effect.wake] else []
    match s'.tconn, c with
    | none, _ => some ⟨s', push, wake⟩
    | some tc, .ok =>
      let m := Msg.data s.sessionID (s.nextChunk p).2 chunk
      if m.Sendable then some ⟨s', push, [.frame tc m]⟩ else none
    | some _, .fail _ _ => some ⟨{ s' with tconn := none }, push, wake⟩
    | some _, .read _ _ => none

def exec (s : Session) (a : Act) (c : Choice) : Option Result :=
  match a with
  | .bind tc => some ⟨s.bind tc, [.register tc], []⟩
  | .register tc => some ⟨s, [], [.register tc]⟩
  | .detach tc => some ⟨(s.detach tc).1, if (s.detach tc).2 then [.wake] else [], []⟩
  | .dial => match c with
    | .ok => some ⟨s, [.dialed], []⟩
    | .fail _ text =>
      some ⟨s, [.send (.close s.sessionID dirDown (dialFailed ++ text)), .destroy], []⟩
    | .read _ _ => none
  | .dialed => match s.dialed with
    | none => some ⟨s, [], []⟩
    | some (s', pre) =>
      some ⟨s', if 0 < pre.length then [.flush pre] else [.readUpstream], []⟩
  | .flush pre => match upstreamWrite s pre c with
    | none => none
    | some (b, none) => some ⟨s, [.flushed pre.length], [.upstream b]⟩
    | some (b, some cause) => some ⟨s, [.closeUpstream cause], [.upstream b]⟩
  | .flushed n =>
    let s' := s.flushed n
    some ⟨s', [.send (.ack s.sessionID s'.upstreamWritten), .readUpstream], []⟩
  | .readUpstream => match c with
    | .read p err =>
      -- `destroy` closes the connection: a read then returns no bytes and an error
      if readSize < p.length ∨ (s.dead ∧ (p ≠ [] ∨ err = none)) then none
      else some ⟨s, [.produce p (match err with | none => .read | some cause => .close cause)], []⟩
    | _ => none
  | .produce p after => execProduce s p after c
  | .onData offset payload =>
    let r := s.onData offset payload
    some ⟨r.1, match r.2 with | none => [] | some q => [.upWrite q], []⟩
  | .upWrite p => match upstreamWrite s p c with
    | none => none
    | some (b, none) => some ⟨s, [.onDataWritten p.length], [.upstream b]⟩
    | some (b, some cause) => some ⟨s, [.closeUpstream cause], [.upstream b]⟩
  | .onDataWritten n =>
    let s' := s.onDataWritten n
    some ⟨s', [.send (.ack s.sessionID s'.upstreamWritten)], []⟩
  | .onDownstreamAck offset => some ⟨s.onDownstreamAck offset, [], []⟩
  | .onSidecarAttach deliveredOffset =>
    some ⟨s, (s.onSidecarAttach deliveredOffset).map .send, []⟩
  | .onSidecarClose dir =>
    if dir ≠ dirUp then some ⟨s, [], []⟩
    else
      let r := s.onSidecarClose
      some ⟨r.1, (if r.2 then [.closeWrite] else []) ++ [.maybeDestroy], []⟩
  | .closeWrite => some ⟨s, [], [.closeWrite]⟩
  | .closeUpstream cause => match s.closeUpstream with
    | none => some ⟨s, [], []⟩
    | some (s', bound, pending) =>
      some ⟨s', (if bound then [.send (.close s.sessionID dirDown cause.reason)]
        else if pending then [.wake] else []) ++ [.maybeDestroy], []⟩
  | .send m => match s.tconn with
    | none => some ⟨s, [], []⟩
    | some tc => some ⟨s, [.write tc m], []⟩
  | .write tc m => match c with
    -- `write` returns an error for a frame that `encodeFrame` refuses
    | .ok => if m.Sendable then some ⟨s, [], [.frame tc m]⟩ else none
    | .fail _ _ => some ⟨s, [.detach tc], []⟩
    | .read _ _ => none
  | .wake => some ⟨s, [], [.wake]⟩
  | .maybeDestroy => some ⟨s, if s.done then [.destroy] else [], []⟩
  | .destroy => match s.destroy with
    | none => some ⟨s, [], []⟩
    | some s' => some ⟨s', [.removeSession], []⟩
  | .removeSession => some ⟨s, [], [.removeSession]⟩
  | .watchdog => some ⟨s, if s.watchdogWakes then [.wake] else [], []⟩

/-- What can set a goroutine to work on a session. -/
inductive Handler
  | data (offset : ℕ) (payload : Bytes)
  | ack (offset : ℕ)
  | attach (tc : ConnId) (deliveredOffset : ℕ)
  /-- `openSession` binds a new session -/
  | bind (tc : ConnId)
  | close (dir : UInt8)
  /-- the frame loop of `tc` has ended: `detachAll` -/
  | detach (tc : ConnId)
  | dial
  | produce (p : Bytes)
  deriving DecidableEq

def Handler.acts : Handler → List Act
  | .data offset payload => [.onData offset payload]
  | .ack offset => [.onDownstreamAck offset]
  | .attach tc deliveredOffset => [.bind tc, .onSidecarAttach deliveredOffset]
  | .bind tc => [.bind tc]
  | .close dir => [.onSidecarClose dir]
  | .detach tc => [.detach tc]
  | .dial => [.dial]
  | .produce p => [.produce p .ret]

/-- One session, the goroutines that work on it, and what they have done to its surroundings. -/
structure World where
  s : Session
  threads : List (List Act)
  /-- the bytes written to the destination -/
  dest : Bytes
  /-- the frames handed to tunnel connections -/
  sent : List (ConnId × Msg)
  /-- whether the session has called `Broker.wake` since it last became detached -/
  woke : Bool

def World.create (sessionBufferBytes : ℕ) (actorID : Bytes) (sessionID : UInt64) (target : Bytes) :
    World where
  s := newSession sessionBufferBytes actorID sessionID target
  threads := []
  dest := []
  sent := []
  woke := false

def World.pending (w : World) : List Act := w.threads.flatten

def World.next (w : World) (i : ℕ) : Option Act := w.threads[i]?.bind List.head?

inductive Event
  | call (h : Handler)
  /-- the `i`-th goroutine takes its next action -/
  | run (i : ℕ) (c : Choice)
  /-- the watchdog timer fires -/
  | fire
  deriving DecidableEq

def Effect.bytes : Effect → Bytes
  | .upstream p => p
  | _ => []

def Effect.msg : Effect → Option (ConnId × Msg)
  | .frame tc m => some (tc, m)
  | _ => none

/-- The surroundings after an action; becoming detached starts a new count of wakes. -/
def World.after (w : World) (r : Result) (threads : List (List Act)) : World where
  s := r.s
  threads := threads
  dest := w.dest ++ r.eff.flatMap Effect.bytes
  sent := w.sent ++ r.eff.filterMap Effect.msg
  woke := (w.woke && !(w.s.tconn.isSome && r.s.tconn.isNone)) || r.eff.contains .wake

def step (w : World) : Event → Option World
  | .call h => some { w with threads := w.threads ++ [h.acts] }
  | .run i c => match w.threads[i]? with
    | some (a :: rest) =>
      (exec w.s a c).map fun r => w.after r (w.threads.set i (r.push ++ rest))
    | _ => none
  | .fire =>
    if w.s.watchdog then
      some { w with s := { w.s with watchdog := false }, threads := w.threads ++ [[.watchdog]] }
    else none

/-- A goroutine has returned, waits for the destination, or waits for buffer space. -/
def Resting (s : Session) : List Act → Bool
  | [] => true
  | .readUpstream :: _ => true
  | .produce p _ :: _ => p ≠ [] && !s.dead && s.downBuf.free = 0
  | _ => false

def World.AtRest (w : World) : Prop := ∀ t ∈ w.threads, Resting w.s t = true

instance (w : World) : Decidable w.AtRest :=
  inferInstanceAs (Decidable (∀ t ∈ w.threads, Resting w.s t = true))

end SubstratePoc.Broker
