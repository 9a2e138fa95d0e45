import Mathlib.Logic.Function.Basic
import SubstratePoc.Lib.Keep
import SubstratePoc.Pair.System

namespace SubstratePoc.Client
open Lib Tunnel Broker Sidecar
open Pair (closeReason)

structure Config where
  sessionBuffer : ℕ
  /-- nanoseconds -/
  pongTimeout : ℤ

/-- A session with the agent's bytes that `writeUp` has taken and those written to the agent;
`listed` says that it is in `Client.sessions`. -/
structure Obj where
  cs : ClientSession
  listed : Bool
  read : Bytes
  agent : Bytes
  deriving DecidableEq

def Config.newObj (cfg : Config) (sid : UInt64) (target : Bytes) : Obj :=
  ⟨newClientSession cfg.sessionBuffer sid target, false, [], []⟩

/-- A tunnel connection: the frames written to it, those whose write has failed, whether this end
has been closed, and whether the context of its ping loop has been cancelled. -/
structure Link where
  sent : List Frame
  lost : List Frame
  closed : Bool
  cancelled : Bool
  deriving DecidableEq

def newLink : Link := ⟨[], [], false, false⟩

/-- What a goroutine does next on a session. -/
inductive SAct
  /-- `OpenSession` once the session has its number -/
  | enlist
  | attachFrame (k : ConnId)
  | onAttachOK (offset : ℕ)
  | deliverDown (offset : ℕ) (payload : Bytes)
  | agentWrite (payload : Bytes)
  | delivered (n : ℕ)
  | onUpstreamAck (offset : ℕ)
  | onClose (dir : UInt8)
  | closeAll
  | removeSession
  | send (m : Msg)
  | write (k : ConnId) (m : Msg)
  | readAgent
  /-- `writeUp`, with the error that the read of these bytes also returned -/
  | writeUp (p : Bytes) (err : Option Cause)
  | closeUp (reason : Bytes)
  deriving DecidableEq

/-- What a goroutine does next. -/
inductive CAct
  | dial
  | hello (k : ConnId)
  /-- the critical section of `connectOnce` that sets `c.conn` and takes the live sessions -/
  | publish (k : ConnId)
  | setLastPong
  /-- the loop of `connectOnce` over the sessions it has taken -/
  | attaching (k : ConnId) (sids : List UInt64)
  | startPing (k : ConnId)
  /-- `readLoop` -/
  | readFrame (k : ConnId)
  | handleFrame (k : ConnId) (f : Frame)
  | pong (k : ConnId) (nonce : UInt64)
  /-- `connectOnce` after `readLoop` has failed -/
  | disconnect (k : ConnId)
  | closeConn (k : ConnId)
  | cancelPing (k : ConnId)
  /-- the `select` of `pingLoop` -/
  | tick (k : ConnId) (nonce : UInt64)
  | ping (k : ConnId) (nonce : UInt64)
  | sess (sid : UInt64) (a : SAct)
  deriving DecidableEq

/-- How an action turns out. -/
inductive CChoice
  | io (c : Choice)
  /-- what `c.actorID()` returns -/
  | actorID (id : Bytes)
  /-- the frame that `ReadFrame` returns -/
  | frame (f : Frame)
  /-- what `time.Now()` returns -/
  | time (t : ℤ)
  /-- the session that comes next in the iteration over the map -/
  | pick (sid : UInt64)
  /-- the context of the ping loop is done -/
  | done
  deriving DecidableEq

/-- The goroutines: `Client.Run`, the ping loop of a connection, and the one that copies the
bytes of a session's agent. -/
inductive Thread
  | tunnel
  | ping (k : ConnId)
  | proxy (sid : UInt64)
  deriving DecidableEq

/-- The sidecar; `ids` are the numbers that sessions have got. -/
structure World where
  ids : List UInt64
  objs : UInt64 → Obj
  conn : Option ConnId
  conns : ℕ
  links : ConnId → Link
  lastPong : ℤ
  threads : Thread → List CAct

namespace World

def setObj (w : World) (sid : UInt64) (ob : Obj) : World :=
  { w with objs := Function.update w.objs sid ob }

def setLink (w : World) (k : ConnId) (l : Link) : World :=
  { w with links := Function.update w.links k l }

def setThread (w : World) (t : Thread) (l : List CAct) : World :=
  { w with threads := Function.update w.threads t l }

def live (w : World) : List UInt64 := w.ids.filter fun sid => (w.objs sid).listed

/-- `WriteFrame` on a connection. -/
def write (w : World) (k : ConnId) (f : Frame) : Choice → Option World
  | .ok =>
    if refusal f ≠ none ∨ (w.links k).closed then none
    else some (w.setLink k { w.links k with sent := (w.links k).sent ++ [f] })
  | .fail _ _ => some (w.setLink k { w.links k with lost := (w.links k).lost ++ [f] })
  | .read _ _ => none

def closeConn (w : World) (k : ConnId) : World := w.setLink k { w.links k with closed := true }

/-- The proxy opens a session, which gets number `sid`. -/
def accept (cfg : Config) (w : World) (sid : UInt64) (target : Bytes) : World :=
  { w with ids := sid :: w.ids }.setObj sid (cfg.newObj sid target)
    |>.setThread (.proxy sid) [.sess sid .enlist]

@[simp]
theorem setObj_objs (w : World) (sid : UInt64) (ob : Obj) :
    (w.setObj sid ob).objs = Function.update w.objs sid ob := rfl

@[simp]
theorem accept_objs (cfg : Config) (w : World) (sid : UInt64) (target : Bytes) :
    (w.accept cfg sid target).objs = Function.update w.objs sid (cfg.newObj sid target) := rfl

@[simp]
theorem accept_threads (cfg : Config) (w : World) (sid : UInt64) (target : Bytes) :
    (w.accept cfg sid target).threads =
      Function.update w.threads (.proxy sid) [.sess sid .enlist] := rfl

end World

/-- What `readLoop` does with a frame for a session that it finds. -/
def dispatch (f : Frame) : List SAct :=
  match FrameType.ofByte f.type with
  | some .typeAttachOK => [.onAttachOK f.offset.toNat]
  | some .typeData => [.deliverDown f.offset.toNat f.payload]
  | some .typeAck => [.onUpstreamAck f.offset.toNat]
  | some .typeClose => [.onClose f.dir]
  | _ => []

/-- The session after an action on it, with what its goroutine does before it goes on; `conn` is
the connection that is current.  Writes to a connection are not actions on the session alone. -/
def sexec (conn : Option ConnId) (ob : Obj) (a : SAct) (c : Choice) : Option (Obj × List SAct) :=
  match a with
  | .enlist =>
    some ({ ob with listed := true }, [.send (.opn ob.cs.sessionID ob.cs.target), .readAgent])
  | .attachFrame k => some (ob, [.write k ob.cs.attachFrame])
  | .onAttachOK offset =>
    let r := ob.cs.onAttachOK offset
    some ({ ob with cs := r.1 }, r.2.map .send)
  | .deliverDown offset p => match ob.cs.deliverDown offset p with
    | none => some (ob, [])
    | some q => some (ob, [.agentWrite q])
  | .agentWrite q =>
    -- `closeAll` and `CloseWrite` end what the agent's connection takes
    let shut := ob.cs.dead || ob.cs.downClosed
    match c with
    | .ok => if shut then none
      else some ({ ob with agent := ob.agent ++ q }, [.delivered q.length])
    | .fail n _ =>
      some ({ ob with agent := ob.agent ++ (if shut then [] else q.take n) }, [.closeAll])
    | .read _ _ => none
  | .delivered n =>
    let cs := ob.cs.delivered n
    some ({ ob with cs }, [.send (.ack cs.sessionID cs.downDelivered)])
  | .onUpstreamAck offset => some ({ ob with cs := ob.cs.onUpstreamAck offset }, [])
  | .onClose dir =>
    if dir ≠ dirDown then some (ob, [])
    else match c with
      | .ok => some ({ ob with cs := ob.cs.onClose }, [])
      -- the agent's connection has no `CloseWrite`
      | .fail _ _ => some ({ ob with cs := ob.cs.onClose }, [.closeAll])
      | .read _ _ => none
  | .closeAll => match ob.cs.closeAll with
    | none => some (ob, [])
    | some cs => some ({ ob with cs }, [.removeSession])
  | .removeSession => some ({ ob with listed := false }, [])
  | .send m => match conn with
    | none => some (ob, [])
    | some k => some (ob, [.write k m])
  | .write _ _ => none
  | .readAgent => match c with
    | .read p err => if readSize < p.length then none else some (ob, [.writeUp p err])
    | _ => none
  | .writeUp p err =>
    if p = [] then
      some (ob, match err with
        | none => [.readAgent]
        | some cause => [.closeUp (closeReason cause)])
    else if ob.cs.dead then match c with
      -- `handleConnect` stops here, `handleHTTP` closes the half
      | .ok => some (ob, [])
      | .fail _ text => some (ob, [.closeUp (closeReason (.err text))])
      | .read _ _ => none
    else if ob.cs.upBuf.free = 0 then none
    else match ob.cs.writeUp p with
    | none => some (ob, [])
    | some cs =>
      let chunk := (ob.cs.nextChunk p).1
      some ({ ob with cs, read := ob.read ++ chunk },
        [.send (.data cs.sessionID (ob.cs.nextChunk p).2 chunk),
          .writeUp (p.drop chunk.length) err])
  | .closeUp reason => match ob.cs.closeUp with
    | none => some (ob, [])
    | some cs => some ({ ob with cs }, [.send (.close cs.sessionID dirUp reason)])

/-- The state after an action and what its goroutine does before it goes on. -/
def cexec (cfg : Config) (w : World) (a : CAct) (c : CChoice) : Option (World × List CAct) :=
  match a with
  | .dial => match c with
    | .io .ok => some ({ w with conns := w.conns + 1 }.setLink w.conns newLink, [.hello w.conns])
    | .io (.fail _ _) => some (w, [.dial])
    | _ => none
  | .hello k => match c with
    -- the name of the actor is read anew for every connection
    | .actorID id =>
      (w.write k { type := FrameType.typeHello.byte, actorID := id } .ok).map (·, [.publish k])
    | .io (.fail _ _) => some (w, [.closeConn k, .dial])
    | _ => none
  | .publish k =>
    some ({ w with conn := some k },
      [.setLastPong, .attaching k w.live, .startPing k, .readFrame k])
  | .setLastPong => match c with
    | .time t => some ({ w with lastPong := t }, [])
    | _ => none
  | .attaching k sids => match sids, c with
    | [], _ => some (w, [])
    | sids, .pick sid =>
      if sid ∈ sids then some (w, [.sess sid (.attachFrame k), .attaching k (sids.erase sid)])
      else none
    | _, _ => none
  | .startPing k => some (w.setThread (.ping k) [.tick k 0], [])
  | .readFrame k => match c with
    | .frame f => some (w, [.handleFrame k f, .readFrame k])
    | .io (.fail _ _) => some (w, [.disconnect k, .closeConn k, .cancelPing k, .dial])
    | _ => none
  | .handleFrame k f => match FrameType.ofByte f.type with
    | some .typePong => some (w, [.setLastPong])
    | some .typePing => some (w, [.pong k f.nonce])
    | _ => some (w, if (w.objs f.sessionID).listed then (dispatch f).map (.sess f.sessionID) else [])
  | .pong k nonce => match c with
    | .io c => (w.write k { type := FrameType.typePong.byte, nonce } c).map (·, [])
    | _ => none
  | .disconnect k => some ({ w with conn := if w.conn = some k then none else w.conn }, [])
  | .closeConn k => some (w.closeConn k, [])
  | .cancelPing k => some (w.setLink k { w.links k with cancelled := true }, [])
  | .tick k nonce => match c with
    | .time t =>
      if cfg.pongTimeout < t - w.lastPong then some (w, [.closeConn k])
      else some (w, [.ping k (nonce + 1)])
    | .done => if (w.links k).cancelled then some (w, []) else none
    | _ => none
  | .ping k nonce => match c with
    | .io c => (w.write k { type := FrameType.typePing.byte, nonce } c).map
        (·, match c with
          | .ok => [.tick k nonce]
          | _ => [.closeConn k])
    | _ => none
  | .sess sid a => match a, c with
    | .write k m, .io c => (w.write k m.frame c).map (·, [])
    | a, .io c => (sexec w.conn (w.objs sid) a c).map fun r =>
        (w.setObj sid r.1, r.2.map (.sess sid))
    | _, _ => none

inductive Event
  /-- the proxy opens a session: `nextID.Add(1)` gives a number that no session had before -/
  | accept (sid : UInt64) (target : Bytes)
  | run (t : Thread) (c : CChoice)
  deriving DecidableEq

def step (cfg : Config) (w : World) : Event → Option World
  | .accept sid target =>
    if sid ∈ w.ids then none
    else some (w.accept cfg sid target)
  | .run t c => match w.threads t with
    | [] => none
    | a :: rest => (cexec cfg w a c).map fun r => r.1.setThread t (r.2 ++ rest)

/-- `NewClient`, with `Run` about to dial. -/
def start (cfg : Config) : World where
  ids := []
  objs := fun sid => cfg.newObj sid []
  conn := none
  conns := 0
  links := fun _ => newLink
  lastPong := 0
  threads := fun t => match t with
    | .tunnel => [.dial]
    | _ => []

def demo : Config :=
  -- buffers of four bytes, and three seconds
  ⟨4, 3000000000⟩

/-- The tunnel comes up with the sessions that are in the map then. -/
def connected (sids : List UInt64) : List Event :=
  [.run .tunnel (.io .ok), .run .tunnel (.actorID [97]), .run .tunnel (.io .ok),
    .run .tunnel (.time 0)] ++
  sids.flatMap (fun sid => .run .tunnel (.pick sid) :: List.replicate 2 (.run .tunnel (.io .ok))) ++
  List.replicate 2 (.run .tunnel (.io .ok))

/-- A session opens: it is put into the map and sends its OPEN, if there is a connection. -/
def opened (sid : UInt64) (n : ℕ) : List Event :=
  .accept sid [120] :: List.replicate n (.run (.proxy sid) (.io .ok))

end SubstratePoc.Client
