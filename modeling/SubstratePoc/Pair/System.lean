import Mathlib.Logic.Function.Basic
import SubstratePoc.Broker.Inversion
import SubstratePoc.Sidecar.Session

namespace SubstratePoc.Pair
open Lib Tunnel Broker Sidecar

structure Config where
  actorID : Bytes
  sessionID : UInt64
  target : Bytes
  /-- the broker's `SessionBufferBytes` -/
  sessionBufferBytes : ℕ
  /-- the sidecar's `SessionBuffer` -/
  sessionBuffer : ℕ
  allowTarget : Bytes → Bool

def small : Config :=
  -- buffers of four bytes, and every target allowed
  ⟨[97], 1, [120], 4, 4, fun _ => true⟩

/-- A tunnel connection: the frames in flight, whether it is closed to further frames, and the
session that its `tunnelConn` has registered. -/
structure Link where
  up : List Msg
  down : List Msg
  closed : Bool
  registered : Option ℕ

def newLink : Link := ⟨[], [], false, none⟩

/-- A broker session, the bytes written to its destination and the bytes read from it. -/
structure Obj where
  s : Session
  dest : Bytes
  read : Bytes

def Config.newObj (cfg : Config) (target : Bytes) : Obj :=
  ⟨newSession cfg.sessionBufferBytes cfg.actorID cfg.sessionID target, [], []⟩

/-- What a goroutine of the sidecar does next. -/
inductive SAct
  /-- `connectOnce` up to the publication of the connection -/
  | connect
  | attachFrame (k : ConnId)
  /-- `readLoop` -/
  | readFrame (k : ConnId)
  /-- `connectOnce` after `readLoop` has failed -/
  | disconnect (k : ConnId)
  | closeConn (k : ConnId)
  | onAttachOK (offset : ℕ)
  | deliverDown (offset : ℕ) (payload : Bytes)
  | agentWrite (payload : Bytes)
  | delivered (n : ℕ)
  | onUpstreamAck (offset : ℕ)
  | onClose (dir : UInt8)
  | closeAll
  | removeSession
  | send (m : Msg)
  | write (k : ConnId) (m : Msg)
  | openSession
  | readAgent
  /-- `writeUp`, with the error that the read of these bytes also returned -/
  | writeUp (p : Bytes) (err : Option Cause)
  | closeUp (reason : Bytes)
  deriving DecidableEq

/-- What a goroutine of the broker does next. -/
inductive BAct
  /-- the `ReadFrame` of `serveTunnel`'s loop -/
  | readFrame (k : ConnId)
  | handleFrame (k : ConnId) (m : Msg)
  | openSession (k : ConnId) (target : Bytes)
  | attachSession (k : ConnId) (offset : ℕ) (target : Bytes)
  /-- `attachSession` after it has recreated the session -/
  | reattach (offset : ℕ)
  | startDial (o : ℕ)
  | act (o : ℕ) (a : Act)
  /-- a frame that a handler writes to its own connection -/
  | reply (k : ConnId) (m : Msg)
  | detachAll (k : ConnId)
  | closeConn (k : ConnId)
  deriving DecidableEq

/-- Everything but the goroutines.  `listed` says that the sidecar has the session in its map,
`agent` is what the session has written to the agent's connection and `agentOK` that no such
write has failed; `sessions` is the broker's map at the session's key. -/
structure Core where
  cs : ClientSession
  listed : Bool
  conn : Option ConnId
  agent : Bytes
  agentOK : Bool
  conns : ℕ
  links : ConnId → Link
  created : ℕ
  objs : ℕ → Obj
  sessions : Option ℕ

structure System where
  core : Core
  /-- the goroutine of `Client.Run` -/
  tunnel : List SAct
  /-- the goroutine that copies the agent's bytes into the session -/
  proxy : List SAct
  /-- the goroutines of the broker -/
  threads : List (List BAct)

def System.pending (w : System) : List BAct := w.threads.flatten

def System.next (w : System) (i : ℕ) : Option BAct := w.threads[i]?.bind List.head?

namespace Core

def setLink (w : Core) (k : ConnId) (l : Link) : Core :=
  { w with links := Function.update w.links k l }

/-- A frame accepted by the sidecar's end of a connection. -/
def toBroker (w : Core) (k : ConnId) (m : Msg) : Core :=
  if (w.links k).closed then w
  else w.setLink k { w.links k with up := (w.links k).up ++ [m] }

def toSidecar (w : Core) (k : ConnId) (m : Msg) : Core :=
  if (w.links k).closed then w
  else w.setLink k { w.links k with down := (w.links k).down ++ [m] }

def closeConn (w : Core) (k : ConnId) : Core := w.setLink k { w.links k with closed := true }

/-- What an action of broker session `o` does to its surroundings. -/
def effect (o : ℕ) (w : Core) : Effect → Core
  | .frame tc m => w.toSidecar tc m
  | .register tc => w.setLink tc { w.links tc with registered := some o }
  | .removeSession => { w with sessions := none }
  | .upstream _ | .wake | .closeWrite => w

end Core

def readBytes : Act → Choice → Bytes
  | .readUpstream, .read p _ => p
  | _, _ => []

def Obj.after (ob : Obj) (a : Act) (c : Choice) (r : Result) : Obj :=
  ⟨r.s, ob.dest ++ r.eff.flatMap Effect.bytes, ob.read ++ readBytes a c⟩

def Core.objAct (w : Core) (o : ℕ) (a : Act) (c : Choice) (r : Result) : Core :=
  r.eff.foldl (Core.effect o)
    { w with objs := Function.update w.objs o ((w.objs o).after a c r) }

/-! ## The sidecar -/

def eofReason : Bytes := "eof".toUTF8.data.toList

def closedWord : Bytes := "closed".toUTF8.data.toList

def errReason : Bytes := "err: ".toUTF8.data.toList

def closeReason : Cause → Bytes
  | .eof => eofReason
  | .err text => if closedWord <:+: text then closedWord else errReason ++ text

/-- What `readLoop` does with a frame for a session it finds. -/
def dispatch : Msg → List SAct
  | .attachOK _ offset => [.onAttachOK offset]
  | .data _ offset p => [.deliverDown offset p]
  | .ack _ offset => [.onUpstreamAck offset]
  | .close _ dir _ => [.onClose dir]
  | .opn _ _ | .attach _ _ _ => []

/-- The state after a sidecar action, what its goroutine does before it goes on, and the broker
goroutines that start with it.  HELLO is part of `connect`. -/
def sexec (w : Core) (a : SAct) (c : Choice) :
    Option (Core × List SAct × List (List BAct)) :=
  match a with
  | .connect => match c with
    | .ok =>
      let k := w.conns
      some ({ w with conn := some k, conns := k + 1 }.setLink k newLink,
        (if w.listed then [.attachFrame k] else []) ++ [.readFrame k], [[.readFrame k]])
    | .fail _ _ => some (w, [.connect], [])
    | .read _ _ => none
  | .attachFrame k => some (w, [.write k w.cs.attachFrame], [])
  | .readFrame k => match c with
    | .ok => match (w.links k).down with
      | [] => none
      | m :: down =>
        some (w.setLink k { w.links k with down },
          (if w.listed then dispatch m else []) ++ [.readFrame k], [])
    | .fail _ _ => some (w, [.disconnect k], [])
    | .read _ _ => none
  | .disconnect k =>
    some ({ w with conn := if w.conn = some k then none else w.conn },
      [.closeConn k, .connect], [])
  | .closeConn k => some (w.closeConn k, [], [])
  | .onAttachOK offset =>
    let r := w.cs.onAttachOK offset
    some ({ w with cs := r.1 }, r.2.map .send, [])
  | .deliverDown offset p => match w.cs.deliverDown offset p with
    | none => some (w, [], [])
    | some q => some (w, [.agentWrite q], [])
  | .agentWrite q =>
    -- `closeAll` and `CloseWrite` end what the agent's connection takes
    let shut := w.cs.dead || w.cs.downClosed
    match c with
    | .ok => if shut then none
      else some ({ w with agent := w.agent ++ q }, [.delivered q.length], [])
    | .fail n _ =>
      some ({ w with agent := w.agent ++ (if shut then [] else q.take n), agentOK := false },
        [.closeAll], [])
    | .read _ _ => none
  | .delivered n =>
    let cs := w.cs.delivered n
    some ({ w with cs }, [.send (.ack cs.sessionID cs.downDelivered)], [])
  | .onUpstreamAck offset => some ({ w with cs := w.cs.onUpstreamAck offset }, [], [])
  | .onClose dir =>
    if dir ≠ dirDown then some (w, [], [])
    else match c with
      | .ok => some ({ w with cs := w.cs.onClose }, [], [])
      -- the agent's connection has no `CloseWrite`
      | .fail _ _ => some ({ w with cs := w.cs.onClose }, [.closeAll], [])
      | .read _ _ => none
  | .closeAll => match w.cs.closeAll with
    | none => some (w, [], [])
    | some cs => some ({ w with cs }, [.removeSession], [])
  | .removeSession => some ({ w with listed := false }, [], [])
  | .send m => match w.conn with
    | none => some (w, [], [])
    | some k => some (w, [.write k m], [])
  | .write k m => match c with
    | .ok => if m.Sendable then some (w.toBroker k m, [], []) else none
    | .fail _ _ => some (w, [], [])
    | .read _ _ => none
  | .openSession =>
    some ({ w with listed := true }, [.send (.opn w.cs.sessionID w.cs.target), .readAgent], [])
  | .readAgent => match c with
    | .read p err => if readSize < p.length then none else some (w, [.writeUp p err], [])
    | _ => none
  | .writeUp p err =>
    if p = [] then
      some (w, match err with
        | none => [.readAgent]
        | some cause => [.closeUp (closeReason cause)], [])
    else if w.cs.dead then match c with
      -- `handleConnect` stops here, `handleHTTP` closes the half
      | .ok => some (w, [], [])
      | .fail _ text => some (w, [.closeUp (closeReason (.err text))], [])
      | .read _ _ => none
    else if w.cs.upBuf.free = 0 then none
    else match w.cs.writeUp p with
    | none => some (w, [], [])
    | some cs =>
      let chunk := (w.cs.nextChunk p).1
      some ({ w with cs }, [.send (.data cs.sessionID (w.cs.nextChunk p).2 chunk),
        .writeUp (p.drop chunk.length) err], [])
  | .closeUp reason => match w.cs.closeUp with
    | none => some (w, [], [])
    | some cs => some ({ w with cs }, [.send (.close cs.sessionID dirUp reason)], [])

/-! ## The broker -/

def sessionLost : Bytes := "session lost".toUTF8.data.toList

def targetNotAllowed : Bytes := "target not allowed".toUTF8.data.toList

/-- `handleFrame`, with the session its lookup finds. -/
def handle (k : ConnId) : Msg → Option ℕ → List BAct
  | .opn _ target, _ => [.openSession k target]
  | .attach _ offset target, _ => [.attachSession k offset target]
  | .data _ offset p, some o => [.act o (.onData offset p)]
  | .ack _ offset, some o => [.act o (.onDownstreamAck offset)]
  | .close _ dir _, some o => [.act o (.onSidecarClose dir)]
  | _, _ => []

/-- The state after a broker action, what its goroutine does before it goes on, and the
goroutines that start with it. -/
def bexec (cfg : Config) (w : Core) (a : BAct) (c : Choice) :
    Option (Core × List BAct × List (List BAct)) :=
  match a with
  | .readFrame k => match c with
    | .ok => match (w.links k).up with
      | [] => none
      | m :: up =>
        some (w.setLink k { w.links k with up }, [.handleFrame k m, .readFrame k], [])
    | .fail _ _ => some (w, [.detachAll k], [])
    | .read _ _ => none
  | .handleFrame k m => some (w, handle k m w.sessions, [])
  | .openSession k target =>
    if !cfg.allowTarget target then
      some (w, [.reply k (.close cfg.sessionID dirDown targetNotAllowed)], [])
    else match w.sessions with
    | some _ => some (w, [.attachSession k 0 target], [])
    | none =>
      let o := w.created
      some ({ w with
          created := o + 1, objs := Function.update w.objs o (cfg.newObj target),
          sessions := some o },
        [.act o (.bind k), .startDial o], [])
  | .attachSession k offset target => match w.sessions with
    | some o => some (w, [.act o (.bind k), .act o (.onSidecarAttach offset)], [])
    | none =>
      if offset = 0 ∧ target ≠ [] then some (w, [.openSession k target, .reattach offset], [])
      else some (w, [.reply k (.close cfg.sessionID dirDown sessionLost)], [])
  | .reattach offset => match w.sessions with
    | some o => some (w, [.act o (.onSidecarAttach offset)], [])
    | none => some (w, [], [])
  | .startDial o => some (w, [], [[.act o .dial]])
  | .act o a => (exec (w.objs o).s a c).map fun r =>
      (w.objAct o a c r, r.push.map (.act o), [])
  | .reply k m => match c with
    | .ok => if m.Sendable then some (w.toSidecar k m, [], []) else none
    | .fail _ _ => some (w, [], [])
    | .read _ _ => none
  | .detachAll k => match (w.links k).registered with
    | none => some (w, [.closeConn k], [])
    | some o =>
      some (w.setLink k { w.links k with registered := none },
        [.act o (.detach k), .closeConn k], [])
  | .closeConn k => some (w.closeConn k, [], [])

/-! ## Steps -/

inductive Event
  | tunnel (c : Choice)
  | proxy (c : Choice)
  /-- the `i`-th goroutine of the broker moves -/
  | broker (i : ℕ) (c : Choice)
  /-- the watchdog of broker session `o` fires -/
  | fire (o : ℕ)
  /-- connection `k` is cut; the first `m` and `n` frames in flight can still be read -/
  | cut (k : ConnId) (m n : ℕ)
  deriving DecidableEq

def step (cfg : Config) (w : System) : Event → Option System
  | .tunnel c => match w.tunnel with
    | [] => none
    | a :: rest => (sexec w.core a c).map fun r =>
      { w with core := r.1, tunnel := r.2.1 ++ rest, threads := w.threads ++ r.2.2 }
  | .proxy c => match w.proxy with
    | [] => none
    | a :: rest => (sexec w.core a c).map fun r =>
      { w with core := r.1, proxy := r.2.1 ++ rest, threads := w.threads ++ r.2.2 }
  | .broker i c => match w.threads[i]? with
    | some (a :: rest) => (bexec cfg w.core a c).map fun r =>
      { w with core := r.1, threads := w.threads.set i (r.2.1 ++ rest) ++ r.2.2 }
    | _ => none
  | .fire o =>
    let ob := w.core.objs o
    if o < w.core.created ∧ ob.s.watchdog then
      some { w with
        core := { w.core with
          objs := Function.update w.core.objs o { ob with s := { ob.s with watchdog := false } } },
        threads := w.threads ++ [[.act o .watchdog]] }
    else none
  | .cut k m n =>
    let l := w.core.links k
    some { w with core :=
      w.core.setLink k { l with up := l.up.take m, down := l.down.take n, closed := true } }

/-- The agent's connection has been accepted and the tunnel is not up yet. -/
def start (cfg : Config) : System where
  core := {
    cs := newClientSession cfg.sessionBuffer cfg.sessionID cfg.target
    listed := false
    conn := none
    agent := []
    agentOK := true
    conns := 0
    links := fun _ => newLink
    created := 0
    objs := fun _ => cfg.newObj cfg.target
    sessions := none }
  tunnel := [.connect]
  proxy := [.openSession]
  threads := []

/-- `n` steps of the tunnel goroutine that succeed. -/
def tunnelSteps (n : ℕ) : List Event := List.replicate n (.tunnel .ok)

def brokerSteps (i n : ℕ) : List Event := List.replicate n (.broker i .ok)

def opening : List Event :=
  -- the session is opened and its OPEN handled; the dial is under way
  [.tunnel .ok, .proxy .ok, .proxy .ok, .proxy .ok] ++ brokerSteps 0 6

end SubstratePoc.Pair
