import Mathlib.Logic.Function.Basic
import SubstratePoc.Broker.Inversion
import SubstratePoc.Broker.Resumer

namespace SubstratePoc.Server
open Lib Tunnel Broker Resumer

structure Config where
  sessionBufferBytes : ℕ
  allowTarget : Bytes → Bool

/-- `sessionKey`. -/
@[ext]
structure Key where
  actorID : Bytes
  sessionID : UInt64
  deriving DecidableEq

/-- A session: the `gen`-th that has been made for its key. -/
@[ext]
structure Ptr where
  key : Key
  gen : ℕ
  deriving DecidableEq

/-- A session's state with its destination: the bytes written to it, and whether `destroy` has
closed it.  `fired` counts the callbacks of the watchdog. -/
structure Obj where
  s : Session
  dest : Bytes
  closed : Bool
  fired : ℕ
  deriving DecidableEq

/-- `tunnelConn`, with the actor its HELLO has named and the frames it has taken. -/
structure Conn where
  actorID : Bytes
  sessions : List Ptr
  sent : List Frame
  closed : Bool
  deriving DecidableEq

/-- The goroutines: frame loops, the goroutine that dials for a session and then reads from its
destination, and the callbacks of its watchdog. -/
inductive Thread
  | loop (k : ConnId)
  | reader (p : Ptr)
  | timer (p : Ptr) (n : ℕ)
  deriving DecidableEq

/-- What a goroutine does next. -/
inductive HAct
  /-- the `ReadFrame` of `serveTunnel`'s loop -/
  | readFrame (k : ConnId)
  | handleFrame (k : ConnId) (f : Frame)
  | openSession (k : ConnId) (sid : UInt64) (target : Bytes)
  | attachSession (k : ConnId) (sid : UInt64) (offset : ℕ) (target : Bytes)
  /-- `attachSession` after it has recreated the session -/
  | reattach (k : ConnId) (sid : UInt64) (offset : ℕ)
  | startDial (p : Ptr)
  | act (p : Ptr) (a : Act)
  /-- a frame that a handler writes to its own connection -/
  | reply (k : ConnId) (f : Frame)
  | detachAll (k : ConnId)
  /-- the loop of `detachAll` over what it has taken out of the connection -/
  | detaching (k : ConnId) (ps : List Ptr)
  | closeConn (k : ConnId)
  deriving DecidableEq

/-- How an action turns out. -/
inductive HChoice
  | io (c : Choice)
  /-- the frame that `ReadFrame` returns -/
  | frame (f : Frame)
  /-- the session that comes next in the iteration over a map -/
  | pick (i : ℕ)
  deriving DecidableEq

/-- The broker; `sessions` has the `gen` of the session at a key, `made` counts the sessions that
have been made for it, and `requests` records the calls of `ResumeActor` with the actor each was
made for. -/
structure World where
  conns : ConnId → Option Conn
  made : Key → ℕ
  objs : Ptr → Obj
  sessions : Key → Option ℕ
  resumes : Bytes → Option Stage
  requests : List (Bytes × Ref)
  threads : Thread → List HAct

namespace World

def setConn (w : World) (k : ConnId) (t : Conn) : World :=
  { w with conns := Function.update w.conns k (some t) }

def setObj (w : World) (p : Ptr) (ob : Obj) : World :=
  { w with objs := Function.update w.objs p ob }

def setThread (w : World) (t : Thread) (l : List HAct) : World :=
  { w with threads := Function.update w.threads t l }

def lookup (w : World) (actorID : Bytes) (sid : UInt64) : Option Ptr :=
  (w.sessions ⟨actorID, sid⟩).map (Ptr.mk ⟨actorID, sid⟩)

def removeSession (w : World) (actorID : Bytes) (sid : UInt64) : World :=
  { w with sessions := Function.update w.sessions ⟨actorID, sid⟩ none }

/-- The goroutine of `resume` goes to another stage; it calls `ResumeActor` when it comes to the
first. -/
def enter (w : World) (actorID : Bytes) (st : Stage) : World :=
  { w with
    resumes := Function.update w.resumes actorID (some st)
    requests := if st = .calling then w.requests ++ [(actorID, parseRef actorID)] else w.requests }

def resume (w : World) (actorID : Bytes) : World :=
  match w.resumes actorID with
  | some _ => w
  | none => w.enter actorID .calling

def leave (w : World) (actorID : Bytes) : World :=
  { w with resumes := Function.update w.resumes actorID none }

/-- A write to a tunnel connection that is reported as successful. -/
def write (w : World) (k : ConnId) (f : Frame) : World :=
  match w.conns k with
  | some t => if t.closed then w else w.setConn k { t with sent := t.sent ++ [f] }
  | none => w

end World

def Conn.register (t : Conn) (p : Ptr) : Conn :=
  { t with sessions := t.sessions.filter (·.key.sessionID ≠ p.key.sessionID) ++ [p] }

/-- What an action of session `p` does to its surroundings. -/
def World.effect (p : Ptr) (w : World) : Effect → World
  | .frame k m => w.write k m.frame
  | .register k => match w.conns k with
    | some t => w.setConn k (t.register p)
    | none => w
  | .removeSession => w.removeSession (w.objs p).s.actorID (w.objs p).s.sessionID
  | .wake => w.resume (w.objs p).s.actorID
  | .upstream _ | .closeWrite => w

/-- A session after one of its actions; the first `destroy` closes the connection. -/
def Obj.after (ob : Obj) (r : Result) : Obj :=
  { ob with
    s := r.s
    dest := ob.dest ++ r.eff.flatMap Effect.bytes
    closed := ob.closed || (r.s.dead && !ob.s.dead && ob.s.upstream) }

/-- The watchdog of a session fires. -/
def Obj.fire (ob : Obj) : Obj :=
  { ob with s := { ob.s with watchdog := false }, fired := ob.fired + 1 }

/-- Session `p` takes an action. -/
def World.actOn (w : World) (p : Ptr) (r : Result) : World :=
  r.eff.foldl (World.effect p) (w.setObj p ((w.objs p).after r))

/-- `newSession`, stored under its key. -/
def World.make (cfg : Config) (w : World) (key : Key) (target : Bytes) : World :=
  { w with
    made := Function.update w.made key (w.made key + 1)
    objs := Function.update w.objs ⟨key, w.made key⟩
      ⟨newSession cfg.sessionBufferBytes key.actorID key.sessionID target, [], false, 0⟩
    sessions := Function.update w.sessions key (some (w.made key)) }

def targetNotAllowed : Bytes := "target not allowed".toUTF8.data.toList

def sessionLost : Bytes := "session lost".toUTF8.data.toList

/-- `handleFrame`, with what `lookup` finds for the frame's session. -/
def handleFrame (k : ConnId) (f : Frame) (s : Option Ptr) : List HAct :=
  match FrameType.ofByte f.type with
  | some .typePing => [.reply k { type := FrameType.typePong.byte, nonce := f.nonce }]
  | some .typeOpen => [.openSession k f.sessionID f.target]
  | some .typeAttach => [.attachSession k f.sessionID f.offset.toNat f.target]
  | some .typeData => (s.map fun p => .act p (.onData f.offset.toNat f.payload)).toList
  | some .typeAck => (s.map fun p => .act p (.onDownstreamAck f.offset.toNat)).toList
  | some .typeClose => (s.map fun p => .act p (.onSidecarClose f.dir)).toList
  | _ => []

/-- The state after an action and what its goroutine does before it goes on. -/
def hexec (cfg : Config) (w : World) (a : HAct) (c : HChoice) : Option (World × List HAct) :=
  match a with
  | .readFrame k => match c with
    | .frame f => some (w, [.handleFrame k f, .readFrame k])
    | .io (.fail _ _) => some (w, [.detachAll k, .closeConn k])
    | _ => none
  | .handleFrame k f =>
    (w.conns k).map fun t => (w, handleFrame k f (w.lookup t.actorID f.sessionID))
  | .openSession k sid target => (w.conns k).map fun t =>
    if !cfg.allowTarget target then
      (w, [.reply k (Msg.close sid dirDown targetNotAllowed).frame])
    else match w.sessions ⟨t.actorID, sid⟩ with
    | some _ => (w, [.attachSession k sid 0 target])
    | none =>
      let p : Ptr := ⟨⟨t.actorID, sid⟩, w.made ⟨t.actorID, sid⟩⟩
      (w.make cfg ⟨t.actorID, sid⟩ target, [.act p (.bind k), .startDial p])
  | .attachSession k sid offset target => (w.conns k).map fun t =>
    match w.lookup t.actorID sid with
    | some p => (w, [.act p (.bind k), .act p (.onSidecarAttach offset)])
    | none =>
      if offset = 0 ∧ target ≠ [] then
        (w, [.openSession k sid target, .reattach k sid offset])
      else (w, [.reply k (Msg.close sid dirDown sessionLost).frame])
  | .reattach k sid offset => (w.conns k).map fun t =>
    (w, ((w.lookup t.actorID sid).map fun p => .act p (.onSidecarAttach offset)).toList)
  | .startDial p => some (w.setThread (.reader p) [.act p .dial], [])
  | .act p a => match c with
    | .io c => (exec (w.objs p).s a c).map fun r => (w.actOn p r, r.push.map (.act p))
    | _ => none
  | .reply k f => match c with
    | .io .ok => if refusal f = none then some (w.write k f, []) else none
    | .io (.fail _ _) => some (w, [])
    | _ => none
  | .detachAll k => (w.conns k).map fun t =>
    (w.setConn k { t with sessions := [] }, [.detaching k t.sessions])
  | .detaching k ps => match ps, c with
    | [], _ => some (w, [])
    | ps, .pick i => ps[i]?.map fun p => (w, [.act p (.detach k), .detaching k (ps.eraseIdx i)])
    | _, _ => none
  | .closeConn k => (w.conns k).map fun t => (w.setConn k { t with closed := true }, [])

inductive Event
  /-- a tunnel connection is accepted and its first frame is read -/
  | accept (k : ConnId) (first : Frame)
  | run (t : Thread) (c : HChoice)
  /-- the watchdog of a session fires -/
  | fire (p : Ptr)
  /-- the goroutine of `resume` for an actor goes on -/
  | resumer (actorID : Bytes) (c : Outcome)
  /-- that goroutine ends -/
  | exit (actorID : Bytes)
  deriving DecidableEq

/-- `serveTunnel` accepts the first frame. -/
def isHello (f : Frame) : Bool := f.type = FrameType.typeHello.byte && f.actorID ≠ []

def step (cfg : Config) (w : World) : Event → Option World
  | .accept k first =>
    if (w.conns k).isSome then none
    else if isHello first then
      some ((w.setConn k ⟨first.actorID, [], [], false⟩).setThread (.loop k) [.readFrame k])
    else some w
  | .run t c => match w.threads t with
    | [] => none
    | a :: rest => (hexec cfg w a c).map fun r => r.1.setThread t (r.2 ++ rest)
  | .fire p =>
    if p.gen < w.made p.key ∧ (w.objs p).s.watchdog then
      some ((w.setObj p (w.objs p).fire).setThread (.timer p (w.objs p).fired) [.act p .watchdog])
    else none
  | .resumer actorID c =>
    (w.resumes actorID).bind fun st => (st.next c).map (w.enter actorID)
  | .exit actorID =>
    if w.resumes actorID = some .returning then some (w.leave actorID) else none

/-- `New`. -/
def start (cfg : Config) : World where
  conns := fun _ => none
  made := fun _ => 0
  objs := fun p =>
    ⟨newSession cfg.sessionBufferBytes p.key.actorID p.key.sessionID [], [], false, 0⟩
  sessions := fun _ => none
  resumes := fun _ => none
  requests := []
  threads := fun _ => []

def demo : Config := ⟨4, fun _ => true⟩

/-- A new tunnel of an actor carries an OPEN of its session 1, and the dial succeeds. -/
def openOn (k : ConnId) (A target : Bytes) : List Event :=
  [.accept k { type := FrameType.typeHello.byte, actorID := A },
    .run (.loop k) (.frame (Msg.opn 1 target).frame)] ++
  List.replicate 5 (.run (.loop k) (.io .ok)) ++
  List.replicate 2 (.run (.reader ⟨⟨A, 1⟩, 0⟩) (.io .ok))

end SubstratePoc.Server
