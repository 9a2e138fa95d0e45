import SubstratePoc.Client.Truthful
import SubstratePoc.Server.Bindings
import SubstratePoc.Server.Rest

namespace SubstratePoc.Deployment
open Lib Tunnel Broker Sidecar

structure Config where
  actorID : Bytes
  named : actorID ≠ []
  sidecar : Client.Config
  broker : Server.Config

/-- The two programs, and the frames in flight on each connection to the broker and to the
sidecar. -/
structure World where
  sidecar : Client.World
  broker : Server.World
  up : ConnId → List Frame
  down : ConnId → List Frame
  cut : ConnId → Bool

namespace World

/-- The connection takes no more frames. -/
def closed (w : World) (k : ConnId) : Bool :=
  w.cut k || (w.sidecar.links k).closed || (w.broker.conns k).any (·.closed)

/-- What a connection takes of the frames written to it. -/
def carried (w : World) (k : ConnId) (fs : List Frame) : List Frame := if w.closed k then [] else fs

end World

/-- The frame that is read, taken out of the frames in flight. -/
def popped (q : ConnId → List Frame) (k : ConnId) (f : Frame) : Option (ConnId → List Frame) :=
  if (q k).head? = some f then some (Function.update q k (q k).tail) else none

/-- What the sidecar leaves in flight: it reads what has arrived, and its name never changes. -/
def World.received (cfg : Config) (w : World) : Client.Event → Option (ConnId → List Frame)
  | .run t (.frame f) => match w.sidecar.threads t with
    | .readFrame k :: _ => popped w.down k f
    | _ => none
  | .run _ (.actorID id) => if id = cfg.actorID then some w.down else none
  | _ => some w.down

/-- What the broker leaves in flight. -/
def World.taken (w : World) : Server.Event → Option (ConnId → List Frame)
  | .accept k first => popped w.up k first
  | .run t (.frame f) => match w.broker.threads t with
    | .readFrame k :: _ => popped w.up k f
    | _ => none
  | _ => some w.up

/-- The frames that the broker has written to a connection. -/
def sent (s : Server.World) (k : ConnId) : List Frame := ((s.conns k).map (·.sent)).getD []

inductive Event
  | sidecar (e : Client.Event)
  | broker (e : Server.Event)
  /-- connection `k` is cut; the first `m` and `n` frames in flight can still be read -/
  | cut (k : ConnId) (m n : ℕ)
  deriving DecidableEq

/-- The sidecar has moved, and what it has written is on its way. -/
def World.withSidecar (w : World) (c : Client.World) (down : ConnId → List Frame) : World :=
  { w with
    sidecar := c
    down
    up := fun k => w.up k ++
      w.carried k ((c.links k).sent.drop (w.sidecar.links k).sent.length) }

/-- The broker has moved, and what it has written is on its way. -/
def World.withBroker (w : World) (s : Server.World) (up : ConnId → List Frame) : World :=
  { w with
    broker := s
    up
    down := fun k => w.down k ++ w.carried k ((sent s k).drop (sent w.broker k).length) }

def step (cfg : Config) (w : World) : Event → Option World
  | .sidecar e => (w.received cfg e).bind fun down =>
    (Client.step cfg.sidecar w.sidecar e).map fun c => w.withSidecar c down
  | .broker e => (w.taken e).bind fun up =>
    (Server.step cfg.broker w.broker e).map fun s => w.withBroker s up
  | .cut k m n =>
    if k < w.sidecar.conns then
      some { w with
        up := Function.update w.up k ((w.up k).take m)
        down := Function.update w.down k ((w.down k).take n)
        cut := Function.update w.cut k true }
    else none

def start (cfg : Config) : World where
  sidecar := Client.start cfg.sidecar
  broker := Server.start cfg.broker
  up := fun _ => []
  down := fun _ => []
  cut := fun _ => false

end SubstratePoc.Deployment
