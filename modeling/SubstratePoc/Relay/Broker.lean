import SubstratePoc.Actor.Ingress
import Mathlib.Logic.Function.Basic

namespace SubstratePoc.Relay
open Tunnel Actor

abbrev ReqID := Bytes

structure Config where
  replyAddr : Bytes
  /-- `SessionID` of a body that `json.Unmarshal` accepts -/
  sessionID : Bytes → Option Bytes

/-- `replyMsg`; the status is what `strconv.Atoi` makes of the header. -/
structure ReplyMsg where
  status : ℤ
  contentType : Bytes
  body : Bytes
  deriving DecidableEq

/-- What `HandleRun` writes to its client. -/
inductive Response
  | reply (msg : ReplyMsg)
  /-- `http.Error` -/
  | error (status : ℕ) (text : Bytes)
  deriving DecidableEq

def text (s : String) : Bytes := s.toUTF8.data.toList

def statusBadRequest : ℕ := 400

def statusGatewayTimeout : ℕ := 504

def forwardAttempts : ℕ := 5

/-- The header that `forwardToActor` puts on a request. -/
def Config.request (cfg : Config) (r : ReqID) (body : Bytes) : Request :=
  ⟨cfg.replyAddr, r, text "POST", text "/run", text "application/json", body⟩

/-- Where a call of `HandleRun` is. -/
inductive Client
  /-- before the request has been read -/
  | reading
  | registering (body : Bytes)
  /-- `forwardToActor` sends an attempt, waits for its answer, backs off after a failure -/
  | sending (r : ReqID) (body : Bytes) (attempt : ℕ)
  | awaiting (r : ReqID) (body : Bytes) (attempt : ℕ)
  | backingOff (r : ReqID) (body : Bytes) (attempt : ℕ) (lastErr : Bytes)
  /-- the `select` on the reply -/
  | parked (r : ReqID)
  /-- the deferred `unregister` -/
  | leaving (r : ReqID)
  | returned
  deriving DecidableEq

/-- How a step of `HandleRun` turns out. -/
inductive Choice
  | ok
  | fail (err : Bytes)
  /-- the request has been read -/
  | body (p : Bytes)
  /-- `uuid.NewString` -/
  | id (r : ReqID)
  /-- the router's answer to an attempt -/
  | status (code : ℕ)
  /-- the context of the request is done -/
  | cancelled (err : Bytes)
  /-- `time.After` fires -/
  | timer
  /-- the channel has a reply -/
  | reply
  deriving DecidableEq

/-- Where a call of `HandleReply` is; `err` tells whether the read of the body has failed, which
`HandleReply` ignores. -/
inductive Callback
  | looking (r : ReqID) (msg : ReplyMsg) (err : Bool)
  | offering (r : ReqID) (ch : ℕ) (msg : ReplyMsg) (err : Bool)
  | returned
  deriving DecidableEq

/-- A reply that a channel has taken, and whether the channel was still registered then. -/
structure Accepted where
  id : ReqID
  msg : ReplyMsg
  registered : Bool
  deriving DecidableEq

/-- The broker; a channel is named by the call of `HandleRun` that made it.  `ids`, `forwards`,
`accepted` and `written` record the past. -/
structure Broker where
  pending : ReqID → Option ℕ
  chans : ℕ → Option ReplyMsg
  clients : List Client
  callbacks : List Callback
  ids : List (ReqID × ℕ)
  forwards : List Request
  accepted : List Accepted
  written : List (ℕ × Response)

namespace Broker

def create : Broker := ⟨fun _ => none, fun _ => none, [], [], [], [], [], []⟩

def respond (b : Broker) (h : ℕ) (resp : Response) : Broker :=
  { b with written := b.written ++ [(h, resp)] }

/-- `register` under a fresh id. -/
def register (b : Broker) (r : ReqID) (h : ℕ) : Broker :=
  { b with pending := Function.update b.pending r (some h), ids := b.ids ++ [(r, h)] }

def unregister (b : Broker) (r : ReqID) : Broker :=
  { b with pending := Function.update b.pending r none }

def forward (b : Broker) (req : Request) : Broker :=
  { b with forwards := b.forwards ++ [req] }

/-- The client takes the reply out of its channel.  `WriteHeader` panics on a code that does not
have three digits: nothing is written then. -/
def receive (b : Broker) (h : ℕ) (msg : ReplyMsg) : Broker :=
  { b with
    chans := Function.update b.chans h none
    written := if 100 ≤ msg.status ∧ msg.status ≤ 999 then b.written ++ [(h, .reply msg)]
      else b.written }

def accept (b : Broker) (r : ReqID) (ch : ℕ) (msg : ReplyMsg) : Broker :=
  { b with
    chans := Function.update b.chans ch (some msg)
    accepted := b.accepted ++ [⟨r, msg, b.pending r = some ch⟩] }

/-- The send of `HandleReply`, which gives up if the channel is full. -/
def offer (b : Broker) (r : ReqID) (ch : ℕ) (msg : ReplyMsg) : Broker :=
  match b.chans ch with
  | some _ => b
  | none => b.accept r ch msg

def first (b : Broker) (r : ReqID) : Option Accepted := b.accepted.find? (·.id = r)

end Broker

def forwardFailed (b : Broker) (h : ℕ) (r : ReqID) (err : Bytes) : Broker × Client :=
  (b.respond h (.error statusBadGateway (text "forward to actor failed: " ++ err)), .leaving r)

def atenetStatus (code : ℕ) : Bytes := text ("atenet status " ++ toString code)

/-- A step of the `h`-th call of `HandleRun`. -/
def advance (cfg : Config) (b : Broker) (h : ℕ) (cl : Client) (c : Choice) :
    Option (Broker × Client) :=
  match cl with
  | .reading => match c with
    | .fail err => some (b.respond h (.error statusBadRequest (text "read body: " ++ err)), .returned)
    | .body p => match cfg.sessionID p with
      | some (_ :: _) => some (b, .registering p)
      | _ => some (b.respond h
        (.error statusBadRequest (text "invalid JSON or missing sessionId")), .returned)
    | _ => none
  | .registering p => match c with
    -- ids do not repeat
    | .id r => if b.ids.any (·.1 = r) then none else some (b.register r h, .sending r p 1)
    | _ => none
  | .sending r p attempt => match c with
    | .ok => some (b.forward (cfg.request r p), .awaiting r p attempt)
    | .fail err => some (forwardFailed b h r err)
    | _ => none
  | .awaiting r p attempt => match c with
    | .status code =>
      if code < 300 then some (b, .parked r)
      else if code < 500 then some (forwardFailed b h r (atenetStatus code))
      else some (b, .backingOff r p attempt (atenetStatus code))
    | .fail err => some (b, .backingOff r p attempt err)
    | _ => none
  | .backingOff r p attempt lastErr => match c with
    | .cancelled err => some (forwardFailed b h r err)
    | .timer =>
      if attempt < forwardAttempts then some (b, .sending r p (attempt + 1))
      else some (forwardFailed b h r lastErr)
    | _ => none
  | .parked r => match c with
    | .reply => (b.chans h).map fun msg => (b.receive h msg, .leaving r)
    | .cancelled _ => some (b, .leaving r)
    | .timer => some (b.respond h
      (.error statusGatewayTimeout (text "timed out waiting for actor response")), .leaving r)
    | _ => none
  | .leaving r => some (b.unregister r, .returned)
  | .returned => none

/-- A step of a call of `HandleReply`. -/
def callback (b : Broker) : Callback → Option (Broker × Callback)
  | .looking r msg err => match b.pending r with
    | none => some (b, .returned)
    | some ch => some (b, .offering r ch msg err)
  | .offering r ch msg _ => some (b.offer r ch msg, .returned)
  | .returned => none

/-- `HandleReply` up to the lookup: what it makes of the header and of what it has read. -/
def handleReply (r : ReqID) (status : ℤ) (contentType body : Bytes) (err : Bool) : Callback :=
  .looking r ⟨if status = 0 then 200 else status, contentType, body⟩ err

inductive Event
  /-- a client calls `HandleRun` -/
  | request
  /-- the `h`-th call of `HandleRun` moves -/
  | client (h : ℕ) (c : Choice)
  /-- a call of `HandleReply` that has read its body, or the part of it that arrived -/
  | reply (r : ReqID) (status : ℤ) (contentType body : Bytes) (err : Bool)
  /-- the `j`-th call of `HandleReply` moves -/
  | callback (j : ℕ)
  deriving DecidableEq

def Broker.step (cfg : Config) (b : Broker) : Event → Option Broker
  | .request => some { b with clients := b.clients ++ [.reading] }
  | .client h c => match b.clients[h]? with
    | some cl => (advance cfg b h cl c).map fun r => { r.1 with clients := b.clients.set h r.2 }
    | none => none
  | .reply r status contentType body err =>
    some { b with callbacks := b.callbacks ++ [handleReply r status contentType body err] }
  | .callback j => match b.callbacks[j]? with
    | some k => (callback b k).map fun r => { r.1 with callbacks := b.callbacks.set j r.2 }
    | none => none

/-! ## The ways of a step -/

/-- The id under which a call waits for its reply. -/
def Client.waitingFor : Client → Option ReqID
  | .sending r _ _ | .awaiting r _ _ | .backingOff r _ _ _ | .parked r => some r
  | _ => none

/-- What a step of `HandleRun` can do. -/
inductive Advances (cfg : Config) (b : Broker) (h : ℕ) : Client → Choice → Broker → Client → Prop
  | rejected (c : Choice) (err : Bytes) :
    Advances cfg b h .reading c (b.respond h (.error statusBadRequest err)) .returned
  | read (p : Bytes) : Advances cfg b h .reading (.body p) b (.registering p)
  | register (p : Bytes) (r : ReqID) (hr : ∀ h', (r, h') ∉ b.ids) :
    Advances cfg b h (.registering p) (.id r) (b.register r h) (.sending r p 1)
  | send (r : ReqID) (p : Bytes) (attempt : ℕ) :
    Advances cfg b h (.sending r p attempt) .ok (b.forward (cfg.request r p)) (.awaiting r p attempt)
  | accepted (r : ReqID) (p : Bytes) (attempt code : ℕ) (hc : code < 300) :
    Advances cfg b h (.awaiting r p attempt) (.status code) b (.parked r)
  | refused (r : ReqID) (p : Bytes) (attempt code : ℕ) (hc : 500 ≤ code) :
    Advances cfg b h (.awaiting r p attempt) (.status code) b
      (.backingOff r p attempt (atenetStatus code))
  | lost (r : ReqID) (p : Bytes) (attempt : ℕ) (err : Bytes) :
    Advances cfg b h (.awaiting r p attempt) (.fail err) b (.backingOff r p attempt err)
  | retry (r : ReqID) (p : Bytes) (attempt : ℕ) (lastErr : Bytes) (ha : attempt < forwardAttempts) :
    Advances cfg b h (.backingOff r p attempt lastErr) .timer b (.sending r p (attempt + 1))
  /-- `forwardToActor` fails, or no reply comes in time -/
  | gaveUp (cl : Client) (c : Choice) (r : ReqID) (hcl : cl.waitingFor = some r) (status : ℕ)
    (err : Bytes) : Advances cfg b h cl c (b.respond h (.error status err)) (.leaving r)
  | receive (r : ReqID) (msg : ReplyMsg) (hm : b.chans h = some msg) :
    Advances cfg b h (.parked r) .reply (b.receive h msg) (.leaving r)
  | cancelled (r : ReqID) (err : Bytes) :
    Advances cfg b h (.parked r) (.cancelled err) b (.leaving r)
  | unregister (r : ReqID) (c : Choice) :
    Advances cfg b h (.leaving r) c (b.unregister r) .returned

theorem advance_advances {cfg : Config} {b b' : Broker} {h : ℕ} {cl cl' : Client} {c : Choice}
    (hs : advance cfg b h cl c = some (b', cl')) : Advances cfg b h cl c b' cl' := by
  unfold advance at hs
  cases cl with
  | reading =>
    cases c with
    | fail err =>
      cases hs
      exact .rejected _ _
    | body p =>
      dsimp only at hs
      split at hs
      · cases hs
        exact .read p
      · cases hs
        exact .rejected _ _
    | _ => cases hs
  | registering p =>
    cases c with
    | id r =>
      dsimp only at hs
      split_ifs at hs with hr
      cases hs
      refine .register p r ?_
      simpa using hr
    | _ => cases hs
  | sending r p attempt =>
    cases c with
    | ok =>
      cases hs
      exact .send r p attempt
    | fail err =>
      cases hs
      exact .gaveUp _ _ r rfl _ _
    | _ => cases hs
  | awaiting r p attempt =>
    cases c with
    | status code =>
      dsimp only at hs
      split_ifs at hs with h3 h5
      · cases hs
        exact .accepted r p attempt code h3
      · cases hs
        exact .gaveUp _ _ r rfl _ _
      · cases hs
        exact .refused r p attempt code (not_lt.mp h5)
    | fail err =>
      cases hs
      exact .lost r p attempt err
    | _ => cases hs
  | backingOff r p attempt lastErr =>
    cases c with
    | cancelled err =>
      cases hs
      exact .gaveUp _ _ r rfl _ _
    | timer =>
      dsimp only at hs
      split_ifs at hs with ha
      · cases hs
        exact .retry r p attempt lastErr ha
      · cases hs
        exact .gaveUp _ _ r rfl _ _
    | _ => cases hs
  | parked r =>
    cases c with
    | reply =>
      simp only [Option.map_eq_some_iff, Prod.mk.injEq] at hs
      obtain ⟨msg, hm, rfl, rfl⟩ := hs
      exact .receive r msg hm
    | cancelled err =>
      cases hs
      exact .cancelled r err
    | timer =>
      cases hs
      exact .gaveUp _ _ r rfl _ _
    | _ => cases hs
  | leaving r =>
    cases hs
    exact .unregister r c
  | returned => cases hs

theorem step_client {cfg : Config} {b b' : Broker} {h : ℕ} {c : Choice}
    (hs : b.step cfg (.client h c) = some b') : ∃ cl cl' b₁, b.clients[h]? = some cl ∧
      Advances cfg b h cl c b₁ cl' ∧ b' = { b₁ with clients := b.clients.set h cl' } := by
  unfold Broker.step at hs
  dsimp only at hs
  split at hs
  · rename_i cl hcl
    simp only [Option.map_eq_some_iff, Prod.exists] at hs
    obtain ⟨b₁, cl', ha, rfl⟩ := hs
    exact ⟨cl, cl', b₁, hcl, advance_advances ha, rfl⟩
  · cases hs

theorem step_callback {cfg : Config} {b b' : Broker} {j : ℕ}
    (hs : b.step cfg (.callback j) = some b') : ∃ k k' b₁, b.callbacks[j]? = some k ∧
      callback b k = some (b₁, k') ∧ b' = { b₁ with callbacks := b.callbacks.set j k' } := by
  unfold Broker.step at hs
  dsimp only at hs
  split at hs
  · rename_i k hk
    simp only [Option.map_eq_some_iff, Prod.exists] at hs
    obtain ⟨b₁, k', hc, rfl⟩ := hs
    exact ⟨k, k', b₁, hk, hc, rfl⟩
  · cases hs

end SubstratePoc.Relay
