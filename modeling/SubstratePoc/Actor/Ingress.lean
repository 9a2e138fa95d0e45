import SubstratePoc.Actor.Tracker
import SubstratePoc.Tunnel.Buffer

namespace SubstratePoc.Actor
open Tunnel

/-- What `handle` reads off a request: `X-Poc-Reply-To`, `X-Poc-Request-Id`, and what is
forwarded. -/
structure Request where
  replyTo : Bytes
  reqID : Bytes
  method : Bytes
  uri : Bytes
  contentType : Bytes
  body : Bytes
  deriving DecidableEq

/-- What `deliver` posts, with the address. -/
structure Reply where
  replyTo : Bytes
  reqID : Bytes
  status : ℕ
  contentType : Bytes
  body : Bytes
  deriving DecidableEq

def textPlain : Bytes := "text/plain".toUTF8.data.toList

def agentCallFailed : Bytes := "agent call failed: ".toUTF8.data.toList

def statusBadGateway : ℕ := 502

def replyAttempts : ℕ := 5

/-- The counters of `Ingress`; `none` is the zero time. -/
structure Ingress where
  inFlight : ℕ
  idleSince : Option Instant
  deriving DecidableEq

namespace Ingress

/-- `NewIngress`. -/
def create (now : Instant) : Ingress := ⟨0, some now⟩

def idleDuration (i : Ingress) (now : Instant) : ℤ :=
  match i.idleSince with
  | none => 0
  | some t => if 0 < i.inFlight then 0 else now.since t

def enterRequest (i : Ingress) : Ingress := ⟨i.inFlight + 1, none⟩

def exitRequest (i : Ingress) (now : Instant) : Ingress where
  inFlight := i.inFlight - 1
  idleSince := if i.inFlight - 1 = 0 then some now else i.idleSince

end Ingress

/-- What a goroutine of the ingress does next. -/
inductive IAct
  /-- `handle` up to the end of the request's body -/
  | handle (req : Request)
  | proxyInline (req : Request)
  /-- the 202 -/
  | accept (req : Request)
  | enterRequest (req : Request)
  | process (req : Request)
  /-- `process` waits for the agent -/
  | agentDo (req : Request)
  | deliver (rep : Reply) (attempt : ℕ)
  /-- `deliver` waits for the answer to its POST -/
  | replyDo (rep : Reply) (attempt : ℕ)
  | exitRequest
  deriving DecidableEq

/-- How an I/O call turns out. -/
inductive IChoice
  | ok
  | fail (text : Bytes)
  /-- the agent's response, of whose body the first `n` bytes are read -/
  | response (status : ℕ) (contentType body : Bytes) (n : ℕ)
  /-- the first `n` bytes of a request's body are read -/
  | read (n : ℕ)
  deriving DecidableEq

/-- What an action does outside the sidecar. -/
inductive IEffect
  | accepted (req : Request)
  /-- a request that is sent to the agent -/
  | forward (req : Request)
  /-- the agent's response to the request, whole -/
  | answered (req : Request) (status : ℕ) (contentType body : Bytes)
  | post (rep : Reply)
  deriving DecidableEq

/-- The state after an action at time `now`, what the goroutine does before it goes on, and what
happens outside.  `process` runs in a goroutine of its own, which goes on where `handle` ends. -/
def iexec (i : Ingress) (a : IAct) (c : IChoice) (now : Instant) :
    Option (Ingress × List IAct × List IEffect) :=
  match a with
  | .handle req => match c with
    | .ok => some (i, [if req.replyTo = [] ∨ req.reqID = [] then .proxyInline req
        else .accept req], [])
    | .fail _ => some (i, [], [])
    | _ => none
  | .proxyInline req => match c with
    -- an error of this read is ignored; the response goes back on the connection
    | .read n => some (i, [], [.forward { req with body := req.body.take n }])
    | .fail _ => some (i, [], [])
    | _ => none
  | .accept req => some (i, [.enterRequest req], [.accepted req])
  | .enterRequest req => some (i.enterRequest, [.process req, .exitRequest], [])
  | .process req => match c with
    | .ok => some (i, [.agentDo req], [.forward req])
    -- the request for the agent cannot be built
    | .fail _ => some (i, [], [])
    | _ => none
  | .agentDo req => match c with
    | .fail text =>
      some (i, [.deliver ⟨req.replyTo, req.reqID, statusBadGateway, textPlain,
        agentCallFailed ++ text⟩ 1], [])
    | .response status contentType body n =>
      some (i, [.deliver ⟨req.replyTo, req.reqID, status, contentType, body.take n⟩ 1],
        [.answered req status contentType body])
    | _ => none
  | .deliver rep attempt =>
    if replyAttempts < attempt then some (i, [], [])
    else match c with
    | .ok => some (i, [.replyDo rep attempt], [.post rep])
    | .fail _ => some (i, [], [])
    | _ => none
  | .replyDo rep attempt => match c with
    | .ok => some (i, [], [])
    | .fail _ => some (i, [.deliver rep (attempt + 1)], [])
    | _ => none
  | .exitRequest => some (i.exitRequest now, [], [])

/-- What an action can do, one constructor for each way through `iexec`. -/
inductive IDoes (i : Ingress) (now : Instant) :
    IAct → IChoice → Ingress → List IAct → List IEffect → Prop
  | handleInline (req : Request) (h : req.replyTo = [] ∨ req.reqID = []) :
    IDoes i now (.handle req) .ok i [.proxyInline req] []
  | handle (req : Request) (ha : req.replyTo ≠ []) (hr : req.reqID ≠ []) :
    IDoes i now (.handle req) .ok i [.accept req] []
  | handleFail (req : Request) (text : Bytes) : IDoes i now (.handle req) (.fail text) i [] []
  | inline (req : Request) (n : ℕ) :
    IDoes i now (.proxyInline req) (.read n) i [] [.forward { req with body := req.body.take n }]
  | inlineFail (req : Request) (text : Bytes) :
    IDoes i now (.proxyInline req) (.fail text) i [] []
  | accept (req : Request) (c : IChoice) :
    IDoes i now (.accept req) c i [.enterRequest req] [.accepted req]
  | enter (req : Request) (c : IChoice) :
    IDoes i now (.enterRequest req) c i.enterRequest [.process req, .exitRequest] []
  | process (req : Request) : IDoes i now (.process req) .ok i [.agentDo req] [.forward req]
  | processFail (req : Request) (text : Bytes) : IDoes i now (.process req) (.fail text) i [] []
  | agentFail (req : Request) (text : Bytes) : IDoes i now (.agentDo req) (.fail text) i
    [.deliver ⟨req.replyTo, req.reqID, statusBadGateway, textPlain, agentCallFailed ++ text⟩ 1] []
  | agent (req : Request) (status : ℕ) (contentType body : Bytes) (n : ℕ) :
    IDoes i now (.agentDo req) (.response status contentType body n) i
    [.deliver ⟨req.replyTo, req.reqID, status, contentType, body.take n⟩ 1]
    [.answered req status contentType body]
  | gaveUp (rep : Reply) (attempt : ℕ) (c : IChoice) (h : replyAttempts < attempt) :
    IDoes i now (.deliver rep attempt) c i [] []
  | deliver (rep : Reply) (attempt : ℕ) (h : attempt ≤ replyAttempts) :
    IDoes i now (.deliver rep attempt) .ok i [.replyDo rep attempt] [.post rep]
  | deliverFail (rep : Reply) (attempt : ℕ) (text : Bytes) (h : attempt ≤ replyAttempts) :
    IDoes i now (.deliver rep attempt) (.fail text) i [] []
  | replyOk (rep : Reply) (attempt : ℕ) : IDoes i now (.replyDo rep attempt) .ok i [] []
  | replyFail (rep : Reply) (attempt : ℕ) (text : Bytes) :
    IDoes i now (.replyDo rep attempt) (.fail text) i [.deliver rep (attempt + 1)] []
  | exit (c : IChoice) : IDoes i now .exitRequest c (i.exitRequest now) [] []

theorem iexec_does {i i' : Ingress} {a : IAct} {c : IChoice} {now : Instant} {push : List IAct}
    {eff : List IEffect} (h : iexec i a c now = some (i', push, eff)) :
    IDoes i now a c i' push eff := by
  unfold iexec at h
  cases a with
  | handle req =>
    cases c with
    | ok =>
      simp only [Option.some.injEq, Prod.mk.injEq] at h
      obtain ⟨rfl, rfl, rfl⟩ := h
      split_ifs with hr
      · exact .handleInline req hr
      · rw [not_or] at hr
        exact .handle req hr.1 hr.2
    | fail text =>
      cases h
      exact .handleFail req text
    | _ => cases h
  | proxyInline req =>
    cases c with
    | read n =>
      cases h
      exact .inline req n
    | fail text =>
      cases h
      exact .inlineFail req text
    | _ => cases h
  | accept req =>
    cases h
    exact .accept req c
  | enterRequest req =>
    cases h
    exact .enter req c
  | process req =>
    cases c with
    | ok =>
      cases h
      exact .process req
    | fail text =>
      cases h
      exact .processFail req text
    | _ => cases h
  | agentDo req =>
    cases c with
    | fail text =>
      cases h
      exact .agentFail req text
    | response status contentType body n =>
      cases h
      exact .agent req status contentType body n
    | _ => cases h
  | deliver rep attempt =>
    by_cases ha : replyAttempts < attempt
    · simp only [if_pos ha, Option.some.injEq, Prod.mk.injEq] at h
      obtain ⟨rfl, rfl, rfl⟩ := h
      exact .gaveUp rep attempt c ha
    · simp only [if_neg ha] at h
      rw [not_lt] at ha
      cases c with
      | ok =>
        cases h
        exact .deliver rep attempt ha
      | fail text =>
        cases h
        exact .deliverFail rep attempt text ha
      | _ => cases h
  | replyDo rep attempt =>
    cases c with
    | ok =>
      cases h
      exact .replyOk rep attempt
    | fail text =>
      cases h
      exact .replyFail rep attempt text
    | _ => cases h
  | exitRequest =>
    cases h
    exact .exit c

/-- The request has been acknowledged and `process` has not returned. -/
def IAct.outstanding : IAct → Bool
  | .handle _ | .proxyInline _ | .accept _ => false
  | _ => true

/-- `process` is at work on the request. -/
def IAct.working : IAct → Bool
  | .process _ | .agentDo _ | .deliver _ _ | .replyDo _ _ => true
  | _ => false

/-- The request has been acknowledged and is not counted yet. -/
def IAct.uncounted : IAct → Bool
  | .enterRequest _ => true
  | _ => false

end SubstratePoc.Actor
