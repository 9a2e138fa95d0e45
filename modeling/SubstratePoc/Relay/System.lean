import SubstratePoc.Relay.Matching
import SubstratePoc.Lib.Threads

namespace SubstratePoc.Relay
open Lib Tunnel Actor

/-- A response of the agent, whole. -/
structure Answer where
  req : Request
  status : ℕ
  contentType : Bytes
  body : Bytes
  deriving DecidableEq

/-- `attempts` has, for each goroutine of the ingress, the place in `broker.forwards` of the
attempt that it serves.  `read`, `forwarded`, `answered` and `posts` record the past: the attempts
that `handle` has read to the end, the requests sent to the agent, its responses, and the POSTs
of `deliver`. -/
structure System where
  broker : Broker
  ingress : Ingress
  threads : List (List IAct)
  attempts : List ℕ
  read : List ℕ
  forwarded : List Request
  answered : List Answer
  posts : List Reply
  arrived : List ℕ

namespace System

inductive Event
  | request
  | client (h : ℕ) (c : Choice)
  | callback (j : ℕ)
  /-- the router delivers the `k`-th attempt to the sidecar -/
  | deliver (k : ℕ)
  /-- the `i`-th goroutine of the ingress moves -/
  | ingress (i : ℕ) (c : IChoice) (now : Instant)
  /-- the `k`-th POST reaches the broker, which reads the first `n` bytes of its body -/
  | arrive (k n : ℕ)
  deriving DecidableEq

def observe (w : System) : IEffect → System
  | .accepted _ => w
  | .forward req => { w with forwarded := w.forwarded ++ [req] }
  | .answered req status contentType body =>
    { w with answered := w.answered ++ [⟨req, status, contentType, body⟩] }
  | .post rep => { w with posts := w.posts ++ [rep] }

/-- The attempt that an action finishes reading. -/
def reads (a : IAct) (c : IChoice) (k : ℕ) : List ℕ :=
  match a, c with
  | .handle _, .ok => [k]
  | _, _ => []

def step (cfg : Config) (w : System) : Event → Option System
  | .request => (w.broker.step cfg .request).map fun b => { w with broker := b }
  | .client h c => (w.broker.step cfg (.client h c)).map fun b => { w with broker := b }
  | .callback j => (w.broker.step cfg (.callback j)).map fun b => { w with broker := b }
  | .deliver k => match w.broker.forwards[k]? with
    | some req =>
      if k ∈ w.attempts then none
      else some { w with threads := w.threads ++ [[.handle req]], attempts := w.attempts ++ [k] }
    | none => none
  | .ingress i c now => match w.threads[i]?, w.attempts[i]? with
    | some (a :: rest), some k => (iexec w.ingress a c now).map fun r =>
      r.2.2.foldl observe { w with
        ingress := r.1
        threads := w.threads.set i (r.2.1 ++ rest)
        read := w.read ++ reads a c k }
    | _, _ => none
  | .arrive k n => match w.posts[k]? with
    | some rep =>
      if k ∈ w.arrived then none
      else (w.broker.step cfg (.reply rep.reqID rep.status rep.contentType (rep.body.take n)
        (n < rep.body.length))).map fun b => { w with broker := b, arrived := w.arrived ++ [k] }
    | none => none

def start (now : Instant) : System :=
  ⟨.create, .create now, [], [], [], [], [], [], []⟩

def pending (w : System) : List IAct := w.threads.flatten

def next (w : System) (i : ℕ) : Option IAct := w.threads[i]?.bind List.head?

def idOf (w : System) (k : ℕ) : Option ReqID := w.broker.forwards[k]?.map (·.reqID)

theorem observe_frame (w : System) (eff : List IEffect) :
    (eff.foldl observe w).broker = w.broker ∧ (eff.foldl observe w).threads = w.threads ∧
      (eff.foldl observe w).attempts = w.attempts ∧ (eff.foldl observe w).read = w.read ∧
      ∃ more, (eff.foldl observe w).answered = w.answered ++ more := by
  induction eff generalizing w with
  | nil => exact ⟨rfl, rfl, rfl, rfl, [], (List.append_nil _).symm⟩
  | cons f eff ih =>
    obtain ⟨hb, ht, ha, hr, more, hm⟩ := ih (w.observe f)
    simp only [List.foldl_cons, hb, ht, ha, hr, hm]
    cases f with
    | answered req status contentType body =>
      exact ⟨rfl, rfl, rfl, rfl, ⟨req, status, contentType, body⟩ :: more, List.append_assoc _ _ _⟩
    | _ => exact ⟨rfl, rfl, rfl, rfl, more, rfl⟩

/-! ## The ways of a step -/

/-- A step is a step of the broker, a delivery by the router or a step of the ingress. -/
inductive Steps (cfg : Config) (w : System) : Event → System → Prop
  | request (b : Broker) (hs : w.broker.step cfg .request = some b) :
    Steps cfg w .request { w with broker := b }
  | client (h : ℕ) (c : Choice) (b : Broker) (hs : w.broker.step cfg (.client h c) = some b) :
    Steps cfg w (.client h c) { w with broker := b }
  | callback (j : ℕ) (b : Broker) (hs : w.broker.step cfg (.callback j) = some b) :
    Steps cfg w (.callback j) { w with broker := b }
  | deliver (k : ℕ) (req : Request) (hk : w.broker.forwards[k]? = some req)
    (hnew : k ∉ w.attempts) : Steps cfg w (.deliver k)
      { w with threads := w.threads ++ [[.handle req]], attempts := w.attempts ++ [k] }
  | ingress (i : ℕ) (c : IChoice) (now : Instant) (a : IAct) (rest push : List IAct) (k : ℕ)
    (ing : Ingress) (eff : List IEffect) (L R : List (List IAct))
    (hts : w.threads = L ++ (a :: rest) :: R) (hi : L.length = i) (hk : w.attempts[i]? = some k)
    (hdo : IDoes w.ingress now a c ing push eff) : Steps cfg w (.ingress i c now)
      (eff.foldl observe { w with
        ingress := ing
        threads := L ++ (push ++ rest) :: R
        read := w.read ++ reads a c k })
  | arrive (k n : ℕ) (rep : Reply) (b : Broker) (hk : w.posts[k]? = some rep)
    (hs : w.broker.step cfg (.reply rep.reqID rep.status rep.contentType (rep.body.take n)
      (n < rep.body.length)) = some b) :
    Steps cfg w (.arrive k n) { w with broker := b, arrived := w.arrived ++ [k] }

theorem step_steps {cfg : Config} {w w' : System} {e : Event} (h : w.step cfg e = some w') :
    Steps cfg w e w' := by
  cases e with
  | request =>
    simp only [step, Option.map_eq_some_iff] at h
    obtain ⟨b, hs, rfl⟩ := h
    exact .request b hs
  | client m c =>
    obtain ⟨b, hs, rfl⟩ := Option.map_eq_some_iff.mp h
    exact .client m c b hs
  | callback j =>
    obtain ⟨b, hs, rfl⟩ := Option.map_eq_some_iff.mp h
    exact .callback j b hs
  | deliver k =>
    simp only [step] at h
    split at h
    · rename_i req hk
      split_ifs at h with hnew
      cases h
      exact .deliver k req hk hnew
    · cases h
  | ingress i c now =>
    simp only [step] at h
    split at h
    · rename_i a rest k hi hk
      obtain ⟨⟨ing, push, eff⟩, hex, rfl⟩ := Option.map_eq_some_iff.mp h
      obtain ⟨L, R, hts, hlen, hset⟩ := threads_split hi
      rw [hset]
      exact .ingress i c now a rest push k ing eff L R hts hlen hk (iexec_does hex)
    · cases h
  | arrive k n =>
    simp only [step] at h
    split at h
    · rename_i rep hk
      split_ifs at h with hnew
      obtain ⟨b, hs, rfl⟩ := Option.map_eq_some_iff.mp h
      exact .arrive k n rep b hk hs
    · cases h

end System

end SubstratePoc.Relay
