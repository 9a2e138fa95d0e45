import SubstratePoc.Actor.Suspender
import SubstratePoc.Actor.Ingress
import SubstratePoc.Lib.Run
import SubstratePoc.Lib.Threads

namespace SubstratePoc.Actor
open Lib Tunnel

/-- A call of the agent that is in flight; `suspended` remembers whether the actor has been
block-suspended meanwhile. -/
structure Call where
  id : ℕ
  kind : Kind
  suspended : Bool
  deriving DecidableEq

/-- Where a tick of the poller is: before the report is fetched, before the reason is decided
(`none` if the report could not be fetched), before `SuspendActor` is called. -/
inductive Stage
  | waiting
  | fetching (now : Instant)
  | deciding (now : Instant) (st : Option Status)
  | suspending (r : Reason)
  deriving DecidableEq

structure World where
  tracker : Tracker
  calls : List Call
  /-- the number of calls ever started -/
  started : ℕ
  ingress : Ingress
  threads : List (List IAct)
  poller : Poller
  stage : Stage

def World.pending (w : World) : List IAct := w.threads.flatten

def World.next (w : World) (i : ℕ) : Option IAct := w.threads[i]?.bind List.head?

inductive Event
  | beforeRun (now : Instant)
  | afterRun (now : Instant)
  /-- `beforeTool` or `beforeModel` -/
  | before (k : Kind) (now : Instant)
  /-- `afterTool` or `afterModel` of the call with this number -/
  | after (id : ℕ) (now : Instant)
  /-- the ingress accepts a connection -/
  | request (req : Request)
  /-- the `i`-th goroutine of the ingress moves -/
  | ingress (i : ℕ) (c : IChoice) (now : Instant)
  | tick (now : Instant)
  /-- the report, or an error -/
  | fetch (now : Option Instant)
  /-- the rest of the tick, with the clock as `ingressIdle`, the cooldown and `lastSuspend` read it -/
  | decide (now since stamp : Instant)
  | suspend
  deriving DecidableEq

/-- What a tick decides in the present state. -/
def World.decision (cfg : Policy) (w : World) (now since stamp : Instant) :
    Option (Poller × Option Reason) :=
  match w.stage with
  | .deciding t st =>
    some (w.poller.conclude cfg t st (w.ingress.idleDuration now) since stamp)
  | _ => none

/-- `SuspendActor` is called; the calls that a block-suspend finds in flight are marked. -/
def World.suspended (w : World) (r : Reason) : World :=
  { w with
    calls := if r.kind.isSome then w.calls.map fun c => { c with suspended := true } else w.calls
    stage := .waiting }

def step (cfg : Policy) (w : World) : Event → Option World
  | .beforeRun now => some { w with tracker := w.tracker.beforeRun now }
  | .afterRun now => some { w with tracker := w.tracker.afterRun now }
  | .before k now => some { w with
      tracker := w.tracker.before k now
      calls := w.calls ++ [⟨w.started, k, false⟩]
      started := w.started + 1 }
  | .after id now => (w.calls.find? (·.id = id)).map fun c => { w with
      tracker := w.tracker.after c.kind now
      calls := w.calls.erase c }
  | .request req => some { w with threads := w.threads ++ [[.handle req]] }
  | .ingress i c now => match w.threads[i]? with
    | some (a :: rest) => (iexec w.ingress a c now).map fun r =>
      { w with ingress := r.1, threads := w.threads.set i (r.2.1 ++ rest) }
    | _ => none
  | .tick now => match w.stage with
    | .waiting => some { w with poller := w.poller.tick cfg now, stage := .fetching now }
    | _ => none
  | .fetch now => match w.stage with
    | .fetching t => some { w with stage := .deciding t (now.map w.tracker.snapshot) }
    | _ => none
  | .decide now since stamp => (w.decision cfg now since stamp).map fun d =>
      { w with poller := d.1, stage := match d.2 with | none => .waiting | some r => .suspending r }
  | .suspend => match w.stage with
    | .suspending r => some (w.suspended r)
    | _ => none

def start (now : Instant) : World where
  tracker := .create now
  calls := []
  started := 0
  ingress := .create now
  threads := []
  poller := .create now
  stage := .waiting

def clock (ms : ℤ) : Instant := ⟨ms * 1000000, ms * 1000000⟩

theorem step_ingress {cfg : Policy} {w w' : World} {i : ℕ} {c : IChoice} {now : Instant}
    (h : step cfg w (.ingress i c now) = some w') :
    ∃ a rest ing push eff L R, w.threads = L ++ (a :: rest) :: R ∧ w.next i = some a ∧
      IDoes w.ingress now a c ing push eff ∧
      w' = { w with ingress := ing, threads := L ++ (push ++ rest) :: R } := by
  simp only [step] at h
  split at h
  · rename_i a rest hi
    rw [Option.map_eq_some_iff] at h
    obtain ⟨⟨ing, push, eff⟩, hr, rfl⟩ := h
    obtain ⟨L, R, hts, -, hset⟩ := threads_split hi
    refine ⟨a, rest, ing, push, eff, L, R, hts, by simp [World.next, hi], iexec_does hr, ?_⟩
    rw [hset]
  · cases h

theorem ingress_step {cfg : Policy} {w w' : World} {e : Event} (h : step cfg w e = some w') :
    (∃ req, e = .request req ∧ w' = { w with threads := w.threads ++ [[.handle req]] }) ∨
    (∃ i c now, e = .ingress i c now) ∨ w'.ingress = w.ingress ∧ w'.threads = w.threads := by
  -- only the ingress itself changes the ingress
  cases e with
  | request req => exact .inl ⟨req, rfl, (Option.some.inj h).symm⟩
  | ingress i c now => exact .inr (.inl ⟨i, c, now, rfl⟩)
  | beforeRun | afterRun | before =>
    obtain rfl := Option.some.inj h
    exact .inr (.inr ⟨rfl, rfl⟩)
  | after | decide =>
    obtain ⟨_, -, rfl⟩ := Option.map_eq_some_iff.mp h
    exact .inr (.inr ⟨rfl, rfl⟩)
  | tick | fetch | suspend =>
    simp only [step] at h
    split at h
    · obtain rfl := Option.some.inj h
      exact .inr (.inr ⟨rfl, rfl⟩)
    · cases h

theorem stage_step {cfg : Policy} {w w' : World} {e : Event} {r : Reason}
    (h : step cfg w e = some w') (hr : w'.stage = .suspending r) :
    w.stage = .suspending r ∨ ∃ now since stamp, e = .decide now since stamp := by
  -- only the end of a tick leads to a suspend
  cases e with
  | decide now since stamp => exact .inr ⟨now, since, stamp, rfl⟩
  | beforeRun | afterRun | before | request =>
    obtain rfl := Option.some.inj h
    exact .inl hr
  | after =>
    obtain ⟨_, -, rfl⟩ := Option.map_eq_some_iff.mp h
    exact .inl hr
  | ingress i c now =>
    obtain ⟨_, _, _, _, _, _, _, -, -, -, rfl⟩ := step_ingress h
    exact .inl hr
  | tick | fetch | suspend =>
    simp only [step] at h
    split at h
    · obtain rfl := Option.some.inj h
      cases hr
    · cases h

theorem step_decide {cfg : Policy} {w w' : World} {now since stamp : Instant}
    (h : step cfg w (.decide now since stamp) = some w') :
    ∃ t st d, w.stage = .deciding t st ∧ w.decision cfg now since stamp = some d ∧
      w.poller.conclude cfg t st (w.ingress.idleDuration now) since stamp = d ∧
      w' = { w with poller := d.1, stage := match d.2 with
        | none => .waiting
        | some r => .suspending r } := by
  simp only [step, Option.map_eq_some_iff] at h
  obtain ⟨d, hd, rfl⟩ := h
  have hd' := hd
  unfold World.decision at hd'
  split at hd'
  · rename_i t st hst
    exact ⟨t, st, d, hst, hd, Option.some.inj hd', rfl⟩
  · cases hd'

end SubstratePoc.Actor
