import Mathlib.Data.Int.Notation
import Mathlib.Tactic.Common

namespace SubstratePoc.Actor

/-- `time.Time` with its two readings, in nanoseconds. -/
structure Instant where
  wall : ℤ
  mono : ℤ
  deriving DecidableEq

namespace Instant

def add (t : Instant) (d : ℤ) : Instant := ⟨t.wall + d, t.mono + d⟩

/-- `time.Since(t)` at `now`; both have a monotonic reading. -/
def since (now t : Instant) : ℤ := now.mono - t.mono

/-- `now.After(t)`. -/
def isAfter (now t : Instant) : Bool := t.mono < now.mono

/-- `now.Round(0).Sub(t.Round(0))`: without monotonic readings the wall clocks count. -/
def wallSince (now t : Instant) : ℤ := now.wall - t.wall

end Instant

def milliseconds (d : ℤ) : ℤ := d.tdiv 1000000

inductive Kind
  | tool
  | model
  deriving DecidableEq

/-- The calls of one kind: those in flight, those ever started, and since when some have been in
flight. -/
structure Gauge where
  calls : ℕ
  total : ℕ
  busySince : Option Instant
  deriving DecidableEq

namespace Gauge

def before (g : Gauge) (now : Instant) : Gauge where
  calls := g.calls + 1
  total := g.total + 1
  busySince := if g.calls = 0 then some now else g.busySince

def after (g : Gauge) : Gauge where
  calls := g.calls - 1
  total := g.total
  busySince := if g.calls - 1 = 0 then none else g.busySince

def blockedMillis (g : Gauge) (now : Instant) : ℤ := match g.busySince with
  | none => 0
  | some t => milliseconds (now.since t)

end Gauge

structure Tracker where
  invocations : ℕ
  tool : Gauge
  model : Gauge
  lastActivity : Instant
  deriving DecidableEq

structure Status where
  invocationsInFlight : ℕ
  toolCallsInFlight : ℕ
  toolCallsStarted : ℕ
  modelCallsInFlight : ℕ
  modelCallsStarted : ℕ
  toolBlockedMillis : ℤ
  modelBlockedMillis : ℤ
  idleMillis : ℤ
  deriving DecidableEq

namespace Tracker

/-- `New`. -/
def create (now : Instant) : Tracker := ⟨0, ⟨0, 0, none⟩, ⟨0, 0, none⟩, now⟩

def beforeRun (t : Tracker) (now : Instant) : Tracker :=
  { t with invocations := t.invocations + 1, lastActivity := now }

def afterRun (t : Tracker) (now : Instant) : Tracker :=
  { t with invocations := t.invocations - 1, lastActivity := now }

def beforeTool (t : Tracker) (now : Instant) : Tracker :=
  { t with tool := t.tool.before now, lastActivity := now }

def afterTool (t : Tracker) (now : Instant) : Tracker :=
  { t with tool := t.tool.after, lastActivity := now }

def beforeModel (t : Tracker) (now : Instant) : Tracker :=
  { t with model := t.model.before now, lastActivity := now }

def afterModel (t : Tracker) (now : Instant) : Tracker :=
  { t with model := t.model.after, lastActivity := now }

def snapshot (t : Tracker) (now : Instant) : Status where
  invocationsInFlight := t.invocations
  toolCallsInFlight := t.tool.calls
  toolCallsStarted := t.tool.total
  modelCallsInFlight := t.model.calls
  modelCallsStarted := t.model.total
  toolBlockedMillis := t.tool.blockedMillis now
  modelBlockedMillis := t.model.blockedMillis now
  idleMillis := if t.invocations = 0 ∧ t.tool.calls + t.model.calls = 0
    then milliseconds (now.since t.lastActivity) else 0

def gauge (t : Tracker) : Kind → Gauge
  | .tool => t.tool
  | .model => t.model

def before (t : Tracker) : Kind → Instant → Tracker
  | .tool => t.beforeTool
  | .model => t.beforeModel

def after (t : Tracker) : Kind → Instant → Tracker
  | .tool => t.afterTool
  | .model => t.afterModel

theorem gauge_before (t : Tracker) (k k' : Kind) (now : Instant) :
    (t.before k now).gauge k' = if k' = k then (t.gauge k').before now else t.gauge k' := by
  cases k <;> cases k' <;> rfl

theorem gauge_after (t : Tracker) (k k' : Kind) (now : Instant) :
    (t.after k now).gauge k' = if k' = k then (t.gauge k').after else t.gauge k' := by
  cases k <;> cases k' <;> rfl

end Tracker

namespace Status

def inFlight (st : Status) : Kind → ℕ
  | .tool => st.toolCallsInFlight
  | .model => st.modelCallsInFlight

def started (st : Status) : Kind → ℕ
  | .tool => st.toolCallsStarted
  | .model => st.modelCallsStarted

end Status

theorem Tracker.inFlight_snapshot (t : Tracker) (now : Instant) (k : Kind) :
    (t.snapshot now).inFlight k = (t.gauge k).calls := by
  cases k <;> rfl

theorem Tracker.started_snapshot (t : Tracker) (now : Instant) (k : Kind) :
    (t.snapshot now).started k = (t.gauge k).total := by
  cases k <;> rfl

end SubstratePoc.Actor
