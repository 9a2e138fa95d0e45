import SubstratePoc.Actor.Tracker

namespace SubstratePoc.Actor

/-- `SuspenderConfig`, with durations in nanoseconds; `ingressIdle` says whether the function is
set. -/
structure SuspenderConfig where
  pollInterval : ℤ
  blockedAfter : ℤ
  includeModelCalls : Bool
  idleAfter : ℤ
  cooldown : ℤ
  ingressIdle : Bool

/-- The fields of `Suspender` that do not change. -/
structure Policy where
  blocked : ℤ
  includeModel : Bool
  idle : ℤ
  cooldown : ℤ
  resumeGap : ℤ
  ingressIdle : Bool

def second : ℤ := 1000000000

def newSuspender (cfg : SuspenderConfig) : Policy :=
  let poll := if cfg.pollInterval = 0 then second / 2 else cfg.pollInterval
  { blocked := if cfg.blockedAfter = 0 then second else cfg.blockedAfter
    includeModel := cfg.includeModelCalls
    idle := cfg.idleAfter
    cooldown := if cfg.cooldown = 0 then 2 * second else cfg.cooldown
    resumeGap := if 2 * second < poll * 3 then poll * 3 else 2 * second
    ingressIdle := cfg.ingressIdle }

inductive Reason
  | toolBlocked
  | modelBlocked
  | idle
  deriving DecidableEq

/-- The kind of call that a block-suspend is for. -/
def Reason.kind : Reason → Option Kind
  | .toolBlocked => some .tool
  | .modelBlocked => some .model
  | .idle => none

/-- What `Run` keeps from tick to tick; `none` is the zero time. -/
structure Poller where
  lastToolGen : ℕ
  lastModelGen : ℕ
  lastSuspend : Option Instant
  prevTick : Instant
  idleGraceUntil : Option Instant
  deriving DecidableEq

def Poller.create (now : Instant) : Poller := ⟨0, 0, none, now, none⟩

def decideBlocked (cfg : Policy) (st : Status) : Option Reason :=
  if 0 < st.toolCallsInFlight ∧ milliseconds cfg.blocked ≤ st.toolBlockedMillis then
    some .toolBlocked
  else if cfg.includeModel ∧ 0 < st.modelCallsInFlight ∧
      milliseconds cfg.blocked ≤ st.modelBlockedMillis then
    some .modelBlocked
  else none

namespace Poller

/-- The beginning of a tick: a gap between the wall clocks of two ticks is a resume. -/
def tick (cfg : Policy) (s : Poller) (now : Instant) : Poller :=
  { s with
    idleGraceUntil :=
      if cfg.resumeGap < now.wallSince s.prevTick then some (now.add cfg.idle) else s.idleGraceUntil
    prevTick := now }

/-- The reason for a suspend, from the report (if there is one) and `ingressIdle()`. -/
def reason (cfg : Policy) (s : Poller) (now : Instant) (st : Option Status) (idleFor : ℤ) :
    Option Reason :=
  match st.bind (decideBlocked cfg) with
  | some r => some r
  | none =>
    if cfg.ingressIdle ∧ 0 < cfg.idle ∧ s.idleGraceUntil.all now.isAfter ∧ cfg.idle ≤ idleFor then
      some .idle
    else none

def gen (s : Poller) : Kind → ℕ
  | .tool => s.lastToolGen
  | .model => s.lastModelGen

def setGen (s : Poller) (n : ℕ) : Kind → Poller
  | .tool => { s with lastToolGen := n }
  | .model => { s with lastModelGen := n }

/-- The calls in the report have been suspended before. -/
def gated (s : Poller) (st : Option Status) (r : Reason) : Bool :=
  match r.kind, st with
  | some k, some st => st.started k ≤ s.gen k
  | _, _ => false

/-- `time.Since(lastSuspend) < s.cooldown`. -/
def cooling (cfg : Policy) (s : Poller) (now : Instant) : Bool :=
  s.lastSuspend.any fun t => now.since t < cfg.cooldown

/-- What is recorded before `suspend` is called. -/
def record (s : Poller) (st : Option Status) (r : Reason) (stamp : Instant) : Poller :=
  let s := match r.kind, st with
    | some k, some st => s.setGen (st.started k) k
    | _, _ => s
  { s with lastSuspend := some stamp }

/-- The rest of a tick, up to the call of `suspend`.  `since` and `stamp` are its two readings of
the clock, for the cooldown and for `lastSuspend`. -/
def conclude (cfg : Policy) (s : Poller) (now : Instant) (st : Option Status) (idleFor : ℤ)
    (since stamp : Instant) : Poller × Option Reason :=
  match s.reason cfg now st idleFor with
  | none => (s, none)
  | some r =>
    if s.gated st r || s.cooling cfg since then (s, none) else (s.record st r stamp, some r)

/-- A tick that goes on to `suspend` has a reason, which is neither gated nor too early. -/
theorem conclude_eq_some {cfg : Policy} {s s' : Poller} {now : Instant} {st : Option Status}
    {idleFor : ℤ} {since stamp : Instant} {r : Reason}
    (h : s.conclude cfg now st idleFor since stamp = (s', some r)) :
    s.reason cfg now st idleFor = some r ∧ s.gated st r = false ∧ s.cooling cfg since = false ∧
      s' = s.record st r stamp := by
  unfold conclude at h
  split at h
  · cases h
  · rename_i r' hr
    split_ifs at h with hg
    · cases h
    · simp only [Prod.mk.injEq, Option.some.injEq] at h
      obtain ⟨rfl, rfl⟩ := h
      simpa [hr] using hg

theorem conclude_eq_none {cfg : Policy} {s s' : Poller} {now : Instant} {st : Option Status}
    {idleFor : ℤ} {since stamp : Instant}
    (h : s.conclude cfg now st idleFor since stamp = (s', none)) : s' = s := by
  unfold conclude at h
  split at h
  · exact (Prod.mk.inj h).1.symm
  · split_ifs at h
    · exact (Prod.mk.inj h).1.symm
    · cases (Prod.mk.inj h).2

theorem decideBlocked_ne_idle (cfg : Policy) (st : Status) : decideBlocked cfg st ≠ some .idle := by
  unfold decideBlocked
  split_ifs <;> simp

theorem reason_eq_idle {cfg : Policy} {s : Poller} {now : Instant} {st : Option Status} {idleFor : ℤ}
    (h : s.reason cfg now st idleFor = some .idle) :
    0 < cfg.idle ∧ s.idleGraceUntil.all now.isAfter = true ∧ cfg.idle ≤ idleFor := by
  unfold reason at h
  split at h
  · rename_i r hr
    obtain rfl := Option.some.inj h
    obtain ⟨st, -, hst⟩ := Option.bind_eq_some_iff.mp hr
    exact absurd hst (decideBlocked_ne_idle cfg st)
  · split_ifs at h with hc
    exact hc.2

end Poller

end SubstratePoc.Actor
