import SubstratePoc.Actor.Suspender
import SubstratePoc.Lib.Run

namespace SubstratePoc.Actor
open Lib

/-- What one tick of `Run` reads: the clock when it begins, the report unless it failed,
`ingressIdle()`, and the clock for the cooldown and for `lastSuspend`. -/
structure Tick where
  now : Instant
  st : Option Status
  idleFor : ℤ
  since : Instant
  stamp : Instant
  deriving DecidableEq

/-- One tick from beginning to end, with the reason it suspends for. -/
def Poller.turn (cfg : Policy) (s : Poller) (x : Tick) : Poller × Option Reason :=
  (s.tick cfg x.now).conclude cfg x.now x.st x.idleFor x.since x.stamp

/-- `Run`, with the last monotonic reading. -/
structure Polling where
  poller : Poller
  last : ℤ
  deriving DecidableEq

namespace Polling

def start (now : Instant) : Polling := ⟨.create now, now.mono⟩

/-- A tick whose monotonic readings do not go back. -/
def step (cfg : Policy) (s : Polling) (x : Tick) : Option Polling :=
  if s.last ≤ x.now.mono ∧ x.now.mono ≤ x.since.mono ∧ x.since.mono ≤ x.stamp.mono then
    some ⟨(s.poller.turn cfg x).1, x.stamp.mono⟩
  else none

/-- The time that a tick records if it suspends. -/
def recorded (cfg : Policy) (s : Polling) (x : Tick) : List Instant :=
  match s.poller.turn cfg x with
  | (p, some _) => p.lastSuspend.toList
  | (_, none) => []

/-- The ticks that come after a gap on the wall clock, the first one compared with `prev`. -/
def resumes (cfg : Policy) (prev : Instant) : List Tick → List Instant
  | [] => []
  | x :: xs => (if cfg.resumeGap < x.now.wallSince prev then [x.now] else []) ++
      resumes cfg x.now xs

variable {cfg : Policy} {s s' : Polling} {x : Tick}

theorem step_eq_some (h : step cfg s x = some s') :
    s.last ≤ x.now.mono ∧ x.now.mono ≤ x.since.mono ∧ x.since.mono ≤ x.stamp.mono ∧
      s' = ⟨(s.poller.turn cfg x).1, x.stamp.mono⟩ := by
  unfold step at h
  split_ifs at h with hle
  exact ⟨hle.1, hle.2.1, hle.2.2, (Option.some.inj h).symm⟩

/-! ## The cooldown -/

/-- The recorded times keep their distance, and the poller remembers the last of them. -/
structure Spaced (cfg : Policy) (s : Polling) (l : List Instant) : Prop where
  apart : l.Pairwise fun t u => t.mono + cfg.cooldown ≤ u.mono
  past : ∀ t ∈ l, t.mono ≤ s.last
  remembered : ∀ t ∈ l, ∃ u, s.poller.lastSuspend = some u ∧ t.mono ≤ u.mono

theorem mono_of_not_cooling {p : Poller} {now t : Instant} (h : p.cooling cfg now = false)
    (ht : p.lastSuspend = some t) : t.mono + cfg.cooldown ≤ now.mono := by
  rw [Poller.cooling, ht, Option.any_some] at h
  have hlt := of_decide_eq_false h
  unfold Instant.since at hlt
  omega

theorem Spaced.step {l : List Instant} (hI : Spaced cfg s l) (h : step cfg s x = some s') :
    Spaced cfg s' (l ++ recorded cfg s x) := by
  obtain ⟨hnow, hsince, hstamp, rfl⟩ := step_eq_some h
  have hpast : ∀ t ∈ l, t.mono ≤ x.stamp.mono := by
    intro t ht
    have := hI.past t ht
    omega
  unfold recorded
  rcases hturn : s.poller.turn cfg x with ⟨p, _ | r⟩
  · -- the tick leaves the record alone
    have hp := Poller.conclude_eq_none hturn
    rw [List.append_nil]
    refine ⟨hI.apart, hpast, fun t ht => ?_⟩
    rw [hp]
    exact hI.remembered t ht
  · obtain ⟨-, -, hcool, hp⟩ := Poller.conclude_eq_some hturn
    have hlast : p.lastSuspend = some x.stamp := by
      rw [hp]
      rfl
    dsimp only
    rw [hlast]
    have hall : ∀ t ∈ l ++ [x.stamp], t.mono ≤ x.stamp.mono := by
      rw [List.forall_mem_append]
      exact ⟨hpast, by simp⟩
    refine ⟨List.pairwise_append.mpr ⟨hI.apart, List.pairwise_singleton _ _, ?_⟩, hall,
      fun t ht => ⟨x.stamp, hlast, hall t ht⟩⟩
    intro t ht u hu
    obtain rfl := List.mem_singleton.mp hu
    obtain ⟨v, hv, htv⟩ := hI.remembered t ht
    have := mono_of_not_cooling hcool hv
    omega

/-! ## The grace after a resume -/

/-- The grace covers the resumes so far. -/
structure Graced (cfg : Policy) (s : Polling) (l : List Instant) : Prop where
  past : ∀ t ∈ l, t.mono ≤ s.last
  graced : ∀ t ∈ l, ∃ u, s.poller.idleGraceUntil = some u ∧ t.mono + cfg.idle ≤ u.mono

def resumed (cfg : Policy) (s : Polling) (x : Tick) : List Instant :=
  if cfg.resumeGap < x.now.wallSince s.poller.prevTick then [x.now] else []

theorem turn_grace (cfg : Policy) (s : Poller) (x : Tick) :
    (s.turn cfg x).1.idleGraceUntil = (s.tick cfg x.now).idleGraceUntil ∧
      (s.turn cfg x).1.prevTick = x.now := by
  rcases hturn : s.turn cfg x with ⟨p, _ | r⟩
  · rw [Poller.conclude_eq_none hturn]
    exact ⟨rfl, rfl⟩
  · obtain ⟨-, -, -, rfl⟩ := Poller.conclude_eq_some hturn
    rcases r with _ | _ | _ <;> rcases x.st with _ | st <;> exact ⟨rfl, rfl⟩

theorem Graced.tick {l : List Instant} (hI : Graced cfg s l) (hle : s.last ≤ x.now.mono) :
    ∀ t ∈ l ++ resumed cfg s x, ∃ u, (s.poller.tick cfg x.now).idleGraceUntil = some u ∧
      t.mono + cfg.idle ≤ u.mono := by
  -- the grace at the end of the beginning of a tick
  intro t ht
  unfold resumed at ht
  unfold Poller.tick
  dsimp only
  split_ifs at ht ⊢
  · -- a new grace ends later than the old one, because the clock has not gone back
    refine ⟨_, rfl, ?_⟩
    have htle : t.mono ≤ x.now.mono := by
      rcases List.mem_append.mp ht with ht | ht
      · exact Int.le_trans (hI.past t ht) hle
      · exact Int.le_of_eq (congrArg Instant.mono (List.mem_singleton.mp ht))
    show t.mono + cfg.idle ≤ x.now.mono + cfg.idle
    omega
  · rw [List.append_nil] at ht
    exact hI.graced t ht

theorem Graced.step {l : List Instant} (hI : Graced cfg s l) (h : step cfg s x = some s') :
    Graced cfg s' (l ++ resumed cfg s x) := by
  obtain ⟨hnow, hsince, hstamp, rfl⟩ := step_eq_some h
  refine ⟨fun t ht => ?_, fun t ht => ?_⟩
  · unfold resumed at ht
    rcases List.mem_append.mp ht with ht | ht
    · have := hI.past t ht
      dsimp only
      omega
    · split_ifs at ht
      · rw [List.mem_singleton.mp ht]
        dsimp only
        omega
      · cases ht
  · dsimp only
    rw [(turn_grace cfg s.poller x).1]
    exact hI.tick hnow t ht

theorem Graced.run {l : List Instant} {xs : List Tick} (hI : Graced cfg s l)
    (h : run (Polling.step cfg) s xs = some s') :
    Graced cfg s' (l ++ resumes cfg s.poller.prevTick xs) := by
  induction xs generalizing s l with
  | nil =>
    obtain rfl := Option.some.inj h
    rwa [resumes, List.append_nil]
  | cons x xs ih =>
    obtain ⟨t, ht, hxs⟩ := run_cons h
    have hnext := ih (hI.step ht) hxs
    obtain ⟨-, -, -, rfl⟩ := step_eq_some ht
    rwa [(turn_grace cfg s.poller x).2, List.append_assoc] at hnext

theorem Graced.lt_of_idle {l : List Instant} (hI : Graced cfg s' l)
    (h : Polling.step cfg s x = some s') (hr : (s.poller.turn cfg x).2 = some .idle) :
    0 < cfg.idle ∧ cfg.idle ≤ x.idleFor ∧ ∀ u ∈ l, u.mono + cfg.idle < x.now.mono := by
  rcases hturn : s.poller.turn cfg x with ⟨p, r⟩
  rw [hturn] at hr
  obtain rfl : r = some .idle := hr
  obtain ⟨hreason, -, -, -⟩ := Poller.conclude_eq_some hturn
  obtain ⟨hpos, hafter, hidle⟩ := Poller.reason_eq_idle hreason
  refine ⟨hpos, hidle, fun u hu => ?_⟩
  obtain ⟨g, hg, hug⟩ := hI.graced u hu
  obtain ⟨-, -, -, rfl⟩ := step_eq_some h
  rw [← (turn_grace cfg s.poller x).1, hg, Option.all_some] at hafter
  have hlt : g.mono < x.now.mono := of_decide_eq_true hafter
  omega

end Polling

/-- Over a whole run: the recorded times of two suspends are at least the cooldown apart; and an
idle suspend finds the ingress idle for long enough, at a tick that is later than the idle window
after every tick up to it that came after a gap on the wall clock. -/
theorem paced_and_graced {cfg : Policy} {t : Instant} {xs : List Tick} {s : Polling}
    (hrun : run (Polling.step cfg) (Polling.start t) xs = some s) :
    (trace (Polling.step cfg) (Polling.recorded cfg) (Polling.start t) xs).Pairwise
      (fun u v => u.mono + cfg.cooldown ≤ v.mono) ∧
    ∀ pre x post v, xs = pre ++ x :: post →
      run (Polling.step cfg) (Polling.start t) pre = some v →
      (v.poller.turn cfg x).2 = some .idle →
      0 < cfg.idle ∧ cfg.idle ≤ x.idleFor ∧
        ∀ u ∈ Polling.resumes cfg t (pre ++ [x]), u.mono + cfg.idle < x.now.mono := by
  constructor
  · have hspaced : Polling.Spaced cfg s _ := run_trace_invariant (P := fun _ _ => True)
      (fun s x s' l hI _ h => hI.step h) ⟨.nil, by simp, by simp⟩ (.of_mem _ (by simp)) hrun
    exact hspaced.apart
  · rintro pre x post v rfl hpre hidle
    rw [run_append, hpre, Option.bind_some] at hrun
    obtain ⟨w, hw, -⟩ := run_cons hrun
    have hx : run (Polling.step cfg) (Polling.start t) (pre ++ [x]) = some w := by
      rw [run_append, hpre, Option.bind_some, run, hw]
      rfl
    have hgraced := Polling.Graced.run (l := []) ⟨by simp, by simp⟩ hx
    exact hgraced.lt_of_idle hw hidle

def idleAfterThree : Policy :=
  -- the idle window is three seconds
  newSuspender ⟨0, 0, false, 3000000000, 0, true⟩

def idleTick (wall mono : ℤ) : Tick :=
  ⟨⟨wall, mono⟩, none, 60000000000, ⟨wall, mono⟩, ⟨wall, mono⟩⟩

def suspendedTwice : List Tick :=
  -- an idle suspend, the resume after it, and the next idle suspend after the grace
  [idleTick 500000000 500000000, idleTick 9000000000 1000000000, idleTick 10500000000 2500000000,
    idleTick 12000000000 4000000000, idleTick 12000000001 4000000001]

theorem paced_and_graced_suspendedTwice : ∃ s v,
    run (Polling.step idleAfterThree) (Polling.start ⟨0, 0⟩) suspendedTwice = some s ∧
    trace (Polling.step idleAfterThree) (Polling.recorded idleAfterThree) (Polling.start ⟨0, 0⟩)
      suspendedTwice = [⟨500000000, 500000000⟩, ⟨12000000001, 4000000001⟩] ∧
    ([⟨500000000, 500000000⟩, ⟨12000000001, 4000000001⟩] : List Instant).Pairwise
      (fun u v => u.mono + idleAfterThree.cooldown ≤ v.mono) ∧
    run (Polling.step idleAfterThree) (Polling.start ⟨0, 0⟩) (suspendedTwice.take 4) = some v ∧
    (v.poller.turn idleAfterThree (idleTick 12000000001 4000000001)).2 = some .idle ∧
    Polling.resumes idleAfterThree ⟨0, 0⟩ suspendedTwice = [⟨9000000000, 1000000000⟩] ∧
    1000000000 + idleAfterThree.idle < 4000000001 := by
  have hrun := (rfl : run (Polling.step idleAfterThree) (Polling.start ⟨0, 0⟩) suspendedTwice =
    some _)
  have hpre := (rfl : run (Polling.step idleAfterThree) (Polling.start ⟨0, 0⟩)
    (suspendedTwice.take 4) = some _)
  have htrace : trace (Polling.step idleAfterThree) (Polling.recorded idleAfterThree)
      (Polling.start ⟨0, 0⟩) suspendedTwice =
        [⟨500000000, 500000000⟩, ⟨12000000001, 4000000001⟩] := by decide
  have hresumes : Polling.resumes idleAfterThree ⟨0, 0⟩ suspendedTwice =
      [⟨9000000000, 1000000000⟩] := by decide
  obtain ⟨hpaced, hgraced⟩ := paced_and_graced hrun
  have hidle := hgraced _ (idleTick 12000000001 4000000001) [] _ rfl hpre (by decide)
  refine ⟨_, _, hrun, htrace, htrace ▸ hpaced, hpre, by decide, hresumes, ?_⟩
  exact hidle.2.2 ⟨9000000000, 1000000000⟩ (by decide)

end SubstratePoc.Actor
