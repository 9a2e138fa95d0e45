import SubstratePoc.Actor.System

namespace SubstratePoc.Actor
open Lib Tunnel

/-- The kinds of calls that the poller suspends for. -/
def Policy.watches (cfg : Policy) : Kind → Bool
  | .tool => true
  | .model => cfg.includeModel

/-- The poller has no reason left to suspend for calls of this kind. -/
def Settled (calls started gen : ℕ) : Prop := calls = 0 ∨ started ≤ gen

instance (calls started gen : ℕ) : Decidable (Settled calls started gen) :=
  inferInstanceAs (Decidable (_ ∨ _))

theorem Settled.mono {calls calls' started started' gen : ℕ} (h : Settled calls started gen)
    (hc : calls' ≤ calls) (hs : started' ≤ started) : Settled calls' started' gen := by
  rcases h with h | h
  · exact .inl (by omega)
  · exact .inr (hs.trans h)

/-- A tick has a report that it may suspend for, or is about to suspend for a blocked call. -/
def World.blocking (cfg : Policy) (w : World) : Bool :=
  match w.stage with
  | .deciding _ (some st) => (decideBlocked cfg st).any fun r => !w.poller.gated (some st) r
  | .suspending r => r.kind.isSome
  | _ => false

/-- A watched call does not start while a call is in flight that has been block-suspended, nor
between the report of a tick and the block-suspend that it leads to; and a tick that decides to
suspend for calls of one kind finds none of the other kind that it could be suspended for. -/
def apart (cfg : Policy) (w : World) : Event → Bool
  | .before k _ => !cfg.watches k || (!w.blocking cfg && w.calls.all (!·.suspended))
  | .decide now since stamp =>
    match w.stage, ((w.decision cfg now since stamp).bind Prod.snd).bind Reason.kind with
    | .deciding _ (some st), some k => [Kind.tool, Kind.model].all fun k' =>
      k' = k || !cfg.watches k' || Settled (st.inFlight k') (st.started k') (w.poller.gen k')
    | _, _ => true
  | _ => true

theorem settled_of_apart {cfg : Policy} {w : World} {now since stamp t : Instant} {st : Status}
    {p : Poller} {r : Reason} {k k' : Kind} (ha : apart cfg w (.decide now since stamp) = true)
    (hst : w.stage = .deciding t (some st))
    (hdec : w.decision cfg now since stamp = some (p, some r)) (hk : r.kind = some k) (hne : k' ≠ k)
    (hk' : cfg.watches k' = true) :
    Settled (st.inFlight k') (st.started k') (w.poller.gen k') := by
  -- the condition on a tick, for the kind that it does not suspend for
  simp only [apart, hst, hdec, Option.bind_some, hk, List.all_cons, List.all_nil, Bool.and_true,
    Bool.and_eq_true, Bool.or_eq_true, decide_eq_true_eq, Bool.not_eq_true'] at ha
  have hthis : (k' = k ∨ cfg.watches k' = false) ∨
      Settled (st.inFlight k') (st.started k') (w.poller.gen k') := by
    cases k' with
    | tool => exact ha.1
    | model => exact ha.2
  rcases hthis with (h | h) | h
  · exact absurd h hne
  · rw [hk'] at h
    cases h
  · exact h

theorem decideBlocked_eq_some {cfg : Policy} {st : Status} {r : Reason}
    (h : decideBlocked cfg st = some r) :
    ∃ k, r.kind = some k ∧ cfg.watches k = true ∧ 0 < st.inFlight k := by
  unfold decideBlocked at h
  split_ifs at h with ht hm
  · obtain rfl := Option.some.inj h
    exact ⟨.tool, rfl, rfl, ht.1⟩
  · obtain rfl := Option.some.inj h
    exact ⟨.model, rfl, hm.1, hm.2.1⟩

theorem Poller.reason_eq_blocked {cfg : Policy} {s : Poller} {now : Instant} {st : Option Status}
    {idleFor : ℤ} {r : Reason} {k : Kind} (h : s.reason cfg now st idleFor = some r)
    (hk : r.kind = some k) : ∃ st', st = some st' ∧ decideBlocked cfg st' = some r := by
  unfold reason at h
  split at h
  · rename_i r' hr
    obtain rfl := Option.some.inj h
    exact Option.bind_eq_some_iff.mp hr
  · split_ifs at h
    obtain rfl := Option.some.inj h
    cases hk

theorem Poller.gen_record (s : Poller) {st : Status} {r : Reason} {k : Kind} (stamp : Instant)
    (hk : r.kind = some k) (k' : Kind) :
    (s.record (some st) r stamp).gen k' = if k' = k then st.started k else s.gen k' := by
  unfold record
  rw [hk]
  cases k <;> cases k' <;> rfl

theorem Poller.gen_record_idle (s : Poller) (st : Option Status) (stamp : Instant) (k : Kind) :
    (s.record st .idle stamp).gen k = s.gen k := by
  cases k <;> rfl

def World.Settled (cfg : Policy) (w : World) : Prop :=
  ∀ k, cfg.watches k = true →
    Actor.Settled (w.tracker.gauge k).calls (w.tracker.gauge k).total (w.poller.gen k)

def World.Unsuspended (w : World) : Prop := ∀ c ∈ w.calls, c.suspended = false

/-- The report is still right about what has been started. -/
def World.Current (cfg : Policy) (w : World) (st : Status) : Prop :=
  ∀ k, cfg.watches k = true →
    (w.tracker.gauge k).total = st.started k ∧ (w.tracker.gauge k).calls ≤ st.inFlight k

structure Paced (cfg : Policy) (w : World) : Prop where
  settled : ¬w.Unsuspended → w.Settled cfg
  deciding : ∀ t st r, w.stage = .deciding t (some st) → decideBlocked cfg st = some r →
    w.poller.gated (some st) r = false → w.Unsuspended ∧ w.Current cfg st
  suspending : ∀ r k, w.stage = .suspending r → r.kind = some k → w.Unsuspended ∧ w.Settled cfg

section Step
variable {cfg : Policy} {w w' : World}

theorem Paced.congr (hI : Paced cfg w) (hg : w'.tracker.gauge = w.tracker.gauge)
    (hc : w'.calls = w.calls) (hp : w'.poller = w.poller) (hs : w'.stage = w.stage) :
    Paced cfg w' := by
  have hU : w'.Unsuspended ↔ w.Unsuspended := by rw [World.Unsuspended, hc]; rfl
  have hS : w'.Settled cfg ↔ w.Settled cfg := by rw [World.Settled, hg, hp]; rfl
  have hC : ∀ st, w'.Current cfg st ↔ w.Current cfg st := by
    intro st
    rw [World.Current, hg]
    rfl
  refine ⟨?_, ?_, ?_⟩
  · rw [hU, hS]
    exact hI.settled
  · intro t st r
    rw [hs, hp, hU, hC]
    exact hI.deciding t st r
  · intro r k
    rw [hs, hU, hS]
    exact hI.suspending r k

theorem Paced.before (hI : Paced cfg w) {k : Kind} {now : Instant}
    (ha : apart cfg w (.before k now) = true) : Paced cfg { w with
      tracker := w.tracker.before k now
      calls := w.calls ++ [⟨w.started, k, false⟩]
      started := w.started + 1 } := by
  -- a call starts: if it is watched, nothing refers to the old counts
  have hgauge : ∀ k', k' ≠ k → (w.tracker.before k now).gauge k' = w.tracker.gauge k' := by
    intro k' hk'
    rw [Tracker.gauge_before, if_neg hk']
  have hU : w.Unsuspended → ∀ c ∈ w.calls ++ [⟨w.started, k, false⟩], c.suspended = false := by
    intro h
    rw [List.forall_mem_append]
    exact ⟨h, by simp⟩
  by_cases hk : cfg.watches k = true
  · have hquiet : w.blocking cfg = false ∧ w.calls.all (!·.suspended) = true := by
      simpa [apart, hk] using ha
    have hfree : w.Unsuspended := forall_false_of_all hquiet.2
    refine ⟨fun h => absurd (hU hfree) h, ?_, ?_⟩
    · intro t st r hst hr hg
      have hb := hquiet.1
      change w.stage = _ at hst
      change w.poller.gated _ _ = _ at hg
      simp [World.blocking, hst, hr, hg] at hb
    · intro r k' hst hk'
      have hb := hquiet.1
      change w.stage = _ at hst
      simp [World.blocking, hst, hk'] at hb
  · -- the counts of the watched kinds stay
    have hne : ∀ k', cfg.watches k' = true → k' ≠ k := fun k' h h' => hk (h' ▸ h)
    refine ⟨?_, ?_, ?_⟩
    · intro h k' hk'
      have hset := hI.settled (fun h' => h (hU h')) k' hk'
      simpa only [hgauge k' (hne k' hk')] using hset
    · intro t st r hst hr hg
      obtain ⟨hfree, hcur⟩ := hI.deciding t st r hst hr hg
      refine ⟨hU hfree, fun k' hk' => ?_⟩
      simpa only [hgauge k' (hne k' hk')] using hcur k' hk'
    · intro r k' hst hk'
      obtain ⟨hfree, hset⟩ := hI.suspending r k' hst hk'
      refine ⟨hU hfree, fun k'' hk'' => ?_⟩
      simpa only [hgauge k'' (hne k'' hk'')] using hset k'' hk''

theorem calls_after (t : Tracker) (k k' : Kind) (now : Instant) :
    ((t.after k now).gauge k').calls ≤ (t.gauge k').calls ∧
      ((t.after k now).gauge k').total = (t.gauge k').total := by
  rw [Tracker.gauge_after]
  split_ifs
  · exact ⟨Nat.sub_le .., rfl⟩
  · exact ⟨le_rfl, rfl⟩

theorem Paced.after (hI : Paced cfg w) {c : Call} {now : Instant} : Paced cfg { w with
      tracker := w.tracker.after c.kind now
      calls := w.calls.erase c } := by
  have hU : w.Unsuspended → ∀ c' ∈ w.calls.erase c, c'.suspended = false :=
    fun h c' hc' => h c' (List.mem_of_mem_erase hc')
  have hS : w.Settled cfg → ∀ k, cfg.watches k = true →
      Settled ((w.tracker.after c.kind now).gauge k).calls
        ((w.tracker.after c.kind now).gauge k).total (w.poller.gen k) := by
    intro h k hk
    obtain ⟨hle, htot⟩ := calls_after w.tracker c.kind k now
    exact (h k hk).mono hle htot.le
  refine ⟨?_, ?_, ?_⟩
  · intro h
    exact hS (hI.settled fun h' => h (hU h'))
  · intro t st r hst hr hg
    obtain ⟨hfree, hcur⟩ := hI.deciding t st r hst hr hg
    refine ⟨hU hfree, fun k hk => ?_⟩
    obtain ⟨hle, htot⟩ := calls_after w.tracker c.kind k now
    exact ⟨htot.trans (hcur k hk).1, hle.trans (hcur k hk).2⟩
  · intro r k hst hk
    obtain ⟨hfree, hset⟩ := hI.suspending r k hst hk
    exact ⟨hU hfree, hS hset⟩

theorem Paced.tick (hI : Paced cfg w) (now : Instant) :
    Paced cfg { w with poller := w.poller.tick cfg now, stage := .fetching now } := by
  have hgen : ∀ k, (w.poller.tick cfg now).gen k = w.poller.gen k := by
    intro k
    cases k <;> rfl
  refine ⟨fun h k hk => ?_, (fun _ _ _ h => nomatch h), (fun _ _ h => nomatch h)⟩
  rw [hgen]
  exact hI.settled h k hk

theorem Paced.fetch (hI : Paced cfg w) (t : Instant) (now : Option Instant) :
    Paced cfg { w with stage := .deciding t (now.map w.tracker.snapshot) } := by
  refine ⟨hI.settled, ?_, (fun _ _ h => nomatch h)⟩
  intro t' st r hst hr hg
  obtain ⟨-, hst⟩ := Stage.deciding.inj hst
  obtain ⟨now, -, rfl⟩ := Option.map_eq_some_iff.mp hst
  obtain ⟨k, hrk, hk, hpos⟩ := decideBlocked_eq_some hr
  refine ⟨?_, fun k' _ => ⟨by rw [Tracker.started_snapshot], by rw [Tracker.inFlight_snapshot]⟩⟩
  by_contra hsus
  rw [Tracker.inFlight_snapshot] at hpos
  simp only [Poller.gated, hrk, Tracker.started_snapshot, decide_eq_false_iff_not] at hg
  rcases hI.settled hsus k hk with h0 | hle
  · omega
  · exact hg hle

theorem Paced.decide (hI : Paced cfg w) {now since stamp : Instant}
    (ha : apart cfg w (.decide now since stamp) = true)
    (h : step cfg w (.decide now since stamp) = some w') : Paced cfg w' := by
  obtain ⟨t, st, d, hst, hdec, hcon, rfl⟩ := step_decide h
  obtain ⟨p, r⟩ := d
  cases r with
  | none =>
    obtain rfl := Poller.conclude_eq_none hcon
    exact ⟨hI.settled, (fun _ _ _ h => nomatch h), (fun _ _ h => nomatch h)⟩
  | some r =>
    obtain ⟨hreason, hg, -, rfl⟩ := Poller.conclude_eq_some hcon
    rcases hk : r.kind with _ | k
    · obtain rfl : r = .idle := by
        cases r <;> first | rfl | cases hk
      refine ⟨fun hU k hk => ?_, (fun _ _ _ h => nomatch h), fun r k hr hk => ?_⟩
      · rw [Poller.gen_record_idle]
        exact hI.settled hU k hk
      · obtain rfl := Stage.suspending.inj hr
        cases hk
    · obtain ⟨st, rfl, hblocked⟩ := Poller.reason_eq_blocked hreason hk
      obtain ⟨hfree, hcur⟩ := hI.deciding t st r hst hblocked hg
      refine ⟨fun hU => absurd hfree hU, (fun _ _ _ h => nomatch h), fun _ _ _ _ => ⟨hfree, ?_⟩⟩
      -- the kind of the suspend is settled by the record, the other one by the condition
      intro k' hk'
      rw [Poller.gen_record _ stamp hk]
      obtain ⟨htot, hle⟩ := hcur k' hk'
      split_ifs with hkk
      · subst hkk
        exact .inr htot.le
      · exact (settled_of_apart ha hst hdec hk hkk hk').mono hle htot.le

theorem Paced.suspend (hI : Paced cfg w) {r : Reason} (hst : w.stage = .suspending r) :
    Paced cfg (w.suspended r) := by
  refine ⟨fun hU => ?_, (fun _ _ _ h => nomatch h), (fun _ _ h => nomatch h)⟩
  rcases hk : r.kind with _ | k
  · apply hI.settled
    simpa [World.suspended, World.Unsuspended, hk] using hU
  · exact (hI.suspending r k hst hk).2

theorem Paced.step {e : Event} (hI : Paced cfg w) (ha : apart cfg w e = true)
    (h : step cfg w e = some w') : Paced cfg w' := by
  cases e with
  | before k now =>
    obtain rfl := Option.some.inj h
    exact hI.before ha
  | after id now =>
    obtain ⟨c, -, rfl⟩ := Option.map_eq_some_iff.mp h
    exact hI.after
  | decide now since stamp => exact hI.decide ha h
  | ingress i c now =>
    obtain ⟨_, _, _, _, _, _, _, -, -, -, rfl⟩ := step_ingress h
    exact hI.congr rfl rfl rfl rfl
  | beforeRun | afterRun =>
    obtain rfl := Option.some.inj h
    refine hI.congr ?_ rfl rfl rfl
    funext k
    cases k <;> rfl
  | request =>
    obtain rfl := Option.some.inj h
    exact hI.congr rfl rfl rfl rfl
  | tick now =>
    simp only [Actor.step] at h
    split at h
    · obtain rfl := Option.some.inj h
      exact hI.tick now
    · cases h
  | fetch now =>
    simp only [Actor.step] at h
    split at h
    · obtain rfl := Option.some.inj h
      exact hI.fetch _ now
    · cases h
  | suspend =>
    simp only [Actor.step] at h
    split at h
    · obtain rfl := Option.some.inj h
      exact hI.suspend (by assumption)
    · cases h

end Step

theorem paced_start (cfg : Policy) (now : Instant) : Paced cfg (start now) :=
  ⟨fun h => absurd (fun _ hc => nomatch hc) h, (fun _ _ _ h => nomatch h), (fun _ _ h => nomatch h)⟩

/-- No call is in flight at two block-suspends: whenever `SuspendActor` is called for a blocked
call, the calls in flight have not been block-suspended before. -/
theorem not_suspended_of_apart {cfg : Policy} {t : Instant} {es : List Event} {w : World} {r : Reason}
    (hes : Along (step cfg) (fun w e => apart cfg w e = true) (start t) es)
    (hrun : run (step cfg) (start t) es = some w) (hst : w.stage = .suspending r)
    (hr : r ≠ .idle) : ∀ c ∈ w.calls, c.suspended = false := by
  have hI : Paced cfg w :=
    run_invariant (fun _ _ _ hI ha h => hI.step ha h) (paced_start cfg t) hes hrun
  cases r with
  | toolBlocked => exact (hI.suspending _ .tool hst rfl).1
  | modelBlocked => exact (hI.suspending _ .model hst rfl).1
  | idle => exact absurd rfl hr

def defaults : Policy :=
  -- the defaults, with model calls
  newSuspender ⟨0, 0, true, 0, 0, false⟩

def tickAt (ms : ℤ) : List Event :=
  [.tick (clock ms), .fetch (some (clock ms)), .decide (clock ms) (clock ms) (clock ms)]

def overlapping : List Event := List.flatten
  -- two tool calls that overlap are suspended and return, and so are the next two
  [[.before .tool (clock 0), .before .tool (clock 200)], tickAt 1500,
    [.suspend, .after 1 (clock 1900), .after 0 (clock 1950), .before .tool (clock 2000),
      .before .tool (clock 2100)], tickAt 4000]

theorem not_suspended_overlapping :
    ∃ w, run (step defaults) (start (clock 0)) overlapping = some w ∧
      w.stage = .suspending .toolBlocked ∧ w.calls.length = 2 ∧
      ∀ c ∈ w.calls, c.suspended = false := by
  have hrun := (rfl : run (step defaults) (start (clock 0)) overlapping = some _)
  have hes : Along (step defaults) (fun w e => apart defaults w e = true) (start (clock 0))
      overlapping := by decide
  have hst := (rfl : ((run (step defaults) (start (clock 0)) overlapping).get rfl).stage =
    .suspending .toolBlocked)
  exact ⟨_, hrun, hst, rfl, not_suspended_of_apart hes hrun hst (by decide)⟩

def startedBeside : List Event := List.flatten
  -- a second tool call starts while the first, which has been suspended, is still in flight
  [[.before .tool (clock 0)], tickAt 1500, [.suspend, .before .tool (clock 2000)], tickAt 4000]

def twoKinds : List Event := List.flatten
  -- the suspend for a model call does not count for the tool call beside it
  [[.before .model (clock 0), .before .tool (clock 800)], tickAt 1500, [.suspend], tickAt 4000]

theorem suspended_startedBeside :
    (∃ w, run (step defaults) (start (clock 0)) startedBeside = some w ∧
      w.stage = .suspending .toolBlocked ∧ ∃ c ∈ w.calls, c.suspended = true) ∧
    ∃ w, run (step defaults) (start (clock 0)) twoKinds = some w ∧
      w.stage = .suspending .toolBlocked ∧ ∀ c ∈ w.calls, c.suspended = true := by
  refine ⟨⟨_, rfl, ?_, ?_⟩, ⟨_, rfl, ?_, ?_⟩⟩ <;> decide

end SubstratePoc.Actor
