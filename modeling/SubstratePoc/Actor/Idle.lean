import SubstratePoc.Actor.System

namespace SubstratePoc.Actor
open Lib Tunnel

/-- What one goroutine of the ingress has before it. -/
inductive Serving : List IAct → Prop
  | done : Serving []
  | early (a : IAct) (h : a.outstanding = false) : Serving [a]
  | entering (req : Request) : Serving [.enterRequest req]
  | working (a : IAct) (h : a.working = true) : Serving [a, .exitRequest]
  | leaving : Serving [.exitRequest]

theorem IDoes.serving {i i' : Ingress} {a : IAct} {rest push : List IAct} {c : IChoice}
    {now : Instant} {eff : List IEffect} (h : IDoes i now a c i' push eff)
    (hI : Serving (a :: rest)) (hn : (a :: rest).count .exitRequest ≤ i.inFlight) :
    Serving (push ++ rest) ∧
      i'.inFlight + (a :: rest).count .exitRequest =
        i.inFlight + (push ++ rest).count .exitRequest := by
  -- a goroutine keeps its shape, and counts its request on and off
  generalize ht : a :: rest = t at hI hn
  cases hI with
  | done => cases ht
  | early a ha =>
    obtain ⟨rfl, rfl⟩ := List.cons.inj ht
    cases h with
    | handleInline req => exact ⟨.early _ rfl, rfl⟩
    | handle req => exact ⟨.early _ rfl, rfl⟩
    | handleFail | inline | inlineFail => exact ⟨.done, rfl⟩
    | accept req => exact ⟨.entering req, rfl⟩
    | _ => cases ha
  | entering req =>
    obtain ⟨rfl, rfl⟩ := List.cons.inj ht
    cases h
    exact ⟨.working _ rfl, rfl⟩
  | working a ha =>
    obtain ⟨rfl, rfl⟩ := List.cons.inj ht
    cases h with
    | process | agentFail | agent | deliver | replyFail => exact ⟨.working _ rfl, rfl⟩
    | processFail | gaveUp | deliverFail | replyOk => exact ⟨.leaving, rfl⟩
    | _ => cases ha
  | leaving =>
    obtain ⟨rfl, rfl⟩ := List.cons.inj ht
    cases h
    refine ⟨.done, ?_⟩
    simp only [Ingress.exitRequest, List.count_singleton_self, List.nil_append, List.count_nil] at hn ⊢
    omega

theorem Serving.exitRequest_mem {t : List IAct} (h : Serving t) {a : IAct} (ha : a ∈ t)
    (ho : a.outstanding = true) : a.uncounted = true ∨ .exitRequest ∈ t := by
  cases h with
  | done => cases ha
  | early b hb =>
    rw [List.mem_singleton.mp ha, hb] at ho
    cases ho
  | entering req =>
    rw [List.mem_singleton.mp ha]
    exact .inl rfl
  | working => exact .inr (by simp)
  | leaving => exact .inr (by simp)

/-- The tick gets as far as its reading of `IdleDuration`. -/
def World.readsIdle (cfg : Policy) (w : World) : Bool :=
  match w.stage with
  | .deciding now st => (st.bind (decideBlocked cfg)).isNone && cfg.ingressIdle &&
      decide (0 < cfg.idle) && w.poller.idleGraceUntil.all now.isAfter
  | _ => false

/-- What a tick reads, and whether a request is outstanding then. -/
def reads (cfg : Policy) (w : World) : Event → List (Bool × ℤ)
  | .decide now _ _ => if w.readsIdle cfg then
      [(w.pending.any IAct.outstanding, w.ingress.idleDuration now)] else []
  | _ => []

/-- No tick reads `IdleDuration` between a 202 and the count of its request, and no 202 is written
between a tick's decision on an idle suspend and its call of `SuspendActor`. -/
def unobtrusive (cfg : Policy) (w : World) : Event → Bool
  | .decide _ _ _ => !w.readsIdle cfg || w.pending.all (!·.uncounted)
  | .ingress i _ _ => match w.next i with
    | some (.accept _) => w.stage ≠ .suspending .idle
    | _ => true
  | _ => true

theorem readsIdle_of_reason {cfg : Policy} {w : World} {now : Instant} {st : Option Status}
    {idleFor : ℤ} (hst : w.stage = .deciding now st)
    (h : w.poller.reason cfg now st idleFor = some .idle) : w.readsIdle cfg = true := by
  unfold Poller.reason at h
  unfold World.readsIdle
  rw [hst]
  dsimp only
  split at h
  · rename_i r hr
    obtain rfl := Option.some.inj h
    obtain ⟨st, -, hst⟩ := Option.bind_eq_some_iff.mp hr
    exact absurd hst (Poller.decideBlocked_ne_idle cfg st)
  · rename_i hnone
    split_ifs at h with hc
    simp [hnone, hc.1, hc.2.1, hc.2.2.1]

structure Tended (w : World) : Prop where
  serving : ∀ t ∈ w.threads, Serving t
  inFlight : w.ingress.inFlight = w.pending.count .exitRequest

theorem Tended.idleDuration_eq_zero {w : World} (h : Tended w) {a : IAct} (ha : a ∈ w.pending)
    (ho : a.outstanding = true) (hu : a.uncounted = false) (now : Instant) :
    w.ingress.idleDuration now = 0 := by
  obtain ⟨t, ht, hat⟩ := List.mem_flatten.mp ha
  have hexit : .exitRequest ∈ t :=
    ((h.serving t ht).exitRequest_mem hat ho).resolve_left (by simp [hu])
  have hpos : 0 < w.ingress.inFlight := by
    rw [h.inFlight]
    exact List.count_pos_iff.mpr (List.mem_flatten.mpr ⟨t, ht, hexit⟩)
  unfold Ingress.idleDuration
  split
  · rfl
  · rw [if_pos hpos]

theorem Tended.step {cfg : Policy} {w w' : World} {e : Event} (hI : Tended w)
    (h : step cfg w e = some w') : Tended w' := by
  obtain ⟨req, rfl, rfl⟩ | ⟨i, c, now, rfl⟩ | ⟨hi, ht⟩ := ingress_step h
  · refine ⟨?_, ?_⟩
    · rw [List.forall_mem_append]
      exact ⟨hI.serving, by simpa using .early _ rfl⟩
    · simpa [World.pending] using hI.inFlight
  · obtain ⟨a, rest, ing, push, eff, L, R, hts, -, hdo, rfl⟩ := step_ingress h
    have hserv := hI.serving
    have hcount := hI.inFlight
    rw [hts, List.forall_mem_append, List.forall_mem_cons] at hserv
    simp only [World.pending, hts, flatten_split, List.count_append] at hcount
    obtain ⟨hS, hn⟩ := hdo.serving hserv.2.1 (by rw [hcount]; omega)
    refine ⟨?_, ?_⟩
    · rw [List.forall_mem_append, List.forall_mem_cons]
      exact ⟨hserv.1, hS, hserv.2.2⟩
    · simp only [World.pending, flatten_split, List.count_append] at hn ⊢
      omega
  · refine ⟨by rw [ht]; exact hI.serving, ?_⟩
    rw [hi, World.pending, ht]
    exact hI.inFlight

theorem tended_start (now : Instant) : Tended (start now) :=
  ⟨(fun _ ht => nomatch ht), rfl⟩

def World.Unoccupied (w : World) : Prop :=
  w.stage = .suspending .idle → ∀ a ∈ w.pending, a.outstanding = false

theorem Tended.unoccupied_step {cfg : Policy} {w w' : World} {e : Event} (hI : Tended w)
    (hU : w.Unoccupied) (hun : unobtrusive cfg w e = true) (h : Actor.step cfg w e = some w') :
    w'.Unoccupied := by
  intro hidle a ha
  obtain ⟨req, rfl, rfl⟩ | ⟨i, c, now, rfl⟩ | ⟨hi, ht⟩ := ingress_step h
  · rw [World.pending, List.flatten_append, List.mem_append] at ha
    rcases ha with ha | ha
    · exact hU hidle a ha
    · simp only [List.flatten_singleton, List.mem_singleton] at ha
      rw [ha]
      rfl
  · obtain ⟨b, rest, ing, push, eff, L, R, hts, hn, hdo, rfl⟩ := step_ingress h
    have hfree := hU hidle
    rw [World.pending, hts] at hfree
    rcases mem_flatten_replace (a := b) ha with hnew | hold
    · -- a goroutine whose request has not been acknowledged, and is not acknowledged now
      have hb := hfree b (by simp)
      cases hdo with
      | handleInline | handle => rw [List.mem_singleton.mp hnew]; rfl
      | handleFail | inline | inlineFail => cases hnew
      | accept req =>
        have hne : w.stage ≠ .suspending .idle := by simpa [unobtrusive, hn] using hun
        exact absurd hidle hne
      | _ => cases hb
    · exact hfree a hold
  · rw [World.pending, ht] at ha
    obtain hst | ⟨now, since, stamp, rfl⟩ := stage_step h hidle
    · exact hU hst a ha
    · obtain ⟨t, st, d, hstage, -, hcon, hw'⟩ := step_decide h
      obtain ⟨p, r⟩ := d
      have hr : r = some .idle := by
        rw [hw'] at hidle
        cases r with
        | none => cases hidle
        | some r => rw [Stage.suspending.inj hidle]
      subst hr
      obtain ⟨hreason, -⟩ := Poller.conclude_eq_some hcon
      have hall : w.pending.all (!·.uncounted) = true := by
        simpa [unobtrusive, readsIdle_of_reason hstage hreason] using hun
      obtain ⟨hpos, -, hle⟩ := Poller.reason_eq_idle hreason
      by_contra ho
      have hzero := hI.idleDuration_eq_zero ha (by simpa using ho)
        (forall_false_of_all hall a ha) now
      omega

theorem Tended.reads_eq_zero {cfg : Policy} {w : World} {e : Event} (hI : Tended w)
    (hun : unobtrusive cfg w e = true) : ∀ r ∈ reads cfg w e, r.1 = true → r.2 = 0 := by
  cases e with
  | decide now since stamp =>
    unfold reads
    split_ifs with hreads
    · intro r hr ho
      obtain rfl := List.mem_singleton.mp hr
      obtain ⟨a, ha, hout⟩ := List.any_eq_true.mp ho
      have hall : w.pending.all (!·.uncounted) = true := by
        simpa [unobtrusive, hreads] using hun
      exact hI.idleDuration_eq_zero ha hout (forall_false_of_all hall a ha) now
    · intro r hr
      cases hr
  | _ =>
    intro r hr
    cases hr

/-- An idle suspend freezes no acknowledged request, and whenever a tick reads `IdleDuration` with a
request outstanding it reads 0: in a run in which no tick reads it between a 202 and the count of
its request, and no 202 is written between a tick's decision and its call of `SuspendActor`. -/
theorem not_outstanding_of_unobtrusive {cfg : Policy} {t : Instant} {es : List Event} {w : World}
    (hes : Along (step cfg) (fun w e => unobtrusive cfg w e = true) (start t) es)
    (hrun : run (step cfg) (start t) es = some w) :
    (w.stage = .suspending .idle → ∀ a ∈ w.pending, a.outstanding = false) ∧
      ∀ r ∈ trace (step cfg) (reads cfg) (start t) es, r.1 = true → r.2 = 0 := by
  have hinv : (Tended w ∧ w.Unoccupied) ∧
      ∀ r ∈ trace (step cfg) (reads cfg) (start t) es, r.1 = true → r.2 = 0 := by
    apply run_trace_invariant (I := fun w (l : List (Bool × ℤ)) =>
      (Tended w ∧ w.Unoccupied) ∧ ∀ r ∈ l, r.1 = true → r.2 = 0) _ ⟨⟨tended_start t, _⟩, _⟩ hes hrun
    · intro w e w' l hI hun h
      refine ⟨⟨hI.1.1.step h, hI.1.1.unoccupied_step hI.1.2 hun h⟩, ?_⟩
      rw [List.forall_mem_append]
      exact ⟨hI.2, hI.1.1.reads_eq_zero hun⟩
    · intro hidle
      cases hidle
    · intro r hr
      cases hr
  exact ⟨hinv.1.2, hinv.2⟩

def oneSecond : Policy :=
  -- idle suspends after one second, and the defaults
  newSuspender ⟨0, 0, true, second, 0, true⟩

def acknowledge (n : ℕ) : List Event :=
  .request ⟨[1], [2], [], [], [], []⟩ :: List.replicate n (.ingress 0 .ok (clock 100))

def tickThrough : List Event :=
  -- a tick 1.5 seconds after the start, up to its decision
  [.tick (clock 1500), .fetch none, .decide (clock 1500) (clock 1500) (clock 1500)]

def tickTwice : List Event := acknowledge 4 ++
  -- one tick while the request is served, one after it
  [.tick (clock 150), .fetch none, .decide (clock 150) (clock 150) (clock 150),
    .ingress 0 (.response 200 [] [7] 1) (clock 200), .ingress 0 .ok (clock 200),
    .ingress 0 .ok (clock 300), .ingress 0 .ok (clock 300)] ++ tickThrough

theorem not_outstanding_tickTwice : ∃ w, run (step oneSecond) (start (clock 0)) tickTwice = some w ∧
    w.stage = .suspending .idle ∧ (∀ a ∈ w.pending, a.outstanding = false) ∧
    trace (step oneSecond) (reads oneSecond) (start (clock 0)) tickTwice =
      [(true, 0), (false, 1200000000)] ∧
    ∀ r ∈ trace (step oneSecond) (reads oneSecond) (start (clock 0)) tickTwice,
      r.1 = true → r.2 = 0 := by
  have hrun : run (step oneSecond) (start (clock 0)) tickTwice =
      some ((run (step oneSecond) (start (clock 0)) tickTwice).get (by decide)) := by simp
  have hes : Along (step oneSecond) (fun w e => unobtrusive oneSecond w e = true) (start (clock 0))
      tickTwice := by decide
  obtain ⟨hfree, hreads⟩ := not_outstanding_of_unobtrusive hes hrun
  exact ⟨_, hrun, by decide, hfree (by decide), by decide, hreads⟩

/-- Between the 202 and the count, and between the decision and the call. -/
theorem outstanding_in_windows :
    (∃ w, run (step oneSecond) (start (clock 0)) (acknowledge 2 ++ tickThrough) = some w ∧
      w.stage = .suspending .idle ∧ (∃ a ∈ w.pending, a.outstanding = true) ∧
      w.ingress.idleDuration (clock 1500) ≠ 0) ∧
    ∃ w, run (step oneSecond) (start (clock 0)) (tickThrough ++ acknowledge 3) = some w ∧
      w.stage = .suspending .idle ∧ ∃ a ∈ w.pending, a.outstanding = true := by
  refine ⟨⟨_, rfl, ?_, ?_, ?_⟩, ⟨_, rfl, ?_, ?_⟩⟩ <;> decide

end SubstratePoc.Actor
