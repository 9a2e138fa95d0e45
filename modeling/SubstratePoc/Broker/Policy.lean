import SubstratePoc.Broker.Wake

namespace SubstratePoc.Broker
open Lib Tunnel

/-! ## Quiet connections -/

/-- The step decides, under `s.mu`, to wake the actor. -/
def wakes (w : World) : Event → Bool
  | .run i c => match w.next i with
    | some a => a ≠ .wake && match exec w.s a c with
      | some r => r.push.contains .wake || r.eff.contains .wake
      | none => false
    | none => false
  | _ => false

/-- The step handles an ACK that leaves nothing in `downBuf`. -/
def drains (w : World) : Event → Bool
  | .run i _ => match w.next i with
    | some (.onDownstreamAck offset) => (w.s.downBuf.trimTo offset).buf = []
    | _ => false
  | _ => false

/-- The number of bytes that the step adds to `upstreamWritten`: `onData` or the dial's flush
records its write. -/
def recorded (w : World) : Event → Option ℕ
  | .run i _ => match w.next i with
    | some (.onDataWritten n) | some (.flushed n) => some n
    | _ => none
  | _ => none

/-- Every wake is decided for a request outstanding, and for a session that is detached. -/
theorem Does.of_wake {s : Session} {a : Act} {c : Choice} {r : Result} (h : Does s a c r)
    (ha : a ≠ .wake) (hw : .wake ∈ r.push ∨ .wake ∈ r.eff) :
    s.requestOutstanding = true ∧ r.s.tconn = none := by
  cases h with
  | detachWake _ _ _ hu => exact ⟨hu.1, rfl⟩
  | produceDone after => cases after <;> simp [After.acts] at hw
  | watchdogWake _ hs => simp_all [Session.watchdogWakes]
  | _ => simp_all

theorem wakes_eq_true {w : World} {e : Event} (hw : wakes w e = true) :
    w.s.requestOutstanding = true ∧ ∀ w', step w e = some w' → w'.s.tconn = none := by
  cases e with
  | run i c =>
    simp only [wakes] at hw
    split at hw
    · rename_i a hn
      rw [Bool.and_eq_true, decide_eq_true_eq] at hw
      obtain ⟨ha, hw⟩ := hw
      split at hw
      · rename_i r hr
        simp only [Bool.or_eq_true, List.contains_iff_mem] at hw
        obtain ⟨hreq, ht⟩ := (exec_does hr).of_wake ha hw
        refine ⟨hreq, fun w' h => ?_⟩
        obtain ⟨t, htop, hhead⟩ := Option.bind_eq_some_iff.mp hn
        obtain ⟨rest, rfl⟩ := List.head?_eq_some_iff.mp hhead
        simp only [step, htop, hr, Option.map_some, Option.some.injEq] at h
        exact h ▸ ht
      · cases hw
    · cases hw
  | _ => cases hw

theorem requestOutstanding_step {w w' : World} {e : Event} (hq : w.s.requestOutstanding = false)
    (hrec : recorded w e = none) (h : step w e = some w') : w'.s.requestOutstanding = false := by
  obtain ⟨hd, rfl, rfl⟩ | ⟨rfl, rfl⟩ | ⟨c, a, rest, r, L, R, rfl, hts, hr, rfl⟩ := step_cases h
  · exact hq
  · exact hq
  · have hn : w.next L.length = some a := by simp [World.next, hts]
    simp only [recorded, hn] at hrec
    show r.s.requestOutstanding = false
    cases hr <;> simp_all

theorem requestOutstanding_drains {w w' : World} {e : Event} (hd : drains w e = true)
    (h : step w e = some w') : w'.s.requestOutstanding = false := by
  obtain ⟨hd, rfl, rfl⟩ | ⟨rfl, rfl⟩ | ⟨c, a, rest, r, L, R, rfl, hts, hr, rfl⟩ := step_cases h
  · cases hd
  · cases hd
  · have hn : w.next L.length = some a := by simp [World.next, hts]
    simp only [drains, hn] at hd
    show r.s.requestOutstanding = false
    cases hr <;> simp_all

/-- A call that is about to record a write has written something. -/
def Act.Nonempty : Act → Prop
  | .onData _ p | .upWrite p | .flush p => p ≠ []
  | .onDataWritten n | .flushed n => n ≠ 0
  | _ => True

theorem Does.nonempty {s : Session} {a : Act} {c : Choice} {r : Result} (h : Does s a c r)
    (ha : a.Nonempty) : ∀ b ∈ r.push, b.Nonempty := by
  cases h with
  | produceDone after => cases after <;> simp [After.acts, Act.Nonempty]
  | onDataAdmitted offset p _ _ _ ho hl =>
    have hp : p ≠ [] := ha
    have hlen := List.length_pos_iff.mpr hp
    rw [List.forall_mem_singleton]
    show p.drop _ ≠ []
    rw [← List.length_pos_iff, List.length_drop]
    omega
  | attach => simp [Act.Nonempty]
  | _ => simp_all [Act.Nonempty]

theorem nonempty_step {w w' : World} {e : Event} (hI : ∀ a ∈ w.pending, a.Nonempty)
    (he : ∀ offset p, e = .call (.data offset p) → p ≠ []) (h : step w e = some w') :
    ∀ a ∈ w'.pending, a.Nonempty := by
  obtain ⟨hd, rfl, -, hpend⟩ | ⟨rfl, -, hpend⟩ |
    ⟨i, c, a, r, X, Y, rfl, hn, hr, hpend, hpend', -⟩ := step_pending h
  · rw [hpend, List.forall_mem_append]
    refine ⟨hI, ?_⟩
    cases hd with
    | data offset p => simpa [Handler.acts, Act.Nonempty] using he offset p rfl
    | _ => simp [Handler.acts, Act.Nonempty]
  · rw [hpend, List.forall_mem_append]
    exact ⟨hI, by simp [Act.Nonempty]⟩
  · rw [hpend] at hI
    intro b hb
    rw [hpend'] at hb
    obtain hb | hb := mem_of_replace (a := a) hb
    · exact hr.nonempty (hI a (by simp)) b hb
    · exact hI b hb

/-- Once an ACK has emptied `downBuf`, no step decides to wake the actor until `onData` or the
dial's flush records a write, and no step ever decides so for an attached session.  A record is of
new bytes, since the DATA frames of a sidecar are not empty. -/
theorem not_wakes_of_drained :
    (∀ (w₀ w₁ w₂ : World) (e e' : Event) (es : List Event), drains w₀ e = true →
      step w₀ e = some w₁ → Along step (fun w e => recorded w e = none) w₁ es →
      run step w₁ es = some w₂ → wakes w₂ e' = false) ∧
    (∀ (w w' : World) (e : Event), step w e = some w' → wakes w e = true → w'.s.tconn = none) ∧
    ∀ (sessionBufferBytes : ℕ) (actorID : Bytes) (sessionID : UInt64) (target : Bytes)
      (es : List Event) (w : World) (e : Event) (n : ℕ),
      (∀ offset p, .call (.data offset p) ∈ es → p ≠ []) →
      run step (World.create sessionBufferBytes actorID sessionID target) es = some w →
      recorded w e = some n → 0 < n := by
  refine ⟨?_, fun w w' e h hw => (wakes_eq_true hw).2 w' h, ?_⟩
  · intro w₀ w₁ w₂ e e' es hdrain hstep hwindow hrun
    have hq : w₂.s.requestOutstanding = false := by
      apply run_invariant (fun w e w' hq hrec h => requestOutstanding_step hq hrec h) _ hwindow hrun
      exact requestOutstanding_drains hdrain hstep
    by_contra hw
    have hreq := (wakes_eq_true (by simpa using hw)).1
    rw [hq] at hreq
    cases hreq
  · intro sessionBufferBytes actorID sessionID target es w e n hdata hrun hrec
    have hI : ∀ a ∈ w.pending, a.Nonempty := by
      apply run_invariant_mem (C := fun e => ∀ offset p, e = .call (.data offset p) → p ≠ [])
        (fun w e w' he hI h => nonempty_step hI he h) _ _ hrun
      · intro e he offset p hep
        exact hdata offset p (hep ▸ he)
      · simp [World.create, World.pending]
    cases e with
    | run i c =>
      have hmem : ∀ a, w.next i = some a → a ∈ w.pending := by
        intro a ha
        obtain ⟨t, ht, hhead⟩ := Option.bind_eq_some_iff.mp ha
        exact List.mem_flatten.mpr ⟨t, List.mem_of_getElem? ht, List.mem_of_mem_head? hhead⟩
      simp only [recorded] at hrec
      split at hrec
      · rename_i m hn
        obtain rfl := Option.some.inj hrec
        exact Nat.pos_of_ne_zero (hI _ (hmem _ hn))
      · rename_i m hn
        obtain rfl := Option.some.inj hrec
        exact Nat.pos_of_ne_zero (hI _ (hmem _ hn))
      · cases hrec
    | _ => cases hrec

def answered : World := (run step (World.create 16 [] 1 [])
  -- the request has been answered, and the ACK of the answer is about to be handled
  [.call (.bind 0), .run 0 .ok, .run 0 .ok, .call .dial, .run 1 .ok, .run 1 .ok,
    .call (.data 0 [1]), .run 2 .ok, .run 2 .ok, .run 2 .ok, .run 2 .ok, .run 2 .ok,
    .run 1 (.read [9] none), .run 1 .ok, .run 1 .ok, .call (.ack 1)]).get rfl

def acknowledged : World := (step answered (.run 3 .ok)).get rfl

/-- The destination sends something after the session has been detached. -/
theorem not_wakes_acknowledged : drains answered (.run 3 .ok) = true ∧
    step answered (.run 3 .ok) = some acknowledged ∧ ∃ w,
    run step acknowledged [.call (.detach 0), .run 4 .ok, .run 1 (.read [8] none)] = some w ∧
    wakes w (.run 1 .ok) = false := by
  have hrun := (rfl : run step acknowledged
    [.call (.detach 0), .run 4 .ok, .run 1 (.read [8] none)] = some _)
  refine ⟨rfl, rfl, _, hrun, ?_⟩
  exact not_wakes_of_drained.1 answered acknowledged _ (.run 3 .ok) _ _ rfl rfl (by decide) hrun

/-! ## The watchdog -/

/-- A timer is armed, its callback has not run yet, or a wake is about to be called. -/
def World.watched (w : World) : Bool :=
  w.s.watchdog || w.pending.contains .watchdog || w.pending.contains .wake

/-- A live detached session with a request outstanding has a timer armed or has called
`Broker.wake` since it was last detached, or is about to. -/
def World.Backed (w : World) : Prop :=
  w.s.dead = false → w.s.tconn = none → w.s.requestOutstanding = true →
    w.woke = true ∨ w.watched = true

/-- `detach` finds no request outstanding, or something to wake the actor for, or a timer armed;
and so does the dial's flush when it records its write for a detached session. -/
def guarded (w : World) : Event → Bool
  | .run i _ => match w.next i with
    | some (.detach tc) => w.s.dead || w.s.tconn ≠ some tc || !w.s.requestOutstanding ||
        w.s.downBuf.buf ≠ [] || w.s.downClosed || w.watched
    | some (.flushed _) => w.s.dead || w.s.tconn.isSome || w.woke || w.watched
    | _ => true
  | _ => true

theorem Does.watchdog {s : Session} {a : Act} {c : Choice} {r : Result} (h : Does s a c r)
    (hdead : r.s.dead = false) (ht : r.s.tconn = none) (hreq : r.s.requestOutstanding = true) :
    r.s.watchdog = true ∨ .wake ∈ r.push ∨ .wake ∈ r.eff ∨
    s.dead = false ∧ a ≠ .watchdog ∧ a ≠ .wake ∧ r.s.watchdog = s.watchdog ∧
      ((s.tconn = none ∧ s.requestOutstanding = true) ∨
      (∃ tc, a = .detach tc ∧ s.tconn = some tc ∧ s.requestOutstanding = true ∧
        s.downBuf.buf = [] ∧ s.downClosed = false) ∨
      ∃ n, a = .flushed n ∧ s.tconn = none) := by
  cases h with
  | detachQuiet tc _ hs hu =>
    have hu' : s.downBuf.buf = [] ∧ s.downClosed = false := by
      simp_all [Session.Undelivered]
    exact .inr (.inr (.inr ⟨hdead, by simp, by simp, rfl, .inr (.inl ⟨tc, rfl, hs, hreq, hu'⟩)⟩))
  | watchdogQuiet _ hs => simp_all [Session.watchdogWakes]
  | _ => simp_all

theorem watched_of_replace {w : World} {a : Act} {r : Result} {X Y : List Act}
    {ts : List (List Act)} (hpend : w.pending = X ++ a :: Y) (hts : ts.flatten = X ++ (r.push ++ Y))
    (ha : a ≠ .watchdog) (ha' : a ≠ .wake) (hwd : r.s.watchdog = w.s.watchdog)
    (h : w.watched = true) : (w.after r ts).watched = true := by
  have hpend' : (w.after r ts).pending = X ++ (r.push ++ Y) := hts
  simp only [World.watched, Bool.or_eq_true, List.contains_iff_mem, hpend, hpend',
    List.mem_append, List.mem_cons] at h ⊢
  rw [show (w.after r ts).s.watchdog = w.s.watchdog from hwd]
  have hne : Act.watchdog ≠ a := Ne.symm ha
  have hne' : Act.wake ≠ a := Ne.symm ha'
  tauto

theorem backed_of_guarded {w w' : World} {e : Event} (hI : w.Backed) (hg : guarded w e = true)
    (h : step w e = some w') : w'.Backed := by
  obtain ⟨hd, rfl, rfl, hpend⟩ | ⟨rfl, rfl, hpend⟩ |
    ⟨i, c, a, r, X, Y, rfl, hn, hr, hpend, hpend', ts, rfl⟩ := step_pending h
  · intro hdead ht hreq
    have hw := hI hdead ht hreq
    simp only [World.watched, hpend, Bool.or_eq_true, List.contains_iff_mem, List.mem_append]
      at hw ⊢
    tauto
  · intro _ _ _
    right
    simp [World.watched, hpend]
  · intro hdead ht hreq
    rcases hr.watchdog hdead ht hreq with hwd | hpush | heff | ⟨hdead, ha, ha', hwd, hcases⟩
    · right
      have hwd' : (w.after r ts).s.watchdog = true := hwd
      simp [World.watched, hwd']
    · right
      simp [World.watched, hpend', hpush]
    · left
      simp [World.after, heff]
    · have hkeep : w.watched = true → (w.after r ts).watched = true :=
        watched_of_replace hpend hpend' ha ha' hwd
      rcases hcases with ⟨ht, hreq⟩ | ⟨tc, rfl, ht, hreq, hbuf, hclosed⟩ | ⟨n, rfl, ht⟩
      · rcases hI hdead ht hreq with hw | hw
        · left
          simp [World.after, hw, ht]
        · exact .inr (hkeep hw)
      · right
        apply hkeep
        simpa [guarded, hn, hdead, ht, hreq, hbuf, hclosed] using hg
      · have hw : w.woke = true ∨ w.watched = true := by
          simpa [guarded, hn, hdead, ht] using hg
        rcases hw with hw | hw
        · left
          simp [World.after, hw, ht]
        · exact .inr (hkeep hw)

/-- A step that is not guarded leaves a session that nothing will wake. -/
theorem not_backed_of_unguarded {w w' : World} {e : Event} (hg : guarded w e = false)
    (h : step w e = some w') : ¬w'.Backed := by
  obtain ⟨hd, rfl, rfl, hpend⟩ | ⟨rfl, rfl, hpend⟩ |
    ⟨i, c, a, r, X, Y, rfl, hn, hr, hpend, hpend', ts, rfl⟩ := step_pending h
  · cases hg
  · cases hg
  · intro hb
    -- nothing that watched the session before does so now
    have hwatch : w.watched = false → (∀ x ∈ r.push, x ≠ .watchdog ∧ x ≠ .wake) →
        r.s.watchdog = w.s.watchdog → (w.after r ts).watched = false := by
      intro hw hpush hwd
      simp only [World.watched, Bool.or_eq_false_iff, List.contains_eq_mem, decide_eq_false_iff_not,
        hpend, hpend', List.mem_append, List.mem_cons, not_or] at hw ⊢
      refine ⟨⟨?_, hw.1.2.1, fun hx => (hpush _ hx).1 rfl, hw.1.2.2.2⟩, hw.2.1,
        fun hx => (hpush _ hx).2 rfl, hw.2.2.2⟩
      exact hwd.trans hw.1.1
    simp only [guarded, hn] at hg
    cases a with
    | detach tc =>
      simp only [Bool.or_eq_false_iff, decide_eq_false_iff_not, not_not, Bool.not_eq_false'] at hg
      obtain ⟨⟨⟨⟨⟨hdead, ht⟩, hreq⟩, hbuf⟩, hclosed⟩, hw⟩ := hg
      cases hr with
      | detachStale _ _ hs => exact hs ht
      | detachWake _ _ _ hu => simp [Session.Undelivered, hbuf, hclosed] at hu
      | detachQuiet =>
        have hw' := hwatch hw (by simp) rfl
        rcases hb hdead rfl hreq with hb | hb
        · simp [World.after, ht] at hb
        · rw [hw'] at hb
          cases hb
    | flushed n =>
      simp only [Bool.or_eq_false_iff, Option.isSome_eq_false_iff, Option.isNone_iff_eq_none] at hg
      obtain ⟨⟨⟨hdead, ht⟩, hwoke⟩, hw⟩ := hg
      cases hr
      have hw' := hwatch hw (by simp) rfl
      rcases hb hdead ht rfl with hb | hb
      · simp [World.after, hwoke] at hb
      · rw [hw'] at hb
        cases hb
    | _ => cases hg

theorem World.AtRest.not_mem {w : World} (h : w.AtRest) (hI : ∀ t ∈ w.threads, ReaderLast t) :
    .watchdog ∉ w.pending ∧ .wake ∉ w.pending := by
  constructor
  · intro hmem
    simpa using h.pending hI _ hmem
  · intro hmem
    simpa using h.pending hI _ hmem

/-- The steps of a run are `guarded` if and only if every state of the run is `Backed`, and in a
`Backed` state with all handlers at rest, a live detached session with a request outstanding has a
timer armed or has called `Broker.wake` since it was last detached. -/
theorem backed_iff_guarded {sessionBufferBytes : ℕ} {actorID : Bytes} {sessionID : UInt64}
    {target : Bytes} {es : List Event} {w : World}
    (hrun : run step (World.create sessionBufferBytes actorID sessionID target) es = some w) :
    (Along step (fun w e => guarded w e = true)
        (World.create sessionBufferBytes actorID sessionID target) es ↔
      ∀ pre v, pre <+: es →
        run step (World.create sessionBufferBytes actorID sessionID target) pre = some v →
        v.Backed) ∧
    (w.Backed → w.AtRest → w.s.dead = false → w.s.tconn = none → w.s.requestOutstanding = true →
      w.s.watchdog = true ∨ w.woke = true) := by
  constructor
  · apply along_iff_invariant _ _ hrun
    · intro w e w' hI h
      refine ⟨fun hg => backed_of_guarded hI hg h, fun hb => ?_⟩
      by_contra hg
      exact not_backed_of_unguarded (by simpa using hg) h hb
    · intro _ _ hreq
      cases hreq
  · intro hb hrest hdead ht hreq
    obtain ⟨hwd, hwake⟩ := hrest.not_mem (readerLast_run hrun)
    simpa [World.watched, hwd, hwake, or_comm] using hb hdead ht hreq

def firedWhileAttached : List Event :=
  -- the timer fires while the session is attached, and then the session is detached with its
  -- response still to come
  [.call (.bind 0), .run 0 .ok, .run 0 .ok, .call .dial, .run 1 .ok, .run 1 .ok,
    .call (.data 0 [1]), .run 2 .ok, .run 2 .ok, .run 2 .ok, .run 2 .ok, .run 2 .ok,
    .fire, .run 3 .ok, .call (.detach 0), .run 4 .ok]

theorem not_backed_firedWhileAttached : ∃ w,
    run step (World.create 16 [] 1 []) firedWhileAttached = some w ∧ w.AtRest ∧
    w.s.dead = false ∧ w.s.connected = true ∧ w.s.tconn = none ∧ w.s.requestOutstanding = true ∧
    w.s.watchdog = false ∧ w.woke = false := by
  refine ⟨_, rfl, ?_, rfl, rfl, rfl, rfl, rfl, rfl⟩
  decide

/-- The same run, with the session detached before the timer fires. -/
theorem backed_firedWhileDetached : ∃ w,
    run step (World.create 16 [] 1 []) (firedWhileAttached.take 12 ++
      [.call (.detach 0), .run 3 .ok, .fire, .run 4 .ok, .run 4 .ok]) = some w ∧ w.AtRest ∧
    (w.s.watchdog = true ∨ w.woke = true) := by
  have hrun := (rfl : run step (World.create 16 [] 1 []) (firedWhileAttached.take 12 ++
    [.call (.detach 0), .run 3 .ok, .fire, .run 4 .ok, .run 4 .ok]) = some _)
  have h := backed_iff_guarded hrun
  refine ⟨_, hrun, by decide, ?_⟩
  exact h.2 (h.1.mp (by decide) _ _ List.prefix_rfl hrun) (by decide) rfl rfl rfl

end SubstratePoc.Broker
