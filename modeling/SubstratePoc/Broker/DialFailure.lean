import SubstratePoc.Broker.Wake

namespace SubstratePoc.Broker
open Lib Tunnel

/-- The dial fails.  (`produceDownstream` is called by the upstream reader only, and there is
none.) -/
def failing (w : World) : Event → Bool
  | .call (.produce _) => false
  | .run i c => w.next i ≠ some .dial || c ≠ .ok
  | _ => true

/-! ## Nothing wakes the actor -/

/-- The actions of a session that is not connected: none that needs the destination's connection,
and no wake. -/
def Act.early : Act → Bool
  | .dialed | .flush _ | .flushed _ | .readUpstream | .produce _ _ | .upWrite _ | .onDataWritten _
  | .closeWrite | .closeUpstream _ | .wake | .watchdog => false
  | _ => true

structure World.Unconnected (w : World) : Prop where
  connected : w.s.connected = false
  upstream : w.s.upstream = false
  requestOutstanding : w.s.requestOutstanding = false
  downClosed : w.s.downClosed = false
  watchdog : w.s.watchdog = false
  woke : w.woke = false
  early : ∀ a ∈ w.pending, a.early = true

theorem Does.unconnected {s : Session} {a : Act} {c : Choice} {r : Result} (h : Does s a c r)
    (ha : a.early = true) (hfail : a ≠ .dial ∨ c ≠ .ok) (hconn : s.connected = false)
    (hup : s.upstream = false) (hreq : s.requestOutstanding = false)
    (hclosed : s.downClosed = false) (hwd : s.watchdog = false) :
    r.s.connected = false ∧ r.s.upstream = false ∧ r.s.requestOutstanding = false ∧
    r.s.downClosed = false ∧ r.s.watchdog = false ∧ .wake ∉ r.eff ∧
    (∀ b ∈ r.push, b.early = true) ∧
    (a ≠ .dial → ∀ b ∈ r.push, b ≠ .dial ∧ b ≠ .destroy) := by
  cases h with
  | attach => simp_all [Act.early]
  | done _ hd => simp [Session.done, hclosed] at hd
  | detachWake _ _ _ hu => simp [Session.Undelivered, hreq] at hu
  | _ => simp_all [Act.early]

theorem World.Unconnected.step {w w' : World} {e : Event} (hI : w.Unconnected)
    (hf : failing w e = true) (h : Broker.step w e = some w') : w'.Unconnected := by
  obtain ⟨hd, rfl, rfl, hpend⟩ | ⟨rfl, -⟩ |
    ⟨i, c, a, r, X, Y, rfl, hn, hr, hpend, hpend', ts, rfl⟩ := step_pending h
  · refine ⟨hI.connected, hI.upstream, hI.requestOutstanding, hI.downClosed, hI.watchdog, hI.woke, ?_⟩
    rw [hpend, List.forall_mem_append]
    refine ⟨hI.early, ?_⟩
    cases hd with
    | produce => cases hf
    | _ => simp [Handler.acts, Act.early]
  · -- no timer is armed
    simp [Broker.step, hI.watchdog] at h
  · have hearly := hI.early
    rw [hpend] at hearly
    have hfail : a ≠ .dial ∨ c ≠ .ok := by simpa [failing, hn] using hf
    obtain ⟨hconn, hup, hreq, hclosed, hwd, hwake, hpush, -⟩ := hr.unconnected (hearly a (by simp))
      hfail hI.connected hI.upstream hI.requestOutstanding hI.downClosed hI.watchdog
    refine ⟨hconn, hup, hreq, hclosed, hwd, ?_, ?_⟩
    · simp [World.after, hI.woke, hwake]
    · intro b hb
      rw [hpend'] at hb
      exact (mem_of_replace (a := a) hb).elim (hpush b) (hearly b)

/-! ## The failure path -/

/-- A CLOSE(DirDown) of the session has been written to the connection. -/
def World.ClosedOn (w : World) (k : ConnId) : Prop :=
  ∃ reason, (k, .close w.s.sessionID dirDown reason) ∈ w.sent

/-- Where a goroutine of a live session is on the failure path, if it is on it, and what the
session's tunnel has been told by then. -/
inductive FailurePath (w : World) : List Act → Prop
  | dial : FailurePath w [.dial]
  | send (reason : Bytes) : FailurePath w [.send (.close w.s.sessionID dirDown reason), .destroy]
  | write (k : ConnId) (reason : Bytes) (ht : w.s.tconn = some k) :
    FailurePath w [.write k (.close w.s.sessionID dirDown reason), .destroy]
  | destroy (k : ConnId) (ht : w.s.tconn = some k) (hk : w.ClosedOn k) : FailurePath w [.destroy]
  | other (t : List Act) (h : ∀ a ∈ t, a ≠ .dial ∧ a ≠ .destroy) : FailurePath w t

/-- The failure path has read the connection that its CLOSE goes to, and the session is still in
the map. -/
def pastSend : List Act → Bool
  | [.write _ _, .destroy] | [.destroy] => true
  | _ => false

def World.closing (w : World) : Bool := w.s.dead || w.threads.any pastSend

/-- The failure path finds the session bound and its CLOSE is written; from then on the session is
neither bound to another connection nor, until it is destroyed, detached. -/
def audible (w : World) : Event → Bool
  | .run i c => match w.threads[i]? with
    | some [.send _, .destroy] => w.s.dead || w.s.tconn.isSome
    | some [.write _ _, .destroy] => w.s.dead || c = .ok
    | some (.bind tc :: _) => !w.closing || w.s.tconn = some tc
    | some (.detach tc :: _) => !w.closing || w.s.dead || w.s.tconn ≠ some tc
    | _ => true
  | _ => true

theorem Does.tconn_eq {s : Session} {a : Act} {c : Choice} {r : Result} (h : Does s a c r)
    (ha : a.early = true) : r.s.sessionID = s.sessionID ∧ (r.s.tconn = s.tconn ∨
      (∃ tc, a = .bind tc ∧ r.s.tconn = some tc) ∨
      ∃ tc, a = .detach tc ∧ s.tconn = some tc ∧ r.s.tconn = none) := by
  cases h <;> simp_all [Act.early]

theorem World.ClosedOn.after {w : World} {k : ConnId} {r : Result} (ts : List (List Act))
    (h : w.ClosedOn k) (hid : r.s.sessionID = w.s.sessionID) : (w.after r ts).ClosedOn k := by
  obtain ⟨reason, hmem⟩ := h
  refine ⟨reason, ?_⟩
  show (k, Msg.close r.s.sessionID dirDown reason) ∈ w.sent ++ _
  rw [hid]
  exact List.mem_append_left _ hmem

theorem FailurePath.after {w : World} {t : List Act} {r : Result} (ts : List (List Act))
    (h : FailurePath w t) (hid : r.s.sessionID = w.s.sessionID)
    (ht : pastSend t = true → r.s.tconn = w.s.tconn) : FailurePath (w.after r ts) t := by
  have hid' : (w.after r ts).s.sessionID = w.s.sessionID := hid
  cases h with
  | dial => exact .dial
  | send reason =>
    rw [← hid']
    exact .send reason
  | write k reason htc =>
    rw [← hid']
    exact .write k reason ((ht rfl).trans htc)
  | destroy k htc hk => exact .destroy k ((ht rfl).trans htc) (hk.after ts hid)
  | other t h => exact .other t h

theorem FailurePath.move {w : World} {a : Act} {rest : List Act} {c : Choice} {r : Result}
    {i : ℕ} (ts : List (List Act)) (h : FailurePath w (a :: rest))
    (hi : w.threads[i]? = some (a :: rest)) (hr : Does w.s a c r)
    (hf : failing w (.run i c) = true) (haud : audible w (.run i c) = true)
    (hlive : w.s.dead = false) (hlive' : r.s.dead = false)
    (hother : a ≠ .dial → ∀ b ∈ r.push, b ≠ .dial ∧ b ≠ .destroy) :
    FailurePath (w.after r ts) (r.push ++ rest) := by
  -- the goroutine that moves stays on it, as long as the session lives
  generalize hact : a :: rest = t at h
  cases h with
  | dial =>
    obtain ⟨rfl, rfl⟩ := List.cons.inj hact
    cases hr with
    | dialOk => simp [failing, World.next, hi] at hf
    | dialFail n text => exact .send _
  | send reason =>
    obtain ⟨rfl, rfl⟩ := List.cons.inj hact
    cases hr with
    | sendNone _ _ ht => simp [audible, hi, hlive, ht] at haud
    | sendSome _ _ k ht => exact .write k reason ht
  | write k reason ht =>
    obtain ⟨rfl, rfl⟩ := List.cons.inj hact
    cases hr with
    | writeOk => exact .destroy k ht ⟨reason, by simp [World.after, Effect.msg]⟩
    | writeFail => simp [audible, hi, hlive] at haud
  | destroy =>
    obtain ⟨rfl, rfl⟩ := List.cons.inj hact
    cases hr with
    | destroyAgain _ hd =>
      rw [hlive] at hd
      cases hd
    | destroy => cases hlive'
  | other t h =>
    subst hact
    rw [List.forall_mem_cons] at h
    apply FailurePath.other
    rw [List.forall_mem_append]
    exact ⟨hother h.1.1, h.2⟩

theorem tconn_eq_of_audible {w : World} {i : ℕ} {a : Act} {rest : List Act} {c : Choice}
    {r : Result} (hi : w.threads[i]? = some (a :: rest)) (hr : Does w.s a c r)
    (ha : a.early = true) (haud : audible w (.run i c) = true) (hclosing : w.closing = true) :
    r.s.tconn = w.s.tconn ∨ w.s.dead = true ∧ r.s.tconn = none := by
  obtain ⟨-, ht | ⟨tc, rfl, ht⟩ | ⟨tc, rfl, ht, ht'⟩⟩ := hr.tconn_eq ha
  · exact .inl ht
  · left
    have hb : w.s.tconn = some tc := by simpa [audible, hi, hclosing] using haud
    rw [ht, hb]
  · right
    have hdead : w.s.dead = true := by simpa [audible, hi, hclosing, ht] using haud
    exact ⟨hdead, ht'⟩

/-- A live session's tunnel is told before the session is destroyed, and whatever connection a
dead session is bound to has been told. -/
structure Told (w : World) : Prop extends w.Unconnected where
  live : w.s.dead = false → ∀ t ∈ w.threads, FailurePath w t
  dead : w.s.dead = true → ∀ k, w.s.tconn = some k → w.ClosedOn k

theorem Told.destroyed {w w' : World} {e : Event} (hI : Told w) (hlive : w.s.dead = false)
    (h : Broker.step w e = some w') (hdead : w'.s.dead = true) :
    ∃ k i c, e = .run i c ∧ w.next i = some .destroy ∧ w.s.tconn = some k ∧ w.ClosedOn k ∧
      w'.s.tconn = w.s.tconn := by
  -- the step that ends a session is the `destroy` of a failure path
  obtain ⟨hd, rfl, rfl⟩ | ⟨rfl, rfl⟩ | ⟨c, a, rest, r, L, R, rfl, hts, hr, rfl⟩ := step_cases h
  · simp [hlive] at hdead
  · simp [hlive] at hdead
  · change r.s.dead = true at hdead
    have ha : a = .destroy := by
      by_contra ha
      rw [(hr.dead_eq fun h => absurd h ha).1, hlive] at hdead
      cases hdead
    subst ha
    have hpath := hI.live hlive (.destroy :: rest) (by simp [hts])
    generalize hact : Act.destroy :: rest = t at hpath
    cases hpath with
    | destroy k ht hk =>
      refine ⟨k, L.length, c, rfl, by simp [World.next, hts], ht, hk, ?_⟩
      cases hr <;> rfl
    | other t h =>
      subst hact
      exact absurd rfl (h .destroy (by simp)).2
    | _ => cases hact

theorem Told.live_call {w : World} (hI : Told w) (hd : Handler) (hlive : w.s.dead = false) :
    ∀ t ∈ w.threads ++ [hd.acts], FailurePath { w with threads := w.threads ++ [hd.acts] } t := by
  intro t ht
  rw [List.mem_append, List.mem_singleton] at ht
  rcases ht with ht | rfl
  · cases hI.live hlive t ht with
    | dial => exact .dial
    | send reason => exact .send reason
    | write k reason htc => exact .write k reason htc
    | destroy k htc hk => exact .destroy k htc hk
    | other t h => exact .other t h
  · cases hd with
    | dial => exact .dial
    | _ => exact .other _ (by simp [Handler.acts])

theorem Told.live_run {w : World} {a : Act} {rest : List Act} {c : Choice} {r : Result}
    {L R : List (List Act)} (hI : Told w) (hts : w.threads = L ++ (a :: rest) :: R)
    (hr : Does w.s a c r) (hf : failing w (.run L.length c) = true)
    (haud : audible w (.run L.length c) = true) (hlive' : r.s.dead = false) :
    ∀ t ∈ L ++ (r.push ++ rest) :: R, FailurePath (w.after r (L ++ (r.push ++ rest) :: R)) t := by
  -- while the session lives, its goroutines stay on the failure path
  have hlive : w.s.dead = false := by
    by_contra hdead
    rw [hr.dead_mono (by simpa using hdead)] at hlive'
    cases hlive'
  have hi : w.threads[L.length]? = some (a :: rest) := by simp [hts]
  have hearly : a.early = true := hI.early a (by simp [World.pending, hts])
  have hn : w.next L.length = some a := by simp [World.next, hi]
  have hfail : a ≠ .dial ∨ c ≠ .ok := by simpa [failing, hn] using hf
  have hpaths := hI.live hlive
  have hstay : ∀ t ∈ w.threads, FailurePath (w.after r (L ++ (r.push ++ rest) :: R)) t := by
    intro t ht
    refine (hpaths t ht).after _ (hr.tconn_eq hearly).1 fun hpast => ?_
    have hclosing : w.closing = true := by
      simp only [World.closing, Bool.or_eq_true, List.any_eq_true]
      exact .inr ⟨t, ht, hpast⟩
    obtain heq | ⟨hdead, -⟩ := tconn_eq_of_audible hi hr hearly haud hclosing
    · exact heq
    · rw [hlive] at hdead
      cases hdead
  intro t ht
  rw [List.mem_append, List.mem_cons] at ht
  rcases ht with ht | rfl | ht
  · exact hstay t (by simp [hts, ht])
  · exact (hpaths _ (by simp [hts])).move _ hi hr hf haud hlive hlive'
      (hr.unconnected hearly hfail hI.connected hI.upstream hI.requestOutstanding hI.downClosed
        hI.watchdog).2.2.2.2.2.2.2
  · exact hstay t (by simp [hts, ht])

theorem Told.closedOn_run {w : World} {a : Act} {rest : List Act} {c : Choice} {r : Result}
    {L R : List (List Act)} {k : ConnId} (hI : Told w) (hts : w.threads = L ++ (a :: rest) :: R)
    (hr : Does w.s a c r) (haud : audible w (.run L.length c) = true)
    (h : Broker.step w (.run L.length c) = some (w.after r (L ++ (r.push ++ rest) :: R)))
    (hdead' : r.s.dead = true) (hk : r.s.tconn = some k) : w.ClosedOn k := by
  have hi : w.threads[L.length]? = some (a :: rest) := by simp [hts]
  have hearly : a.early = true := hI.early a (by simp [World.pending, hts])
  by_cases hdead : w.s.dead = true
  · have hclosing : w.closing = true := by simp [World.closing, hdead]
    obtain heq | ⟨-, hnone⟩ := tconn_eq_of_audible hi hr hearly haud hclosing
    · exact hI.dead hdead k (heq.symm.trans hk)
    · rw [hnone] at hk
      cases hk
  · obtain ⟨k', i, c, -, -, ht, hk', heq⟩ := hI.destroyed (by simpa using hdead) h hdead'
    obtain rfl := Option.some.inj (ht.symm.trans (heq.symm.trans hk))
    exact hk'

theorem Told.step {w w' : World} {e : Event} (hI : Told w) (hf : failing w e = true)
    (haud : audible w e = true) (h : Broker.step w e = some w') : Told w' := by
  have hunc := hI.toUnconnected.step hf h
  obtain ⟨hd, rfl, rfl⟩ | ⟨rfl, -⟩ | ⟨c, a, rest, r, L, R, rfl, hts, hr, rfl⟩ := step_cases h
  · exact ⟨hunc, hI.live_call hd, hI.dead⟩
  · simp [Broker.step, hI.watchdog] at h
  · have hearly : a.early = true := hI.early a (by simp [World.pending, hts])
    refine ⟨hunc, hI.live_run hts hr hf haud, fun hdead' k hk => ?_⟩
    exact (hI.closedOn_run hts hr haud h hdead' hk).after _ (hr.tconn_eq hearly).1

/-! ## The end of a failed dial -/

/-- The dial has been called and has not come to its end, or the session is dead. -/
def World.Doomed (w : World) : Prop := w.s.dead = true ∨ .dial ∈ w.pending ∨ .destroy ∈ w.pending

theorem doomed_step {w w' : World} {e : Event} (hI : w.Doomed) (hf : failing w e = true)
    (h : step w e = some w') : w'.Doomed := by
  unfold World.Doomed at hI ⊢
  obtain ⟨hd, rfl, rfl, hpend⟩ | ⟨rfl, rfl, hpend⟩ |
    ⟨i, c, a, r, X, Y, rfl, hn, hr, hpend, hpend', ts, rfl⟩ := step_pending h
  · simp only [hpend, List.mem_append]
    tauto
  · simp only [hpend, List.mem_append]
    tauto
  · rw [hpend']
    rcases hI with hdead | hdial | hdes
    · exact .inl (hr.dead_mono hdead)
    · by_cases ha : a = .dial
      · subst ha
        cases hr with
        | dialOk => simp [failing, hn] at hf
        | dialFail => simp
      · rw [hpend] at hdial
        simp only [List.mem_append, List.mem_cons, Ne.symm ha, false_or] at hdial ⊢
        tauto
    · by_cases ha : a = .destroy
      · subst ha
        left
        cases hr with
        | destroyAgain _ hdead => exact hdead
        | destroy => rfl
      · rw [hpend] at hdes
        simp only [List.mem_append, List.mem_cons, Ne.symm ha, false_or] at hdes ⊢
        tauto

theorem World.ClosedOn.step {w w' : World} {e : Event} {k : ConnId} (hk : w.ClosedOn k)
    (h : Broker.step w e = some w') : w'.ClosedOn k := by
  obtain ⟨hd, rfl, rfl⟩ | ⟨rfl, rfl⟩ | ⟨c, a, rest, r, L, R, rfl, hts, hr, rfl⟩ := step_cases h
  · exact hk
  · exact hk
  · exact hk.after _ (by cases hr <;> rfl)

/-- A dial that fails, in a run whose steps are all `audible`: when everything is at rest the
session has been destroyed, the connection it was bound to then has been told, and so has any
connection that it is bound to now. -/
theorem closedOn_of_audible {sessionBufferBytes : ℕ} {actorID : Bytes} {sessionID : UInt64}
    {target : Bytes} {es : List Event} {w : World} (hdial : .call .dial ∈ es)
    (hfail : Along step (fun w e => failing w e = true)
      (World.create sessionBufferBytes actorID sessionID target) es)
    (haud : Along step (fun w e => audible w e = true)
      (World.create sessionBufferBytes actorID sessionID target) es)
    (hrun : run step (World.create sessionBufferBytes actorID sessionID target) es = some w)
    (hrest : w.AtRest) :
    (∃ pre i c post v k, es = pre ++ .run i c :: post ∧
      run step (World.create sessionBufferBytes actorID sessionID target) pre = some v ∧
      v.s.dead = false ∧ v.next i = some .destroy ∧ v.s.tconn = some k ∧ w.ClosedOn k) ∧
    ∀ k, w.s.tconn = some k → w.ClosedOn k := by
  have hinit : Told (World.create sessionBufferBytes actorID sessionID target) :=
    ⟨⟨rfl, rfl, rfl, rfl, rfl, rfl, by simp [World.create, World.pending]⟩,
      fun _ => by simp [World.create], fun h => by cases h⟩
  have hkeep : ∀ w e w', Told w → (failing w e = true ∧ audible w e = true) →
      step w e = some w' → Told w' := fun w e w' hI hP h => hI.step hP.1 hP.2 h
  have hdead : w.s.dead = true := by
    have hdoomed : w.Doomed := by
      apply run_of_mem (fun w e w' hI hf h => doomed_step hI hf h) _ hdial hfail hrun
      intro w w' h
      obtain rfl := Option.some.inj h
      right
      left
      simp [World.pending, Handler.acts]
    have hpend := hrest.pending (readerLast_run hrun)
    rcases hdoomed with h | h | h
    · exact h
    · simpa using hpend _ h
    · simpa using hpend _ h
  refine ⟨?_, (run_invariant hkeep hinit (hfail.and haud) hrun).dead hdead⟩
  obtain ⟨pre, e, post, v, u, rfl, hpre, hI, hlive, hstep, hdead', hpost⟩ :=
    run_first (Q := fun w => w.s.dead = true) hkeep hinit (hfail.and haud) (by simp [World.create,
      newSession]) hdead hrun
  have hlive : v.s.dead = false := by simpa using hlive
  obtain ⟨k, i, c, rfl, hn, ht, hk, -⟩ := hI.destroyed hlive hstep hdead'
  have hkw : w.ClosedOn k := run_preserves (I := fun w => w.ClosedOn k)
    (fun w e w' hk h => hk.step h) (hk.step hstep) hpost
  exact ⟨pre, i, c, post, v, k, rfl, hpre, hlive, hn, ht, hkw⟩

def toldInTime : List Event :=
  -- the request is queued, the dial fails, and the CLOSE reaches the tunnel
  [.call (.bind 0), .run 0 .ok, .run 0 .ok, .call .dial, .call (.data 0 [1]), .run 2 .ok,
    .run 1 (.fail 0 []), .run 1 .ok, .run 1 .ok, .run 1 .ok, .run 1 .ok]

theorem closedOn_toldInTime : ∃ w, run step (World.create 16 [] 1 []) toldInTime = some w ∧
    w.AtRest ∧ ∃ pre i c post v k, toldInTime = pre ++ .run i c :: post ∧
      run step (World.create 16 [] 1 []) pre = some v ∧
      v.s.dead = false ∧ v.next i = some .destroy ∧ v.s.tconn = some k ∧ w.ClosedOn k := by
  have hrun := (rfl : run step (World.create 16 [] 1 []) toldInTime = some _)
  refine ⟨_, hrun, by decide, ?_⟩
  exact (closedOn_of_audible (by decide) (by decide) (by decide) hrun (by decide)).1

/-- The actor is suspended with its request queued, and then the dial fails; or the CLOSE finds the
session detached and an ATTACH is answered before the session is destroyed. -/
theorem not_closedOn_suspended :
    (∃ w, run step (World.create 16 [] 1 [])
      [.call (.bind 0), .run 0 .ok, .run 0 .ok, .call .dial, .call (.data 0 [1]), .run 2 .ok,
        .call (.detach 0), .run 3 .ok, .run 1 (.fail 0 []), .run 1 .ok, .run 1 .ok, .run 1 .ok] =
        some w ∧ w.AtRest ∧ w.s.dead = true ∧ w.s.preConn = [1] ∧ w.s.tconn = none ∧
      w.sent = [] ∧ w.woke = false) ∧
    ∃ w, run step (World.create 16 [] 1 [])
      [.call (.bind 0), .run 0 .ok, .run 0 .ok, .call .dial, .call (.detach 0), .run 2 .ok,
        .run 1 (.fail 0 []), .run 1 .ok, .call (.attach 1 0), .run 3 .ok, .run 3 .ok, .run 3 .ok,
        .run 3 .ok, .run 3 .ok, .run 1 .ok, .run 1 .ok] = some w ∧ w.AtRest ∧ w.s.dead = true ∧
      w.s.tconn = some 1 ∧ w.sent = [(1, .attachOK 1 0)] ∧ w.woke = false := by
  refine ⟨⟨_, rfl, ?_, rfl, rfl, rfl, rfl, rfl⟩, _, rfl, ?_, rfl, rfl, rfl, rfl⟩
  · decide
  · decide

end SubstratePoc.Broker
