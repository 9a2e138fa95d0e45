import SubstratePoc.Broker.Inversion

namespace SubstratePoc.Broker
open Lib Tunnel

/-! ## Goroutines at rest -/

/-- The actions of the goroutine that dials and then reads the destination. -/
def Act.reading : Act → Bool
  | .dial | .dialed | .flush _ | .flushed _ | .readUpstream | .produce _ _ => true
  | _ => false

def ReaderLast (t : List Act) : Prop := ∀ a ∈ t.dropLast, a.reading = false

theorem Does.reading {s : Session} {a : Act} {c : Choice} {r : Result} (h : Does s a c r) :
    ReaderLast r.push ∧ (a.reading = false → ∀ b ∈ r.push, b.reading = false) := by
  unfold ReaderLast
  cases h with
  | produceDone after => cases after <;> simp [After.acts, Act.reading]
  | attach =>
    have hsend : ∀ l : List Msg, ∀ b ∈ l.map Act.send, b.reading = false := by simp [Act.reading]
    exact ⟨fun b hb => hsend _ b (List.mem_of_mem_dropLast hb), fun _ => hsend _⟩
  | _ => simp [Act.reading]

theorem readerLast_step {w w' : World} {e : Event} (hI : ∀ t ∈ w.threads, ReaderLast t)
    (h : step w e = some w') : ∀ t ∈ w'.threads, ReaderLast t := by
  obtain ⟨hd, rfl, rfl⟩ | ⟨rfl, rfl⟩ | ⟨c, a, rest, r, L, R, rfl, hts, hr, rfl⟩ := step_cases h
  · intro t ht
    rw [List.mem_append, List.mem_singleton] at ht
    rcases ht with ht | rfl
    · exact hI t ht
    · cases hd <;> simp [ReaderLast, Handler.acts, Act.reading]
  · intro t ht
    rw [List.mem_append, List.mem_singleton] at ht
    rcases ht with ht | rfl
    · exact hI t ht
    · simp [ReaderLast]
  · rw [hts] at hI
    have hmoved : ReaderLast (r.push ++ rest) := by
      have hlast : ReaderLast (a :: rest) := hI _ (by simp)
      rcases List.eq_nil_or_concat' rest with rfl | ⟨l, b, rfl⟩
      · rw [List.append_nil]
        exact hr.reading.1
      · -- the action that moved was not the last one of its goroutine
        unfold ReaderLast at hlast ⊢
        rw [← List.cons_append, List.dropLast_concat, List.forall_mem_cons] at hlast
        rw [← List.append_assoc, List.dropLast_concat]
        intro x hx
        rw [List.mem_append] at hx
        exact hx.elim (hr.reading.2 hlast.1 x) (hlast.2 x)
    intro t ht
    change t ∈ L ++ (r.push ++ rest) :: R at ht
    rw [List.mem_append, List.mem_cons] at ht
    rcases ht with ht | rfl | ht
    · exact hI t (by simp [ht])
    · exact hmoved
    · exact hI t (by simp [ht])

theorem readerLast_run {sessionBufferBytes : ℕ} {actorID : Bytes} {sessionID : UInt64}
    {target : Bytes} {es : List Event} {w : World}
    (hrun : run step (World.create sessionBufferBytes actorID sessionID target) es = some w) :
    ∀ t ∈ w.threads, ReaderLast t := by
  apply run_preserves (fun w e w' hI h => readerLast_step hI h) _ hrun
  simp [World.create]

theorem World.AtRest.pending {w : World} (h : w.AtRest) (hI : ∀ t ∈ w.threads, ReaderLast t) :
    ∀ a ∈ w.pending, a = .readUpstream ∨ ∃ p after, a = .produce p after := by
  intro a ha
  obtain ⟨t, ht, hat⟩ := List.mem_flatten.mp ha
  have hrest := h t ht
  have hlast := hI t ht
  rcases t with _ | ⟨b, _ | ⟨b', t⟩⟩
  · cases hat
  · rw [List.mem_singleton] at hat
    subst hat
    cases a <;> simp_all [Resting]
  · have hb : b.reading = false := hlast b (by simp)
    cases b <;> simp_all [Resting, Act.reading]

/-! ## Undelivered data wakes the actor -/

/-- A detached session with a request outstanding and something to deliver. -/
structure Session.Owed (s : Session) : Prop where
  dead : s.dead = false
  tconn : s.tconn = none
  requestOutstanding : s.requestOutstanding = true
  undelivered : s.downBuf.buf ≠ [] ∨ s.downClosed = true

instance (s : Session) : Decidable s.Owed :=
  decidable_of_iff (s.dead = false ∧ s.tconn = none ∧ s.requestOutstanding = true ∧
      (s.downBuf.buf ≠ [] ∨ s.downClosed = true))
    ⟨fun h => ⟨h.1, h.2.1, h.2.2.1, h.2.2.2⟩,
      fun h => ⟨h.dead, h.tconn, h.requestOutstanding, h.undelivered⟩⟩

/-- The critical sections that set `requestOutstanding`. -/
def Act.records : Act → Bool
  | .onDataWritten _ | .flushed _ => true
  | _ => false

/-- `requestOutstanding` is set while the session is attached, has nothing to deliver, or has
called for its actor. -/
def punctual (w : World) : Event → Bool
  | .run i _ => match w.next i with
    | some a => !a.records || w.s.dead || w.s.tconn.isSome ||
        (w.s.downBuf.buf = [] && !w.s.downClosed) || w.woke || w.pending.contains .wake
    | none => true
  | _ => true

theorem Does.owed {s : Session} {a : Act} {c : Choice} {r : Result} (h : Does s a c r)
    (ho : r.s.Owed) : .wake ∈ r.eff ∨ .wake ∈ r.push ∨ a ≠ .wake ∧
      s.dead = false ∧ s.tconn = none ∧ (s.downBuf.buf ≠ [] ∨ s.downClosed = true) ∧
      (s.requestOutstanding = true ∨ a.records = true) := by
  obtain ⟨hdead, ht, hreq, hund⟩ := ho
  cases h with
  | detachQuiet _ _ _ hu => exact absurd ⟨hreq, hund⟩ hu
  | ackKept _ _ hb =>
    -- a buffer that is not empty after a trim was not empty before
    have hbuf : s.downBuf.buf ≠ [] := by
      intro hnil
      simp [ReplayBuffer.buf_trimTo, hnil] at hb
    simp_all
  | _ => simp_all [Act.records]

/-- An actor that is owed something has been called for, or is about to be. -/
def Called (w : World) : Prop := w.s.Owed → w.woke = true ∨ .wake ∈ w.pending

theorem called_step {w w' : World} {e : Event} (hI : Called w) (hp : punctual w e = true)
    (h : step w e = some w') : Called w' := by
  obtain ⟨hd, rfl, rfl, hpend⟩ | ⟨rfl, rfl, hpend⟩ |
    ⟨i, c, a, r, X, Y, rfl, hn, hr, hpend, hpend', ts, rfl⟩ := step_pending h
  · intro ho
    rw [hpend, List.mem_append]
    exact (hI ho).imp_right .inl
  · intro ho
    rw [hpend, List.mem_append]
    exact (hI ⟨ho.dead, ho.tconn, ho.requestOutstanding, ho.undelivered⟩).imp_right .inl
  · intro ho
    rw [hpend']
    rcases hr.owed ho with heff | hpush | ⟨ha, hdead, ht, hund, hreq⟩
    · left
      simp [World.after, heff]
    · simp [hpush]
    · -- nothing called for the actor in this step: it has been called for before
      have hbefore : w.woke = true ∨ .wake ∈ w.pending := by
        by_cases hr' : w.s.requestOutstanding = true
        · exact hI ⟨hdead, ht, hr', hund⟩
        · have hrec : a.records = true := hreq.resolve_left hr'
          rcases hund with hund | hund <;>
            simpa [punctual, hn, hrec, hdead, ht, hund] using hp
      rcases hbefore with hw | hw
      · left
        simp [World.after, hw, ht]
      · right
        rw [hpend] at hw
        simp only [List.mem_append, List.mem_cons] at hw ⊢
        rcases hw with hw | hw | hw
        · exact .inl hw
        · exact absurd hw.symm ha
        · exact .inr (.inr hw)

/-- In every run from a new session whose steps are `punctual`, however its handlers interleave:
with all of them at rest, a live detached session that has a request outstanding and something
to deliver has called `Broker.wake` since it was last detached. -/
theorem woke_of_punctual {sessionBufferBytes : ℕ} {actorID : Bytes} {sessionID : UInt64}
    {target : Bytes} {es : List Event} {w : World}
    (hp : Along step (fun w e => punctual w e = true)
      (World.create sessionBufferBytes actorID sessionID target) es)
    (hrun : run step (World.create sessionBufferBytes actorID sessionID target) es = some w)
    (hrest : w.AtRest) (ho : w.s.Owed) : w.woke = true := by
  have hcalled : Called w := by
    apply run_invariant (fun w e w' hI hP h => called_step hI hP h) _ hp hrun
    intro ho
    cases ho.requestOutstanding
  apply (hcalled ho).resolve_right
  intro hmem
  simpa using hrest.pending (readerLast_run hrun) _ hmem

def detachedThenAnswered : List Event :=
  -- a request is recorded while its session is attached, and the response finds it detached
  [.call (.bind 0), .run 0 .ok, .run 0 .ok, .call .dial, .run 1 .ok, .run 1 .ok,
    .call (.data 0 [1]), .run 2 .ok, .run 2 .ok, .run 2 .ok, .run 2 .ok, .run 2 .ok,
    .call (.detach 0), .run 3 .ok, .run 1 (.read [9] none), .run 1 .ok, .run 1 .ok]

theorem woke_detachedThenAnswered : ∃ w, run step (World.create 16 [] 1 []) detachedThenAnswered =
    some w ∧ w.s.Owed ∧ w.woke = true := by
  have hrun := (rfl : run step (World.create 16 [] 1 []) detachedThenAnswered = some _)
  exact ⟨_, hrun, by decide, woke_of_punctual (by decide) hrun (by decide) (by decide)⟩

/-- The response arrives between a request's write and its record, and its tunnel write fails:
the flag is not set yet, and `detach` later finds the session detached already. -/
theorem not_woke_in_window : ∃ es w, run step (World.create 16 [] 1 []) es = some w ∧ w.AtRest ∧
    w.s.Owed ∧ w.woke = false := by
  refine ⟨[.call (.bind 0), .run 0 .ok, .run 0 .ok, .call .dial, .run 1 .ok, .run 1 .ok,
    .call (.data 0 [1]), .run 2 .ok, .run 2 .ok, .run 1 (.read [9] none), .run 1 (.fail 0 []),
    .run 1 .ok, .run 2 .ok, .run 2 .ok, .call (.detach 0), .run 3 .ok], _, rfl, ?_, ?_, rfl⟩ <;>
    decide

end SubstratePoc.Broker
