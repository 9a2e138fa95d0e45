import SubstratePoc.Broker.Wake

namespace SubstratePoc.Broker
open Lib Tunnel

/-- A request and its response, by their lengths. -/
structure Exchange where
  request : ℕ
  response : ℕ
  asked : 0 < request
  answered : 0 < response
  deriving DecidableEq

def requestBytes (xs : List Exchange) : ℕ := (xs.map Exchange.request).sum

def responseBytes (xs : List Exchange) : ℕ := (xs.map Exchange.response).sum

/-- With `written` bytes written upstream and `acked` response bytes acknowledged, a request (or
part of one) has been written and its response is not yet acknowledged to its last byte. -/
def Awaiting (xs : List Exchange) (written acked : ℕ) : Prop :=
  ∃ k, k < xs.length ∧ requestBytes (xs.take k) < written ∧
    acked < responseBytes (xs.take (k + 1))

instance (xs : List Exchange) (written acked : ℕ) : Decidable (Awaiting xs written acked) :=
  inferInstanceAs (Decidable (∃ k, k < xs.length ∧ _))

theorem Awaiting.mono {xs : List Exchange} {written acked acked' : ℕ}
    (h : Awaiting xs written acked') (hle : acked ≤ acked') : Awaiting xs written acked := by
  obtain ⟨k, hk, hreq, hresp⟩ := h
  exact ⟨k, hk, hreq, by omega⟩

theorem not_awaiting_zero (xs : List Exchange) (acked : ℕ) : ¬Awaiting xs 0 acked := by
  rintro ⟨k, -, hreq, -⟩
  exact Nat.not_lt_zero _ hreq

/-- No call is between its write to the destination and its record of it. -/
def World.Settled (w : World) : Prop := ∀ a ∈ w.pending, a.records = false

/-- No ACK empties the buffer while a response is incomplete, and no write to the destination
fails after it has begun a request, unless another call is about to record its write. -/
def patient (xs : List Exchange) (w : World) : Event → Bool
  | .run i c => match w.next i, c with
    | some (.onDownstreamAck offset), _ => (w.s.downBuf.trimTo offset).buf ≠ [] ||
        w.pending.any Act.records || !decide (Awaiting xs w.dest.length w.s.downBuf.endOffset)
    | some (.upWrite p), .fail n _ | some (.flush p), .fail n _ => w.s.requestOutstanding ||
        w.pending.any Act.records || !decide (Awaiting xs
          (w.dest ++ if w.s.dead then [] else p.take n).length w.s.downBuf.base)
    | _, _ => true
  | _ => true

theorem Does.outstanding {s : Session} {a : Act} {c : Choice} {r : Result} (h : Does s a c r) :
    (a.records = true ∧ r.s.requestOutstanding = true) ∨
    (∃ b ∈ r.push, b.records = true) ∨
    a.records = false ∧ s.downBuf.base ≤ r.s.downBuf.base ∧
      ((∃ offset, a = .onDownstreamAck offset ∧ (s.downBuf.trimTo offset).buf = [] ∧
        r.s.downBuf = s.downBuf.trimTo offset ∧ r.eff.flatMap Effect.bytes = []) ∨
      r.s.requestOutstanding = s.requestOutstanding ∧
        ((∃ p n text, (a = .upWrite p ∨ a = .flush p) ∧ c = .fail n text ∧
          r.s.downBuf = s.downBuf ∧
          r.eff.flatMap Effect.bytes = if s.dead then [] else p.take n) ∨
        r.eff.flatMap Effect.bytes = [])) := by
  have happend : ∀ {p : Bytes} {b : ReplayBuffer}, s.downBuf.append p = some b →
      s.downBuf.base ≤ b.base := by
    intro p b hb
    rw [(ReplayBuffer.append_eq_some hb).1]
  cases h with
  | ackDrained offset _ hb =>
    exact .inr (.inr ⟨rfl, ReplayBuffer.base_le_base_trimTo .., .inl ⟨offset, rfl, hb, rfl, rfl⟩⟩)
  | ackKept offset =>
    exact .inr (.inr ⟨rfl, ReplayBuffer.base_le_base_trimTo .., .inr ⟨rfl, .inr rfl⟩⟩)
  | produceDetached _ _ _ _ _ _ _ hb => simp [Act.records, Effect.bytes, happend hb]
  | produceSent _ _ _ _ _ _ _ hb => simp [Act.records, Effect.bytes, happend hb]
  | produceLost _ _ _ _ _ _ _ _ _ hb => simp [Act.records, Effect.bytes, happend hb]
  | produceDone after => simp [Act.records]
  | attach => simp [Act.records]
  | upWriteFail p n text =>
    exact .inr (.inr ⟨rfl, le_rfl, .inr ⟨rfl, .inl ⟨p, n, text, .inl rfl, rfl, rfl, by
      simp [Effect.bytes]⟩⟩⟩)
  | flushFail p n text =>
    exact .inr (.inr ⟨rfl, le_rfl, .inr ⟨rfl, .inl ⟨p, n, text, .inr rfl, rfl, rfl, by
      simp [Effect.bytes]⟩⟩⟩)
  | _ => simp [Act.records, Effect.bytes]

/-- An awaited response keeps the flag set, or a call is about to set it. -/
def Remembered (xs : List Exchange) (w : World) : Prop :=
  Awaiting xs w.dest.length w.s.downBuf.base →
    w.s.requestOutstanding = true ∨ ∃ a ∈ w.pending, a.records = true

theorem remembered_step {xs : List Exchange} {w w' : World} {e : Event} (hI : Remembered xs w)
    (hp : patient xs w e = true) (h : step w e = some w') : Remembered xs w' := by
  obtain ⟨hd, rfl, rfl, hpend⟩ | ⟨rfl, rfl, hpend⟩ |
    ⟨i, c, a, r, X, Y, rfl, hn, hr, hpend, hpend', ts, rfl⟩ := step_pending h
  · intro hw
    rw [hpend]
    apply (hI hw).imp_right
    rintro ⟨a, ha, hrec⟩
    exact ⟨a, List.mem_append_left _ ha, hrec⟩
  · intro hw
    rw [hpend]
    apply (hI hw).imp_right
    rintro ⟨a, ha, hrec⟩
    exact ⟨a, List.mem_append_left _ ha, hrec⟩
  · intro hw
    change Awaiting xs (w.dest ++ r.eff.flatMap Effect.bytes).length r.s.downBuf.base at hw
    change r.s.requestOutstanding = true ∨ _
    rw [hpend']
    rcases hr.outstanding with ⟨-, hreq⟩ | ⟨b, hb, hrec⟩ | ⟨ha, hbase, hrest⟩
    · exact .inl hreq
    · exact .inr ⟨b, by simp [hb], hrec⟩
    · -- a call that is about to record its write stays where it is
      have hkeep : (∃ b ∈ w.pending, b.records = true) →
          ∃ b ∈ X ++ (r.push ++ Y), b.records = true := by
        rintro ⟨b, hb, hrec⟩
        refine ⟨b, ?_, hrec⟩
        rw [hpend, List.mem_append, List.mem_cons] at hb
        rcases hb with hb | rfl | hb
        · simp [hb]
        · simp [ha] at hrec
        · simp [hb]
      rcases hrest with ⟨offset, rfl, hnil, hbuf, hbytes⟩ | ⟨hreq, hfail⟩
      · -- the ACK covers everything that has been produced
        have hend : r.s.downBuf.base = w.s.downBuf.endOffset := by
          rw [hbuf, ← w.s.downBuf.endOffset_trimTo offset, ReplayBuffer.endOffset, hnil]
          rfl
        rw [hbytes, List.append_nil, hend] at hw
        right
        apply hkeep
        simpa [patient, hn, hnil, hw] using hp
      · rw [hreq]
        rcases hfail with ⟨p, n, text, ha', rfl, hbuf, hbytes⟩ | hbytes
        · rw [hbytes, hbuf] at hw
          apply Or.imp_right hkeep
          rcases ha' with rfl | rfl <;>
            simpa only [patient, hn, hw, decide_true, Bool.not_true, Bool.or_false, Bool.or_eq_true,
              List.any_eq_true] using hp
        · rw [hbytes, List.append_nil] at hw
          exact (hI (hw.mono hbase)).imp_right hkeep

theorem step_run {w w' : World} {i : ℕ} {c : Choice} (h : step w (.run i c) = some w') :
    ∃ a r, w.next i = some a ∧ Does w.s a c r ∧ (.wake ∈ r.eff → w'.woke = true) ∧
      ∀ b, r.push.head? = some b → w'.next i = some b := by
  obtain ⟨hd, he, -⟩ | ⟨he, -⟩ | ⟨c', a, rest, r, L, R, he, hts, hr, rfl⟩ := step_cases h
  · cases he
  · cases he
  · cases he
    refine ⟨a, r, by simp [World.next, hts], hr, ?_, ?_⟩
    · intro heff
      simp [World.after, heff]
    · intro b hb
      simp [World.next, World.after, hb]

theorem Does.wakes_produce {s : Session} {p : Bytes} {after : After} {c : Choice} {r : Result}
    (h : Does s (.produce p after) c r) (hp : p ≠ []) (hd : s.dead = false) (ht : s.tconn = none)
    (hreq : s.requestOutstanding = true) : .wake ∈ r.eff := by
  cases h <;> simp_all

theorem Does.wakes_closeUpstream {s : Session} {cause : Cause} {c : Choice} {r : Result}
    (h : Does s (.closeUpstream cause) c r) (hc : s.downClosed = false) (ht : s.tconn = none)
    (hreq : s.requestOutstanding = true) : r.push.head? = some .wake := by
  cases h <;> simp_all

/-- In every run from a new session whose steps are `patient`: a state with all handlers at rest
is settled, and in a settled state an awaited response keeps `requestOutstanding` set.  If the
session is then detached, the next chunk and the close of the destination wake the actor. -/
theorem requestOutstanding_of_patient (xs : List Exchange) {sessionBufferBytes : ℕ}
    {actorID : Bytes} {sessionID : UInt64} {target : Bytes} {es : List Event} {w : World}
    (hp : Along step (fun w e => patient xs w e = true)
      (World.create sessionBufferBytes actorID sessionID target) es)
    (hrun : run step (World.create sessionBufferBytes actorID sessionID target) es = some w) :
    (w.AtRest → w.Settled) ∧
    (w.Settled → Awaiting xs w.dest.length w.s.downBuf.base → w.s.requestOutstanding = true ∧
      (w.s.dead = false → w.s.tconn = none →
        (∀ i p after c w', w.next i = some (.produce p after) → p ≠ [] →
          step w (.run i c) = some w' → w'.woke = true) ∧
        ∀ i cause c w', w.next i = some (.closeUpstream cause) → w.s.downClosed = false →
          step w (.run i c) = some w' → w'.next i = some .wake)) := by
  have hI : Remembered xs w := by
    apply run_invariant (fun w e w' hI hP h => remembered_step hI hP h) _ hp hrun
    intro hw
    exact absurd hw (not_awaiting_zero xs _)
  refine ⟨?_, ?_⟩
  · intro hrest a ha
    rcases hrest.pending (readerLast_run hrun) a ha with rfl | ⟨p, after, rfl⟩ <;> rfl
  · intro hset hw
    have hreq : w.s.requestOutstanding = true := by
      apply (hI hw).resolve_right
      rintro ⟨a, ha, hrec⟩
      simp [hset a ha] at hrec
    refine ⟨hreq, fun hdead ht => ⟨?_, ?_⟩⟩
    · intro i p after c w' hn hne hstep
      obtain ⟨a, r, hn', hr, hwoke, -⟩ := step_run hstep
      obtain rfl := Option.some.inj (hn.symm.trans hn')
      exact hwoke (hr.wakes_produce hne hdead ht hreq)
    · intro i cause c w' hn hclosed hstep
      obtain ⟨a, r, hn', hr, -, hnext⟩ := step_run hstep
      obtain rfl := Option.some.inj (hn.symm.trans hn')
      exact hnext _ (hr.wakes_closeUpstream hclosed ht hreq)

def twoExchanges : List Exchange :=
  -- a one-byte request with a two-byte response, then a two-byte request
  [⟨1, 2, by decide, by decide⟩, ⟨2, 1, by decide, by decide⟩]

def answeredWhole : List Event :=
  -- the first request is written and recorded and its response read whole; half of the second
  -- request is written, and the first byte of the response acknowledged
  [.call (.bind 0), .run 0 .ok, .run 0 .ok, .call .dial, .run 1 .ok, .run 1 .ok,
    .call (.data 0 [1]), .run 2 .ok, .run 2 .ok, .run 2 .ok, .run 2 .ok, .run 2 .ok,
    .run 1 (.read [8, 9] none), .run 1 .ok, .run 1 .ok,
    .call (.data 1 [2]), .run 3 .ok, .run 3 .ok, .run 3 .ok, .run 3 .ok, .run 3 .ok,
    .call (.ack 1), .run 4 .ok]

theorem requestOutstanding_answeredWhole : ∃ w, run step (World.create 16 [] 1 []) answeredWhole =
    some w ∧ w.AtRest ∧ Awaiting twoExchanges w.dest.length w.s.downBuf.base ∧
    w.s.requestOutstanding = true := by
  have hrun := (rfl : run step (World.create 16 [] 1 []) answeredWhole = some _)
  obtain ⟨hset, hreq⟩ := requestOutstanding_of_patient twoExchanges (by decide) hrun
  refine ⟨_, hrun, ?hrest, ?haw, (hreq (hset ?hrest) ?haw).1⟩
  case hrest => decide
  case haw => decide

def oneExchange : List Exchange :=
  -- a one-byte request and its two-byte response
  [⟨1, 2, by decide, by decide⟩]

/-- A response in two chunks: the ACK of the first finds the buffer empty and clears the
flag. -/
theorem not_requestOutstanding_two_chunks : ∃ es w, run step (World.create 16 [] 1 []) es = some w ∧
    w.AtRest ∧ Awaiting oneExchange w.dest.length w.s.downBuf.base ∧
    w.s.requestOutstanding = false := by
  refine ⟨[.call (.bind 0), .run 0 .ok, .run 0 .ok, .call .dial, .run 1 .ok, .run 1 .ok,
    .call (.data 0 [1]), .run 2 .ok, .run 2 .ok, .run 2 .ok, .run 2 .ok, .run 2 .ok,
    .run 1 (.read [8] none), .run 1 .ok, .run 1 .ok, .call (.ack 1), .run 3 .ok], _, rfl, ?_, ?_,
    rfl⟩ <;> decide

end SubstratePoc.Broker
