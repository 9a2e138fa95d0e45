import SubstratePoc.Broker.Goroutine

namespace SubstratePoc.Broker
open Lib Tunnel

/-- The number of agent bytes `onData` has taken: what is written, and before the dial what is
queued. -/
def Session.position (s : Session) : ℕ :=
  if s.connected then s.upstreamWritten else s.upstreamWritten + s.preConn.length

/-- `detach`'s wake condition. -/
def Session.Undelivered (s : Session) : Prop :=
  s.requestOutstanding = true ∧ (s.downBuf.buf ≠ [] ∨ s.downClosed = true)

def afterRead : Option Cause → After
  | none => .read
  | some cause => .close cause

inductive Does (s : Session) : Act → Choice → Result → Prop
  | bind (tc : ConnId) (c : Choice) :
    Does s (.bind tc) c ⟨{ s with tconn := some tc }, [.register tc], []⟩
  | register (tc : ConnId) (c : Choice) : Does s (.register tc) c ⟨s, [], [.register tc]⟩
  | detachStale (tc : ConnId) (c : Choice) (h : s.tconn ≠ some tc) :
    Does s (.detach tc) c ⟨s, [], []⟩
  | detachWake (tc : ConnId) (c : Choice) (h : s.tconn = some tc) (hu : s.Undelivered) :
    Does s (.detach tc) c ⟨{ s with tconn := none }, [.wake], []⟩
  | detachQuiet (tc : ConnId) (c : Choice) (h : s.tconn = some tc) (hu : ¬s.Undelivered) :
    Does s (.detach tc) c ⟨{ s with tconn := none }, [], []⟩
  | dialOk : Does s .dial .ok ⟨s, [.dialed], []⟩
  | dialFail (n : ℕ) (text : Bytes) : Does s .dial (.fail n text)
    ⟨s, [.send (.close s.sessionID dirDown (dialFailed ++ text)), .destroy], []⟩
  | dialedDead (c : Choice) (hd : s.dead = true) : Does s .dialed c ⟨s, [], []⟩
  | dialedFlush (c : Choice) (hd : s.dead = false) (hp : s.preConn ≠ []) : Does s .dialed c
    ⟨{ s with upstream := true, connected := true, preConn := [], watchdog := true },
      [.flush s.preConn], []⟩
  | dialedRead (c : Choice) (hd : s.dead = false) (hp : s.preConn = []) : Does s .dialed c
    ⟨{ s with upstream := true, connected := true, preConn := [], watchdog := true },
      [.readUpstream], []⟩
  | flushOk (pre : Bytes) (hd : s.dead = false) :
    Does s (.flush pre) .ok ⟨s, [.flushed pre.length], [.upstream pre]⟩
  | flushFail (pre : Bytes) (n : ℕ) (text : Bytes) : Does s (.flush pre) (.fail n text)
    ⟨s, [.closeUpstream (.err text)], [.upstream (if s.dead then [] else pre.take n)]⟩
  | flushed (n : ℕ) (c : Choice) : Does s (.flushed n) c
    ⟨{ s with upstreamWritten := s.upstreamWritten + n, requestOutstanding := true },
      [.send (.ack s.sessionID (s.upstreamWritten + n)), .readUpstream], []⟩
  | read (p : Bytes) (err : Option Cause) (hl : p.length ≤ readSize)
    (hd : s.dead = true → p = [] ∧ err ≠ none) :
    Does s .readUpstream (.read p err) ⟨s, [.produce p (afterRead err)], []⟩
  | produceDone (after : After) (c : Choice) :
    Does s (.produce [] after) c ⟨s, after.acts, []⟩
  | produceDead (p : Bytes) (after : After) (c : Choice) (hp : p ≠ []) (hd : s.dead = true) :
    Does s (.produce p after) c ⟨s, [.destroy], []⟩
  | produceDetached (p : Bytes) (after : After) (c : Choice) (b : ReplayBuffer) (hp : p ≠ [])
    (hd : s.dead = false) (hf : s.downBuf.free ≠ 0)
    (hb : s.downBuf.append (p.take (min p.length s.downBuf.free)) = some b)
    (ht : s.tconn = none) : Does s (.produce p after) c
    ⟨{ s with downBuf := b }, [.produce (p.drop (min p.length s.downBuf.free)) after],
      if s.requestOutstanding then [.wake] else []⟩
  | produceSent (p : Bytes) (after : After) (b : ReplayBuffer) (tc : ConnId) (hp : p ≠ [])
    (hd : s.dead = false) (hf : s.downBuf.free ≠ 0)
    (hb : s.downBuf.append (p.take (min p.length s.downBuf.free)) = some b)
    (ht : s.tconn = some tc)
    (hm : (p.take (min p.length s.downBuf.free)).length ≤ maxPayload) :
    Does s (.produce p after) .ok
    ⟨{ s with downBuf := b }, [.produce (p.drop (min p.length s.downBuf.free)) after],
      [.frame tc (.data s.sessionID s.downBuf.endOffset
        (p.take (min p.length s.downBuf.free)))]⟩
  | produceLost (p : Bytes) (after : After) (n : ℕ) (text : Bytes) (b : ReplayBuffer)
    (tc : ConnId) (hp : p ≠ []) (hd : s.dead = false) (hf : s.downBuf.free ≠ 0)
    (hb : s.downBuf.append (p.take (min p.length s.downBuf.free)) = some b)
    (ht : s.tconn = some tc) : Does s (.produce p after) (.fail n text)
    ⟨{ s with downBuf := b, tconn := none },
      [.produce (p.drop (min p.length s.downBuf.free)) after],
      if s.requestOutstanding then [.wake] else []⟩
  | onDataDropped (offset : ℕ) (p : Bytes) (c : Choice)
    (h : s.dead = true ∨ s.position < offset ∨ offset < s.position ∧ offset + p.length ≤ s.position) :
    Does s (.onData offset p) c ⟨s, [], []⟩
  | onDataQueued (offset : ℕ) (p : Bytes) (c : Choice) (hd : s.dead = false)
    (hc : s.connected = false) (ho : offset ≤ s.position)
    (hl : offset = s.position ∨ s.position < offset + p.length) : Does s (.onData offset p) c
    ⟨{ s with preConn := s.preConn ++ p.drop (s.position - offset) }, [], []⟩
  | onDataAdmitted (offset : ℕ) (p : Bytes) (c : Choice) (hd : s.dead = false)
    (hc : s.connected = true) (ho : offset ≤ s.upstreamWritten)
    (hl : offset = s.upstreamWritten ∨ s.upstreamWritten < offset + p.length) :
    Does s (.onData offset p) c ⟨s, [.upWrite (p.drop (s.upstreamWritten - offset))], []⟩
  | upWriteOk (p : Bytes) (hd : s.dead = false) :
    Does s (.upWrite p) .ok ⟨s, [.onDataWritten p.length], [.upstream p]⟩
  | upWriteFail (p : Bytes) (n : ℕ) (text : Bytes) : Does s (.upWrite p) (.fail n text)
    ⟨s, [.closeUpstream (.err text)], [.upstream (if s.dead then [] else p.take n)]⟩
  | onDataWritten (n : ℕ) (c : Choice) : Does s (.onDataWritten n) c
    ⟨{ s with
        upstreamWritten := s.upstreamWritten + n, requestOutstanding := true, watchdog := true },
      [.send (.ack s.sessionID (s.upstreamWritten + n))], []⟩
  | ackDrained (offset : ℕ) (c : Choice) (h : (s.downBuf.trimTo offset).buf = []) :
    Does s (.onDownstreamAck offset) c
    ⟨{ s with downBuf := s.downBuf.trimTo offset, requestOutstanding := false }, [], []⟩
  | ackKept (offset : ℕ) (c : Choice) (h : (s.downBuf.trimTo offset).buf ≠ []) :
    Does s (.onDownstreamAck offset) c ⟨{ s with downBuf := s.downBuf.trimTo offset }, [], []⟩
  | attach (offset : ℕ) (c : Choice) : Does s (.onSidecarAttach offset) c
    ⟨s, (s.onSidecarAttach offset).map .send, []⟩
  | closeOther (dir : UInt8) (c : Choice) (h : dir ≠ dirUp) :
    Does s (.onSidecarClose dir) c ⟨s, [], []⟩
  | closeUp (c : Choice) (hu : s.upstream = true) : Does s (.onSidecarClose dirUp) c
    ⟨{ s with upClosed := true }, [.closeWrite, .maybeDestroy], []⟩
  | closeUpEarly (c : Choice) (hu : s.upstream = false) : Does s (.onSidecarClose dirUp) c
    ⟨{ s with upClosed := true }, [.maybeDestroy], []⟩
  | closeWrite (c : Choice) : Does s .closeWrite c ⟨s, [], [.closeWrite]⟩
  | closedAgain (cause : Cause) (c : Choice) (h : s.downClosed = true) :
    Does s (.closeUpstream cause) c ⟨s, [], []⟩
  | closedBound (cause : Cause) (c : Choice) (h : s.downClosed = false) (tc : ConnId)
    (ht : s.tconn = some tc) : Does s (.closeUpstream cause) c
    ⟨{ s with downClosed := true },
      [.send (.close s.sessionID dirDown cause.reason), .maybeDestroy], []⟩
  | closedPending (cause : Cause) (c : Choice) (h : s.downClosed = false) (ht : s.tconn = none)
    (hr : s.requestOutstanding = true) : Does s (.closeUpstream cause) c
    ⟨{ s with downClosed := true }, [.wake, .maybeDestroy], []⟩
  | closedQuiet (cause : Cause) (c : Choice) (h : s.downClosed = false) (ht : s.tconn = none)
    (hr : s.requestOutstanding = false) : Does s (.closeUpstream cause) c
    ⟨{ s with downClosed := true }, [.maybeDestroy], []⟩
  | sendNone (m : Msg) (c : Choice) (h : s.tconn = none) : Does s (.send m) c ⟨s, [], []⟩
  | sendSome (m : Msg) (c : Choice) (tc : ConnId) (h : s.tconn = some tc) :
    Does s (.send m) c ⟨s, [.write tc m], []⟩
  | writeOk (tc : ConnId) (m : Msg) (hm : m.Sendable) :
    Does s (.write tc m) .ok ⟨s, [], [.frame tc m]⟩
  | writeFail (tc : ConnId) (m : Msg) (n : ℕ) (text : Bytes) :
    Does s (.write tc m) (.fail n text) ⟨s, [.detach tc], []⟩
  | wake (c : Choice) : Does s .wake c ⟨s, [], [.wake]⟩
  | notDone (c : Choice) (h : s.done = false) : Does s .maybeDestroy c ⟨s, [], []⟩
  | done (c : Choice) (h : s.done = true) : Does s .maybeDestroy c ⟨s, [.destroy], []⟩
  | destroyAgain (c : Choice) (hd : s.dead = true) : Does s .destroy c ⟨s, [], []⟩
  | destroy (c : Choice) (hd : s.dead = false) : Does s .destroy c
    ⟨{ s with dead := true, watchdog := false }, [.removeSession], []⟩
  | removeSession (c : Choice) : Does s .removeSession c ⟨s, [], [.removeSession]⟩
  | watchdogWake (c : Choice) (h : s.watchdogWakes = true) : Does s .watchdog c ⟨s, [.wake], []⟩
  | watchdogQuiet (c : Choice) (h : s.watchdogWakes = false) : Does s .watchdog c ⟨s, [], []⟩

theorem detach_does (s : Session) (tc : ConnId) (c : Choice) : Does s (.detach tc) c
    ⟨(s.detach tc).1, if (s.detach tc).2 then [.wake] else [], []⟩ := by
  have hu : (s.requestOutstanding && (decide (0 < s.downBuf.len) || s.downClosed)) = true ↔
      s.Undelivered := by
    simp [Session.Undelivered, ReplayBuffer.len, List.length_pos_iff]
  unfold Session.detach
  by_cases ht : s.tconn = some tc
  · rw [if_neg (not_not.mpr ht)]
    by_cases hw : s.Undelivered
    · rw [if_pos (hu.mpr hw)]
      exact .detachWake tc c ht hw
    · rw [if_neg (hw ∘ hu.mp)]
      exact .detachQuiet tc c ht hw
  · rw [if_pos ht]
    exact .detachStale tc c ht

theorem produce_does {s : Session} {p : Bytes} {after : After} {c : Choice} {r : Result}
    (h : execProduce s p after c = some r) : Does s (.produce p after) c r := by
  unfold execProduce at h
  split_ifs at h with hp hd hf
  · obtain rfl := Option.some.inj h
    exact hp ▸ .produceDone after c
  · obtain rfl := Option.some.inj h
    exact .produceDead p after c hp hd
  · -- the chunk is cut to the free space, so `Append` cannot fail
    obtain ⟨b, hb⟩ := s.downBuf.append_take_free p
    have hs : s.produce p = some { s with downBuf := b } := by
      simp only [Session.produce, Session.nextChunk, hb, Option.map_some]
    have hd' : s.dead = false := by simpa using hd
    have hl : (s.nextChunk p).1.length = min p.length s.downBuf.free := by
      simp [Session.nextChunk]
    rw [hs] at h
    simp only [hl] at h
    split at h
    · obtain rfl := Option.some.inj h
      exact .produceDetached p after _ b hp hd' hf hb (by assumption)
    · split_ifs at h with hm
      obtain rfl := Option.some.inj h
      exact .produceSent p after b _ hp hd' hf hb (by assumption) (Msg.sendable_data.mp hm)
    · obtain rfl := Option.some.inj h
      exact .produceLost p after _ _ b _ hp hd' hf hb (by assumption)
    · cases h

theorem onData_does (s : Session) (offset : ℕ) (p : Bytes) (c : Choice) :
    Does s (.onData offset p) c ⟨(s.onData offset p).1,
      match (s.onData offset p).2 with | none => [] | some q => [.upWrite q], []⟩ := by
  unfold Session.onData
  by_cases hd : s.dead = true
  · rw [if_pos hd]
    exact .onDataDropped offset p c (.inl hd)
  have hd' : s.dead = false := by simpa using hd
  rw [if_neg hd]
  by_cases hc : s.connected = true
  · have hpos : s.position = s.upstreamWritten := if_pos hc
    rw [if_neg (by simp [hc])]
    split_ifs with h1 h2 h3
    · exact .onDataDropped offset p c (.inr (.inr ⟨by omega, by omega⟩))
    · exact .onDataAdmitted offset p c hd' hc h1.le (.inr (by omega))
    · exact .onDataDropped offset p c (.inr (.inl (by omega)))
    · have ho : offset = s.upstreamWritten := by omega
      have := Does.onDataAdmitted (s := s) offset p c hd' hc ho.le (.inl ho)
      rwa [ho, Nat.sub_self, List.drop_zero, ← ho] at this
  · have hc' : s.connected = false := by simpa using hc
    have hpos : s.position = s.upstreamWritten + s.preConn.length := if_neg hc
    rw [if_pos (by simp [hc'])]
    dsimp only
    rw [← hpos]
    split_ifs with h1 h2 h3
    · exact .onDataDropped offset p c (.inr (.inr ⟨h1, by omega⟩))
    · exact .onDataQueued offset p c hd' hc' h1.le (.inr (by omega))
    · exact .onDataDropped offset p c (.inr (.inl h3))
    · have ho : offset = s.position := by omega
      have := Does.onDataQueued (s := s) offset p c hd' hc' ho.le (.inl ho)
      rwa [ho, Nat.sub_self, List.drop_zero, ← ho] at this

theorem upstreamWrite_eq_some {s : Session} {p b : Bytes} {c : Choice} {e : Option Cause}
    (h : upstreamWrite s p c = some (b, e)) :
    (c = .ok ∧ s.dead = false ∧ b = p ∧ e = none) ∨
      ∃ n text, c = .fail n text ∧ b = (if s.dead then [] else p.take n) ∧ e = some (.err text) := by
  cases c with
  | ok =>
    simp only [upstreamWrite] at h
    split_ifs at h with hd
    obtain ⟨rfl, rfl⟩ := Prod.mk.inj (Option.some.inj h)
    exact .inl ⟨rfl, by simpa using hd, rfl, rfl⟩
  | fail n text =>
    obtain ⟨rfl, rfl⟩ := Prod.mk.inj (Option.some.inj h)
    exact .inr ⟨n, text, rfl, rfl, rfl⟩
  | read => cases h

/-- `exec` does one of the things `Does` lists. -/
theorem exec_does {s : Session} {a : Act} {c : Choice} {r : Result} (h : exec s a c = some r) :
    Does s a c r := by
  cases a with
  | bind tc => cases h; exact .bind tc c
  | register tc => cases h; exact .register tc c
  | detach tc => cases h; exact detach_does s tc c
  | dial =>
    cases c with
    | ok => cases h; exact .dialOk
    | fail n text => cases h; exact .dialFail n text
    | read => cases h
  | dialed =>
    simp only [exec, Session.dialed] at h
    by_cases hd : s.dead = true
    · rw [if_pos hd] at h
      cases h
      exact .dialedDead c hd
    · have hd' : s.dead = false := by simpa using hd
      rw [if_neg hd] at h
      dsimp only at h
      split_ifs at h with hp
      · cases h
        exact .dialedFlush c hd' (List.length_pos_iff.mp hp)
      · cases h
        exact .dialedRead c hd' (by simpa using hp)
  | flush pre =>
    simp only [exec] at h
    split at h
    · cases h
    · rename_i b hw
      obtain ⟨rfl, hd, rfl, -⟩ | ⟨n, text, -, -, he⟩ := upstreamWrite_eq_some hw
      · cases h; exact .flushOk b hd
      · cases he
    · rename_i b cause hw
      obtain ⟨-, -, -, he⟩ | ⟨n, text, rfl, rfl, he⟩ := upstreamWrite_eq_some hw
      · cases he
      · cases he; cases h; exact .flushFail pre n text
  | flushed n => cases h; exact .flushed n c
  | readUpstream =>
    cases c with
    | read p err =>
      simp only [exec] at h
      split_ifs at h with hc
      rw [not_or, Nat.not_lt, not_and, not_or, not_ne_iff] at hc
      cases err <;> cases h <;> exact .read p _ hc.1 hc.2
    | ok => cases h
    | fail => cases h
  | produce p after => exact produce_does h
  | onData offset p => cases h; exact onData_does s offset p c
  | upWrite p =>
    simp only [exec] at h
    split at h
    · cases h
    · rename_i b hw
      obtain ⟨rfl, hd, rfl, -⟩ | ⟨n, text, -, -, he⟩ := upstreamWrite_eq_some hw
      · cases h; exact .upWriteOk b hd
      · cases he
    · rename_i b cause hw
      obtain ⟨-, -, -, he⟩ | ⟨n, text, rfl, rfl, he⟩ := upstreamWrite_eq_some hw
      · cases he
      · cases he; cases h; exact .upWriteFail p n text
  | onDataWritten n => cases h; exact .onDataWritten n c
  | onDownstreamAck offset =>
    simp only [exec, Session.onDownstreamAck, ReplayBuffer.len_eq_zero] at h
    split_ifs at h with hb
    · cases h; exact .ackDrained offset c hb
    · cases h; exact .ackKept offset c hb
  | onSidecarAttach offset => cases h; exact .attach offset c
  | onSidecarClose dir =>
    simp only [exec] at h
    by_cases hd : dir = dirUp
    · rw [if_neg (not_not.mpr hd)] at h
      subst hd
      cases hu : s.upstream with
      | true =>
        rw [if_pos (show s.onSidecarClose.2 = true from hu)] at h
        cases h
        exact .closeUp c hu
      | false =>
        rw [if_neg (show ¬s.onSidecarClose.2 = true by simp [Session.onSidecarClose, hu])] at h
        cases h
        exact .closeUpEarly c hu
    · rw [if_pos hd] at h
      cases h
      exact .closeOther dir c hd
  | closeWrite => cases h; exact .closeWrite c
  | closeUpstream cause =>
    simp only [exec, Session.closeUpstream] at h
    by_cases hd : s.downClosed = true
    · rw [if_pos hd] at h
      cases h
      exact .closedAgain cause c hd
    · have hd' : s.downClosed = false := by simpa using hd
      rw [if_neg hd] at h
      dsimp only at h
      cases h
      rcases s.tconn.eq_none_or_eq_some with ht | ⟨tc, ht⟩
      · rw [if_neg (by simp [ht])]
        split_ifs with hr
        · exact .closedPending cause c hd' ht hr
        · exact .closedQuiet cause c hd' ht (by simpa using hr)
      · rw [if_pos (by simp [ht])]
        exact .closedBound cause c hd' tc ht
  | send m =>
    simp only [exec] at h
    split at h
    · cases h; exact .sendNone m c (by assumption)
    · cases h; exact .sendSome m c _ (by assumption)
  | write tc m =>
    cases c with
    | ok =>
      simp only [exec] at h
      split_ifs at h with hm
      cases h
      exact .writeOk tc m hm
    | fail n text => cases h; exact .writeFail tc m n text
    | read => cases h
  | wake => cases h; exact .wake c
  | maybeDestroy =>
    simp only [exec] at h
    split_ifs at h with hd
    · cases h; exact .done c hd
    · cases h; exact .notDone c (by simpa using hd)
  | destroy =>
    simp only [exec, Session.destroy] at h
    by_cases hd : s.dead = true
    · rw [if_pos hd] at h
      cases h
      exact .destroyAgain c hd
    · rw [if_neg hd] at h
      cases h
      exact .destroy c (by simpa using hd)
  | removeSession => cases h; exact .removeSession c
  | watchdog =>
    simp only [exec] at h
    split_ifs at h with hw
    · cases h; exact .watchdogWake c hw
    · cases h; exact .watchdogQuiet c (by simpa using hw)

/-- What one step can do: a goroutine starts, a timer fires, or one action is replaced by what
it leaves to do. -/
theorem step_cases {w w' : World} {e : Event} (h : step w e = some w') :
    (∃ hd, e = .call hd ∧ w' = { w with threads := w.threads ++ [hd.acts] }) ∨
    (e = .fire ∧ w' = { w with
      s := { w.s with watchdog := false }, threads := w.threads ++ [[.watchdog]] }) ∨
    ∃ c a rest r L R, e = .run L.length c ∧ w.threads = L ++ (a :: rest) :: R ∧
      Does w.s a c r ∧ w' = w.after r (L ++ (r.push ++ rest) :: R) := by
  cases e with
  | call hd => exact .inl ⟨hd, rfl, (Option.some.inj h).symm⟩
  | fire =>
    simp only [step] at h
    split_ifs at h
    exact .inr (.inl ⟨rfl, (Option.some.inj h).symm⟩)
  | run i c =>
    simp only [step] at h
    split at h
    · rename_i a rest ht
      obtain ⟨r, hr, rfl⟩ := Option.map_eq_some_iff.mp h
      obtain ⟨L, R, hts, rfl, hset⟩ := threads_split ht
      exact .inr (.inr ⟨c, a, rest, r, L, R, rfl, hts, exec_does hr, by rw [hset]⟩)
    · cases h

/-- `step_cases` for what does not depend on which goroutine an action belongs to. -/
theorem step_pending {w w' : World} {e : Event} (h : step w e = some w') :
    (∃ hd, e = .call hd ∧ w' = { w with threads := w.threads ++ [hd.acts] } ∧
      w'.pending = w.pending ++ hd.acts) ∨
    (e = .fire ∧ w' = { w with
      s := { w.s with watchdog := false }, threads := w.threads ++ [[.watchdog]] } ∧
      w'.pending = w.pending ++ [.watchdog]) ∨
    ∃ i c a r X Y, e = .run i c ∧ w.next i = some a ∧ Does w.s a c r ∧
      w.pending = X ++ a :: Y ∧ w'.pending = X ++ (r.push ++ Y) ∧
      ∃ ts, w' = w.after r ts := by
  obtain ⟨hd, rfl, rfl⟩ | ⟨rfl, rfl⟩ | ⟨c, a, rest, r, L, R, rfl, hts, hr, rfl⟩ := step_cases h
  · exact .inl ⟨hd, rfl, rfl, by simp [World.pending]⟩
  · exact .inr (.inl ⟨rfl, rfl, by simp [World.pending]⟩)
  · refine .inr (.inr ⟨L.length, c, a, r, L.flatten, rest ++ R.flatten, rfl, ?_, hr, ?_, ?_, _, rfl⟩)
    · simp [World.next, hts]
    · simp [World.pending, hts]
    · simp [World.pending, World.after]

/-- Only the first `destroy` ends a session, and only its goroutine removes the key. -/
theorem Does.dead_eq {s : Session} {a : Act} {c : Choice} {r : Result} (h : Does s a c r)
    (ha : a = .destroy → s.dead = true) : r.s.dead = s.dead ∧ .removeSession ∉ r.push ∧
      (a ≠ .removeSession → .removeSession ∉ r.eff) := by
  cases h with
  | produceDone after => cases after <;> simp [After.acts]
  | _ => simp_all

theorem Does.dead_mono {s : Session} {a : Act} {c : Choice} {r : Result} (h : Does s a c r)
    (hd : s.dead = true) : r.s.dead = true := by
  rw [(h.dead_eq fun _ => hd).1, hd]

theorem Does.bytes_of_dead {s : Session} {a : Act} {c : Choice} {r : Result} (h : Does s a c r)
    (hd : s.dead = true) : r.eff.flatMap Effect.bytes = [] := by
  cases h with
  | flushOk | upWriteOk | produceSent => simp_all
  | flushFail | upWriteFail => simp [hd, Effect.bytes]
  | produceDetached | produceLost => split_ifs <;> rfl
  | _ => rfl

/-! ## The upstream direction -/

/-- The actions that the bytes on their way to the destination depend on. -/
def Act.up : Act → Bool
  | .dialed | .flush _ | .flushed _ | .onData _ _ | .upWrite _ | .onDataWritten _ => true
  | _ => false

/-- The actions of a dial that still has pre-connect bytes to write or to record. -/
def Act.flushing : Act → Bool
  | .flush _ | .flushed _ => true
  | _ => false

/-- The bytes that an action is about to write or to record. -/
def Act.carrying : Act → ℕ
  | .upWrite p | .flush p => p.length
  | .onDataWritten n | .flushed n => n
  | _ => 0

theorem Does.frame_up {s : Session} {a : Act} {c : Choice} {r : Result} (h : Does s a c r)
    (ha : a.up = false) : r.s.connected = s.connected ∧ r.s.preConn = s.preConn ∧
      r.s.upstreamWritten = s.upstreamWritten ∧ r.eff.flatMap Effect.bytes = [] ∧
      ∀ b ∈ r.push, b.up = true → a = .dial ∧ b = .dialed := by
  cases h with
  | produceDone after => cases after <;> simp [After.acts, Act.up]
  | _ => simp_all [Act.up, Effect.bytes]

theorem Does.dial_notMem {s : Session} {a : Act} {c : Choice} {r : Result} (h : Does s a c r) :
    .dial ∉ r.push := by
  cases h with
  | produceDone after => cases after <;> simp [After.acts]
  | _ => simp

end SubstratePoc.Broker
