import SubstratePoc.Broker.Inversion
import SubstratePoc.Sidecar.Session

namespace SubstratePoc.Broker
open Lib Tunnel Sidecar

def payloads (ms : List Msg) : List Bytes :=
  ms.filterMap fun m => match m with | .data _ _ p => some p | _ => none

/-- `ms` replays everything `b` retains from `offset` on, in DATA frames that `WriteFrame`
accepts. -/
def Replays (ms : List Msg) (b : ReplayBuffer) (offset : ℕ) : Prop :=
  (∀ sid o p, .data sid o p ∈ ms → (Msg.data sid o p).Sendable) ∧
    (payloads ms).flatten = b.buf.drop (offset - b.base)

theorem onSidecarAttach_eq {s : Session} {d : ℕ} (h1 : s.downBuf.base ≤ d)
    (h2 : d ≤ s.downBuf.endOffset) :
    s.onSidecarAttach d = [.attachOK s.sessionID s.upstreamWritten] ++
      (if d < s.downBuf.endOffset then
        [.data s.sessionID d (s.downBuf.buf.drop (d - s.downBuf.base))] else []) ++
      (if s.downClosed then [.close s.sessionID dirDown upstreamEOF] else []) := by
  have hend : (s.downBuf.endOffset == d + (s.downBuf.endOffset - d)) = true := by
    rw [Nat.add_sub_cancel' h2]
    simp
  simp only [Session.onSidecarAttach, ReplayBuffer.fromOffset_ok h1 h2,
    ReplayBuffer.length_drop_base h1, hend, Bool.and_true, Nat.sub_pos_iff_lt]

theorem replays_iff (pre post : List Msg) {b : ReplayBuffer} {offset : ℕ} (sid : UInt64)
    (h1 : b.base ≤ offset) (h2 : offset ≤ b.endOffset)
    (hpre : payloads pre = []) (hpost : payloads post = []) :
    Replays (pre ++ (if offset < b.endOffset then
      [.data sid offset (b.buf.drop (offset - b.base))] else []) ++ post) b offset ↔
      b.endOffset - offset ≤ maxPayload := by
  -- one frame of everything that is retained from `offset` on
  have hnone : ∀ ms, payloads ms = [] → ∀ sid o p, Msg.data sid o p ∉ ms := by
    intro ms hms sid o p hmem
    have : p ∈ payloads ms := List.mem_filterMap.mpr ⟨_, hmem, rfl⟩
    rw [hms] at this
    cases this
  have hlen := ReplayBuffer.length_drop_base h1
  by_cases hlt : offset < b.endOffset
  · rw [if_pos hlt]
    constructor
    · rintro ⟨hsend, -⟩
      have h := hsend sid offset (b.buf.drop (offset - b.base)) (by simp)
      rwa [Msg.sendable_data, hlen] at h
    · intro hle
      refine ⟨?_, ?_⟩
      · intro sid' o p hmem
        simp only [List.mem_append, List.mem_singleton] at hmem
        rcases hmem with (hmem | hmem) | hmem
        · exact absurd hmem (hnone _ hpre _ _ _)
        · obtain ⟨-, -, rfl⟩ := Msg.data.inj hmem
          rwa [Msg.sendable_data, hlen]
        · exact absurd hmem (hnone _ hpost _ _ _)
      · simp only [payloads, List.filterMap_append] at hpre hpost ⊢
        simp [hpre, hpost]
  · rw [if_neg hlt]
    have hnil : b.buf.drop (offset - b.base) = [] := by
      rw [← List.length_eq_zero_iff, hlen]
      omega
    refine ⟨fun _ => by omega, fun _ => ⟨?_, ?_⟩⟩
    · intro sid' o p hmem
      simp only [List.append_nil, List.mem_append] at hmem
      exact hmem.elim (fun h => absurd h (hnone _ hpre _ _ _)) fun h => absurd h (hnone _ hpost _ _ _)
    · simp only [payloads, List.filterMap_append] at hpre hpost ⊢
      simp [hpre, hpost, hnil]

/-- Both directions: what is replayed can be sent, and is everything retained, exactly if it
fits into one frame. -/
theorem replays_iff_le_maxPayload (s : Session) (cs : ClientSession) {d o : ℕ}
    (hd : s.downBuf.base ≤ d ∧ d ≤ s.downBuf.endOffset)
    (ho : cs.upBuf.base ≤ o ∧ o ≤ cs.upBuf.endOffset) :
    (Replays (s.onSidecarAttach d) s.downBuf d ↔ s.downBuf.endOffset - d ≤ maxPayload) ∧
      (Replays (cs.onAttachOK o).2 cs.upBuf o ↔ cs.upBuf.endOffset - o ≤ maxPayload) := by
  constructor
  · rw [onSidecarAttach_eq hd.1 hd.2]
    apply replays_iff _ _ _ hd.1 hd.2
    · rfl
    · split_ifs <;> rfl
  · rw [ClientSession.onAttachOK_eq ho.1 ho.2]
    have h := replays_iff [] [] cs.sessionID ho.1 ho.2 rfl rfl
    rwa [List.nil_append, List.append_nil] at h

def partlyAcked : Session :=
  -- four bytes of the response are retained from offset 3 on
  { newSession 16 [] 1 [] with upstreamWritten := 6, downBuf := ⟨3, [5, 6, 7, 8], 16, by decide⟩ }

def partlyWritten : ClientSession :=
  -- three bytes of the request are retained from offset 5 on
  { newClientSession 16 1 [] with downDelivered := 5, upBuf := ⟨5, [1, 2, 3], 16, by decide⟩ }

theorem replays_partlyAcked :
    Replays (partlyAcked.onSidecarAttach 5) partlyAcked.downBuf 5 ∧
    payloads (partlyAcked.onSidecarAttach 5) = [[7, 8]] ∧
    Replays (partlyWritten.onAttachOK 6).2 partlyWritten.upBuf 6 ∧
    payloads (partlyWritten.onAttachOK 6).2 = [[2, 3]] := by
  have h := replays_iff_le_maxPayload partlyAcked partlyWritten (d := 5) (o := 6) (by decide)
    (by decide)
  exact ⟨h.1.mpr (by decide), by decide, h.2.mpr (by decide), by decide⟩

theorem not_replays_of_lt {s : Session} {d : ℕ} (h1 : s.downBuf.base ≤ d)
    (h2 : d + maxPayload < s.downBuf.endOffset) : ¬Replays (s.onSidecarAttach d) s.downBuf d := by
  rw [onSidecarAttach_eq h1 (by omega), replays_iff _ _ _ h1 (by omega) rfl (by split_ifs <;> rfl)]
  omega

/-- A session of the default buffer size that retains `buf` and has had nothing acknowledged. -/
def retaining (buf : Bytes) (h : buf.length ≤ 4 * 1024 * 1024) : Session :=
  { newSession (4 * 1024 * 1024) [] 1 [] with downBuf := ⟨0, buf, 4 * 1024 * 1024, h⟩ }

/-- A response that has grown one byte beyond a frame while the session was detached. -/
theorem not_replays_one_byte_more : ∃ (buf : Bytes) (h : buf.length ≤ 4 * 1024 * 1024),
    ¬Replays ((retaining buf h).onSidecarAttach 0) (retaining buf h).downBuf 0 := by
  refine ⟨List.replicate (maxPayload + 1) 0, ?_, not_replays_of_lt (Nat.zero_le _) ?_⟩
  · rw [List.length_replicate]
    decide
  · rw [ReplayBuffer.endOffset]
    simp only [retaining, List.length_replicate]
    omega

/-! ## The replay and live data -/

def World.sentOn (w : World) (tc : ConnId) : List Msg :=
  w.sent.filterMap fun x => if x.1 = tc then some x.2 else none

/-- Where the sidecar is when it has handled the frames written to `tc`. -/
def position (cs : ClientSession) (tc : ConnId) (w : World) : ℕ :=
  (cs.deliverAll (w.sentOn tc)).downDelivered

/-- One `attachSession` call that finds the session, and calls of `produceDownstream`. -/
def attaching (s : Session) (tc : ConnId) (d : ℕ) (ps : List Bytes) : World where
  s := s
  threads := [.bind tc, .onSidecarAttach d] :: ps.map fun p => [.produce p .ret]
  dest := []
  sent := []
  woke := false

/-- A replay that has been read off the session and is not written yet. -/
def Act.replays : Act → Bool
  | .send (.data _ _ _) | .write _ (.data _ _ _) => true
  | _ => false

/-- No chunk is sent between the reading of a replay and its write. -/
def unhindered (w : World) : Event → Bool
  | .run i _ => match w.next i with
    | some (.produce p _) => p = [] || !w.pending.any Act.replays
    | _ => true
  | _ => true

/-- The sidecar has the whole buffer when the new connection is bound. -/
def caughtUp (cs : ClientSession) (w : World) : Event → Bool
  | .run i _ => match w.next i with
    | some (.bind _) => cs.downDelivered = w.s.downBuf.endOffset
    | _ => true
  | _ => true

/-- The frame an action is about to write to the bound connection. -/
def Act.msg : Act → Option Msg
  | .send m | .write _ m => some m
  | _ => none

/-- Where the sidecar will be when the frames in `t` have been written, too. -/
def eventually (cs : ClientSession) (tc : ConnId) (w : World) (t : List Act) : ℕ :=
  (cs.deliverAll (w.sentOn tc ++ t.filterMap Act.msg)).downDelivered

/-- The attaching goroutine has `t` left to do, the others produce. -/
structure Attaching (tc : ConnId) (d : ℕ) (w : World) (t : List Act) : Prop where
  threads : ∃ others, w.threads = t :: others ∧ ∀ u ∈ others, u = [] ∨ ∃ p, u = [.produce p .ret]
  dead : w.s.dead = false
  base_le : w.s.downBuf.base ≤ d
  le_endOffset : d ≤ w.s.downBuf.endOffset

/-- The attaching goroutine before its `bind`. -/
structure Unbound (cs : ClientSession) (tc : ConnId) (w : World) (t : List Act) : Prop where
  acts : t = [.bind tc, .onSidecarAttach cs.downDelivered]
  tconn : w.s.tconn ≠ some tc
  sent : w.sentOn tc = []

/-- The stages of an attach that loses nothing; `level` says that the sidecar had the whole buffer
when the connection was bound. -/
inductive Stage (cs : ClientSession) (tc : ConnId) (w : World) (level : Bool) (t : List Act) : Prop
  | read (ht : w.s.tconn = some tc)
    (hpos : position cs tc w = if level then w.s.downBuf.endOffset else cs.downDelivered)
    (hlt : level = false → cs.downDelivered < w.s.downBuf.endOffset)
    (hl : t = [.register tc, .onSidecarAttach cs.downDelivered] ∨
      t = [.onSidecarAttach cs.downDelivered])
  | write (ht : w.s.tconn = some tc)
    (hacts : ∀ a ∈ t, (∃ m, a = .send m) ∨ ∃ m, a = .write tc m)
    (hle : ∀ sid o p, .data sid o p ∈ t.filterMap Act.msg → o + p.length ≤ w.s.downBuf.endOffset)
    (hev : eventually cs tc w t = w.s.downBuf.endOffset)
    (hlevel : level = true → position cs tc w = w.s.downBuf.endOffset)
    (hone : t.countP Act.replays ≤ 1)
    (hlt : level = false → t.any Act.replays = true →
      position cs tc w < w.s.downBuf.endOffset)

/-- A chunk is lost: the sidecar will stop before the end of the buffer. -/
structure Short (cs : ClientSession) (tc : ConnId) (w : World) (t : List Act) : Prop where
  tconn : w.s.tconn = some tc
  acts : ∀ a ∈ t, (∃ m, a = .send m) ∨ ∃ m, a = .write tc m
  lt : eventually cs tc w t < w.s.downBuf.endOffset

theorem sentOn_after (w : World) (r : Result) (ts : List (List Act)) (tc : ConnId) :
    (w.after r ts).sentOn tc = w.sentOn tc ++
      (r.eff.filterMap Effect.msg).filterMap fun x => if x.1 = tc then some x.2 else none :=
  List.filterMap_append ..

theorem Does.produce_ok {s : Session} {p : Bytes} {r : Result} (h : Does s (.produce p .ret) .ok r)
    (hd : s.dead = false) : r = ⟨s, [], []⟩ ∨ p ≠ [] ∧ ∃ q p' b, q ≠ [] ∧
      s.downBuf.append q = some b ∧ r.s = { s with downBuf := b } ∧ r.push = [.produce p' .ret] ∧
      r.eff.filterMap Effect.msg =
        (s.tconn.map fun tc => (tc, Msg.data s.sessionID s.downBuf.endOffset q)).toList := by
  -- one round of a producer whose tunnel write, if there is one, succeeds
  have hq : p ≠ [] → s.downBuf.free ≠ 0 → p.take (min p.length s.downBuf.free) ≠ [] := by
    intro hp hf
    have hpos := List.length_pos_iff.mpr hp
    rw [ne_eq, List.take_eq_nil_iff, not_or]
    exact ⟨by omega, hp⟩
  cases h with
  | produceDone => exact .inl rfl
  | produceDead _ _ _ _ hd' => simp [hd] at hd'
  | produceDetached _ _ _ b hp _ hf hb ht =>
    refine .inr ⟨hp, _, _, b, hq hp hf, hb, rfl, rfl, ?_⟩
    rw [ht]
    split_ifs <;> rfl
  | produceSent _ _ b tc hp _ hf hb ht =>
    refine .inr ⟨hp, _, _, b, hq hp hf, hb, rfl, rfl, ?_⟩
    rw [ht]
    rfl

theorem Attaching.step {tc : ConnId} {d i : ℕ} {w w' : World} {t : List Act}
    (hA : Attaching tc d w t) (h : step w (.run i .ok) = some w') :
    (∃ a rest r ts, t = a :: rest ∧ w.next i = some a ∧ Does w.s a .ok r ∧ w' = w.after r ts ∧
      (r.s.dead = w.s.dead → r.s.downBuf = w.s.downBuf → Attaching tc d w' (r.push ++ rest))) ∨
    ∃ p r ts, w.next i = some (.produce p .ret) ∧ Does w.s (.produce p .ret) .ok r ∧
      w' = w.after r ts ∧ Attaching tc d w' t := by
  -- a step of the attaching goroutine, or a round of a producer
  obtain ⟨others, hts, hothers⟩ := hA.threads
  obtain ⟨hd, he, -⟩ | ⟨he, -⟩ | ⟨c, a, rest, r, L, R, he, hts', hr, rfl⟩ := step_cases h
  · cases he
  · cases he
  cases he
  have hn : w.next L.length = some a := by simp [World.next, hts']
  rw [hts] at hts'
  cases L with
  | nil =>
    obtain ⟨rfl, rfl⟩ := List.cons.inj hts'
    refine .inl ⟨a, rest, r, _, rfl, hn, hr, rfl, ?_⟩
    intro hdead hbuf
    refine ⟨⟨others, rfl, hothers⟩, hdead.trans hA.dead, ?_, ?_⟩
    · exact hbuf ▸ hA.base_le
    · exact hbuf ▸ hA.le_endOffset
  | cons u L =>
    obtain ⟨rfl, rfl⟩ := List.cons.inj hts'
    obtain ⟨p, hp⟩ := (hothers (a :: rest) (by simp)).resolve_left (by simp)
    obtain ⟨rfl, rfl⟩ := List.cons.inj hp
    have hkeep : r.s.dead = false ∧ r.s.downBuf.base ≤ d ∧ d ≤ r.s.downBuf.endOffset ∧
        (r.push = [] ∨ ∃ p', r.push = [.produce p' .ret]) := by
      have hbase := hA.base_le
      have hle := hA.le_endOffset
      rcases hr.produce_ok hA.dead with rfl | ⟨-, q, p', b, -, hb, hs, hpush, -⟩
      · exact ⟨hA.dead, hbase, hle, .inl rfl⟩
      · rw [hs, (ReplayBuffer.append_eq_some hb).1, ReplayBuffer.endOffset_append hb]
        exact ⟨hA.dead, hbase, by omega, .inr ⟨p', hpush⟩⟩
    refine .inr ⟨p, r, _, hn, hr, rfl, ⟨L ++ (r.push ++ []) :: R, rfl, ?_⟩, hkeep.1, hkeep.2.1,
      hkeep.2.2.1⟩
    intro v hv
    rw [List.mem_append, List.mem_cons, List.append_nil] at hv
    rcases hv with hv | rfl | hv
    · exact hothers v (by simp [hv])
    · exact hkeep.2.2.2
    · exact hothers v (by simp [hv])

theorem Attaching.any_replays {tc : ConnId} {d : ℕ} {w : World} {t : List Act}
    (hA : Attaching tc d w t) : w.pending.any Act.replays = t.any Act.replays := by
  obtain ⟨others, hts, hothers⟩ := hA.threads
  have hnone : others.flatten.any Act.replays = false := by
    rw [List.any_eq_false]
    intro a ha
    obtain ⟨u, hu, hau⟩ := List.mem_flatten.mp ha
    rcases hothers u hu with rfl | ⟨p, rfl⟩
    · cases hau
    · rw [List.mem_singleton.mp hau]
      simp [Act.replays]
  rw [World.pending, hts, List.flatten_cons, List.any_append, hnone, Bool.or_false]

theorem sentOn_produce {w : World} {r : Result} {tc : ConnId} {q : Bytes} (ts : List (List Act))
    (ht : w.s.tconn = some tc) (heff : r.eff.filterMap Effect.msg =
      (w.s.tconn.map fun tc => (tc, Msg.data w.s.sessionID w.s.downBuf.endOffset q)).toList) :
    (w.after r ts).sentOn tc =
      w.sentOn tc ++ [.data w.s.sessionID w.s.downBuf.endOffset q] := by
  rw [sentOn_after, heff, ht]
  simp

theorem eventually_gap (cs : ClientSession) (t : List Act) {w : World} {r : Result}
    {ts : List (List Act)} {tc : ConnId} {q : Bytes}
    (hs : (w.after r ts).sentOn tc = w.sentOn tc ++ [.data w.s.sessionID w.s.downBuf.endOffset q])
    (hpos : position cs tc w < w.s.downBuf.endOffset) :
    eventually cs tc (w.after r ts) t = eventually cs tc w t ∧
      position cs tc (w.after r ts) = position cs tc w := by
  have hdrop : cs.deliverAll (w.sentOn tc ++ [.data w.s.sessionID w.s.downBuf.endOffset q]) =
      cs.deliverAll (w.sentOn tc) := by
    rw [ClientSession.deliverAll_append]
    exact ClientSession.deliver_gap q hpos
  unfold eventually position
  rw [hs, ClientSession.deliverAll_append, hdrop, ← ClientSession.deliverAll_append]
  exact ⟨rfl, rfl⟩

theorem position_live {cs : ClientSession} {w : World} {r : Result} {ts : List (List Act)}
    {tc : ConnId} {q : Bytes} (hcs : cs.dead = false)
    (hs : (w.after r ts).sentOn tc = w.sentOn tc ++ [.data w.s.sessionID w.s.downBuf.endOffset q])
    (hpos : position cs tc w = w.s.downBuf.endOffset) :
    position cs tc (w.after r ts) = w.s.downBuf.endOffset + q.length := by
  unfold position at hpos ⊢
  rw [hs, ClientSession.deliverAll_append]
  have hdead : (cs.deliverAll (w.sentOn tc)).dead = false := by
    rw [ClientSession.dead_deliverAll, hcs]
  have h := ClientSession.downDelivered_deliver hdead w.s.downBuf.endOffset q
  rw [hpos, splice_self] at h
  exact h

theorem position_le_eventually {cs : ClientSession} (hcs : cs.dead = false) (tc : ConnId)
    (w : World) (t : List Act) : position cs tc w ≤ eventually cs tc w t := by
  unfold position eventually
  rw [ClientSession.deliverAll_append]
  apply ClientSession.le_downDelivered_deliverAll
  rw [ClientSession.dead_deliverAll, hcs]

theorem eventually_of_no_replays {cs : ClientSession} (hcs : cs.dead = false) (tc : ConnId)
    (w : World) {t : List Act} (ht : t.any Act.replays = false) :
    eventually cs tc w t = position cs tc w := by
  apply le_antisymm _ (position_le_eventually hcs tc w t)
  unfold eventually
  rw [ClientSession.deliverAll_append]
  apply ClientSession.downDelivered_deliverAll_le _ le_rfl
  · intro sid o p hmem
    obtain ⟨a, ha, hm⟩ := List.mem_filterMap.mp hmem
    rw [List.any_eq_false] at ht
    cases a <;> simp [Act.msg] at hm <;> subst hm <;> exact absurd rfl (ht _ ha)
  · rw [ClientSession.dead_deliverAll, hcs]

theorem eventually_live {cs : ClientSession} {w : World} {r : Result} {ts : List (List Act)}
    {tc : ConnId} {q : Bytes} {t : List Act} (hcs : cs.dead = false)
    (hs : (w.after r ts).sentOn tc = w.sentOn tc ++ [.data w.s.sessionID w.s.downBuf.endOffset q])
    (hpos : position cs tc w = w.s.downBuf.endOffset)
    (hbound : ∀ sid o p, .data sid o p ∈ t.filterMap Act.msg →
      o + p.length ≤ w.s.downBuf.endOffset + q.length) :
    eventually cs tc (w.after r ts) t = w.s.downBuf.endOffset + q.length := by
  have hlive := position_live hcs hs hpos
  apply le_antisymm
  · unfold eventually
    rw [ClientSession.deliverAll_append]
    apply ClientSession.downDelivered_deliverAll_le
    · rw [ClientSession.dead_deliverAll, hcs]
    · exact hlive.le
    · exact hbound
  · exact hlive ▸ position_le_eventually hcs tc _ t

theorem eventually_idle (cs : ClientSession) (tc : ConnId) (w : World) (ts : List (List Act))
    (t : List Act) : eventually cs tc (w.after ⟨w.s, [], []⟩ ts) t = eventually cs tc w t := by
  simp [eventually, sentOn_after]

theorem Unbound.produce {cs : ClientSession} {tc : ConnId} {w : World} {t : List Act} {p : Bytes}
    {r : Result} (ts : List (List Act)) (hU : Unbound cs tc w t) (hd : w.s.dead = false)
    (hr : Does w.s (.produce p .ret) .ok r) : Unbound cs tc (w.after r ts) t := by
  rcases hr.produce_ok hd with rfl | ⟨-, q, p', b, -, -, hs, -, heff⟩
  · exact ⟨hU.acts, hU.tconn, by simpa [sentOn_after] using hU.sent⟩
  · -- the chunk goes to an older connection, if to any
    have ht := hU.tconn
    refine ⟨hU.acts, ?_, ?_⟩
    · change r.s.tconn ≠ some tc
      rw [hs]
      exact ht
    · rw [sentOn_after, hU.sent, heff]
      cases htc' : w.s.tconn with
      | none => rfl
      | some tc' => simp [show tc' ≠ tc from fun h => ht (h ▸ htc')]

theorem Stage.idle {cs : ClientSession} {tc : ConnId} {w : World} {t : List Act} {level : Bool}
    (hS : Stage cs tc w level t) (ts : List (List Act)) :
    Stage cs tc (w.after ⟨w.s, [], []⟩ ts) level t := by
  have hpos' : position cs tc (w.after ⟨w.s, [], []⟩ ts) = position cs tc w := by
    simp [position, sentOn_after]
  cases hS with
  | read ht hpos hlt hl => exact .read ht (hpos'.trans hpos) hlt hl
  | write ht hacts hle hev hlevel hone hlt =>
    refine .write ht hacts hle ((eventually_idle ..).trans hev) ?_ hone ?_
    · rw [hpos']
      exact hlevel
    · rw [hpos']
      exact hlt

/-- A chunk that is sent in the window is lost, unless the sidecar had everything before it. -/
theorem stage_produce {cs : ClientSession} {tc : ConnId} {w : World} {t : List Act} {level : Bool}
    {p : Bytes} {r : Result} (ts : List (List Act)) (hcs : cs.dead = false)
    (hA : Attaching tc cs.downDelivered w t) (hS : Stage cs tc w level t)
    (hr : Does w.s (.produce p .ret) .ok r) :
    (level = true ∨ p = [] ∨ t.any Act.replays = false → Stage cs tc (w.after r ts) level t) ∧
      (level = false → p ≠ [] → t.any Act.replays = true → Short cs tc (w.after r ts) t) := by
  rcases hr.produce_ok hA.dead with rfl | ⟨hp, q, p', b, hq, hb, hs, -, heff⟩
  · -- nothing was left to produce
    have hp : p = [] := by
      generalize hr' : (⟨w.s, [], []⟩ : Result) = r at hr
      cases hr with
      | produceDone => rfl
      | _ => simp at hr'
    exact ⟨fun _ => hS.idle ts, fun _ hne => absurd hp hne⟩
  have hend : r.s.downBuf.endOffset = w.s.downBuf.endOffset + q.length := by
    rw [hs]
    exact ReplayBuffer.endOffset_append hb
  have hqpos := List.length_pos_iff.mpr hq
  have htc : r.s.tconn = w.s.tconn := by rw [hs]
  cases hS with
  | read ht hpos hlt hl =>
    have hsent := sentOn_produce ts ht heff
    have hnone : t.any Act.replays = false := by
      rcases hl with rfl | rfl <;> rfl
    refine ⟨fun _ => .read (htc.trans ht) ?_ ?_ hl, fun _ _ hany => by simp [hnone] at hany⟩
    · change _ = if level then r.s.downBuf.endOffset else _
      rw [hend]
      cases level with
      | true => exact position_live hcs hsent hpos
      | false =>
        -- a chunk that is dropped now will be part of the replay
        have hd : position cs tc w = cs.downDelivered := hpos
        have hgap := (eventually_gap cs [] hsent (hd ▸ hlt rfl)).2
        exact hgap.trans hpos
    · intro hlevel
      have := hlt hlevel
      change _ < r.s.downBuf.endOffset
      omega
  | write ht hacts hbound hev hlevel hone hlt =>
    have hsent := sentOn_produce ts ht heff
    have hbound' : ∀ sid o p, .data sid o p ∈ t.filterMap Act.msg →
        o + p.length ≤ w.s.downBuf.endOffset + q.length := by
      intro sid o p hmem
      have := hbound sid o p hmem
      omega
    constructor
    · intro hcond
      have hlive : position cs tc w = w.s.downBuf.endOffset := by
        rcases hcond with hcond | hcond | hcond
        · exact hlevel hcond
        · exact absurd hcond hp
        · rw [← eventually_of_no_replays hcs tc w hcond, hev]
      have hpos := position_live hcs hsent hlive
      refine .write (htc.trans ht) hacts ?_ ?_ ?_ hone ?_
      · change ∀ sid o p, _ → _ ≤ r.s.downBuf.endOffset
        rwa [hend]
      · change _ = r.s.downBuf.endOffset
        rw [hend]
        exact eventually_live hcs hsent hlive hbound'
      · intro _
        change _ = r.s.downBuf.endOffset
        rw [hend, hpos]
      · intro hl hany
        exact absurd hlive (hlt hl hany).ne
    · intro hl _ hany
      -- the replay has been read off without this chunk, and the sidecar drops it
      refine ⟨htc.trans ht, hacts, ?_⟩
      rw [(eventually_gap cs t hsent (hlt hl hany)).1, hev]
      change _ < r.s.downBuf.endOffset
      omega

theorem eventually_send (cs : ClientSession) {tc : ConnId} {w : World} {a : Act} {rest : List Act}
    {r : Result} (ts : List (List Act)) (ht : w.s.tconn = some tc)
    (hacts : ∀ b ∈ a :: rest, (∃ m, b = .send m) ∨ ∃ m, b = .write tc m) (hr : Does w.s a .ok r) :
    r.s = w.s ∧ (∀ b ∈ r.push ++ rest, (∃ m, b = .send m) ∨ ∃ m, b = .write tc m) ∧
      (∀ sid o p, .data sid o p ∈ (r.push ++ rest).filterMap Act.msg →
        .data sid o p ∈ (a :: rest).filterMap Act.msg) ∧
      eventually cs tc (w.after r ts) (r.push ++ rest) = eventually cs tc w (a :: rest) := by
  -- a frame on its way to the new connection: looking up the connection and writing to it
  -- leave the frames that will have been written the same
  rw [List.forall_mem_cons] at hacts
  rcases hacts.1 with ⟨m, rfl⟩ | ⟨m, rfl⟩
  · cases hr with
    | sendNone _ _ h => simp [ht] at h
    | sendSome _ _ tc' h =>
      obtain rfl : tc = tc' := Option.some.inj (ht.symm.trans h)
      refine ⟨rfl, ?_, fun sid o p h => h, ?_⟩
      · simp only [List.cons_append, List.nil_append, List.forall_mem_cons]
        exact ⟨.inr ⟨m, rfl⟩, hacts.2⟩
      · simp [eventually, sentOn_after, Act.msg]
  · cases hr with
    | writeOk =>
      refine ⟨rfl, hacts.2, ?_, ?_⟩
      · intro sid o p h
        exact List.mem_cons_of_mem _ h
      · simp [eventually, sentOn_after, Act.msg, Effect.msg]

theorem onSidecarAttach_data {s : Session} {d o : ℕ} {sid : UInt64} {p : Bytes}
    (h1 : s.downBuf.base ≤ d) (h2 : d ≤ s.downBuf.endOffset)
    (h : .data sid o p ∈ s.onSidecarAttach d) : o + p.length = s.downBuf.endOffset := by
  rw [onSidecarAttach_eq h1 h2] at h
  have hmem : d < s.downBuf.endOffset ∧
      Msg.data sid o p = .data s.sessionID d (s.downBuf.buf.drop (d - s.downBuf.base)) := by
    split_ifs at h <;> simp_all
  obtain ⟨-, rfl, rfl⟩ := Msg.data.inj hmem.2
  rw [ReplayBuffer.length_drop_base h1, Nat.add_sub_cancel' h2]

theorem downDelivered_onSidecarAttach {cs : ClientSession} {s : Session} {d : ℕ}
    (hcs : cs.dead = false) (h1 : s.downBuf.base ≤ d) (h2 : d ≤ s.downBuf.endOffset)
    (hpos : cs.downDelivered = d ∨ cs.downDelivered = s.downBuf.endOffset) :
    (cs.deliverAll (s.onSidecarAttach d)).downDelivered = s.downBuf.endOffset := by
  -- a sidecar that is where it said, or at the end already, is at the end after the replay
  have hlen : d + (s.downBuf.buf.drop (d - s.downBuf.base)).length = s.downBuf.endOffset := by
    rw [ReplayBuffer.length_drop_base h1, Nat.add_sub_cancel' h2]
  have hsplice : splice cs.downDelivered d (s.downBuf.buf.drop (d - s.downBuf.base)) =
      s.downBuf.endOffset := by
    rcases hpos with hpos | hpos
    · rw [hpos, splice_self, hlen]
    · rw [hpos, splice_old hlen.le]
  rw [onSidecarAttach_eq h1 h2, ClientSession.deliverAll_append, ClientSession.deliverAll_append]
  -- neither ATTACH_OK nor CLOSE moves `downDelivered`
  have hclose : ∀ cs' : ClientSession, (cs'.deliverAll
      (if s.downClosed then [.close s.sessionID dirDown upstreamEOF] else [])) = cs' := by
    intro cs'
    split_ifs <;> rfl
  rw [hclose]
  split_ifs with hlt
  · exact (ClientSession.downDelivered_deliver hcs _ _).trans hsplice
  · have hd : d = s.downBuf.endOffset := by omega
    exact hpos.elim (fun h => h.trans hd) id

theorem position_send {cs : ClientSession} {tc : ConnId} {w : World} {a : Act} {rest : List Act}
    {r : Result} (ts : List (List Act)) (hcs : cs.dead = false) (ht : w.s.tconn = some tc)
    (ha : (∃ m, a = .send m) ∨ ∃ m, a = .write tc m)
    (hle : ∀ sid o p, .data sid o p ∈ (a :: rest).filterMap Act.msg →
      o + p.length ≤ w.s.downBuf.endOffset) (hr : Does w.s a .ok r) :
    (position cs tc w = w.s.downBuf.endOffset →
      position cs tc (w.after r ts) = w.s.downBuf.endOffset) ∧
    ((r.push ++ rest).countP Act.replays ≤ (a :: rest).countP Act.replays) ∧
    ((a :: rest).countP Act.replays ≤ 1 → (r.push ++ rest).any Act.replays = true →
      position cs tc (w.after r ts) = position cs tc w) := by
  -- a frame that is written leaves a sidecar that has everything where it is
  rcases ha with ⟨m, rfl⟩ | ⟨m, rfl⟩
  · cases hr with
    | sendNone _ _ h => simp [ht] at h
    | sendSome _ _ tc' h =>
      have hpos : position cs tc (w.after ⟨w.s, [.write tc' m], []⟩ ts) = position cs tc w := by
        simp [position, sentOn_after]
      refine ⟨hpos.trans, ?_, fun _ _ => hpos⟩
      cases m <;> simp [List.countP_cons, Act.replays]
  · cases hr with
    | writeOk =>
      have hsent : (w.after ⟨w.s, [], [.frame tc m]⟩ ts).sentOn tc = w.sentOn tc ++ [m] := by
        simp [sentOn_after, Effect.msg]
      refine ⟨?_, ?_, ?_⟩
      · intro hpos
        unfold position at hpos ⊢
        have hdead : (cs.deliverAll (w.sentOn tc)).dead = false := by
          rw [ClientSession.dead_deliverAll, hcs]
        rw [hsent, ClientSession.deliverAll_append]
        apply le_antisymm
        · apply ClientSession.downDelivered_deliverAll_le hdead hpos.le
          intro sid o p hmem
          apply hle sid o p
          rw [List.mem_singleton] at hmem
          simp [Act.msg, hmem]
        · exact hpos ▸ ClientSession.le_downDelivered_deliverAll hdead _
      · exact (List.countP_cons ..).symm ▸ Nat.le_add_right _ _
      · intro hone hany
        have hrest : rest.countP Act.replays ≠ 0 := by
          rw [Nat.ne_zero_iff_zero_lt, List.countP_pos_iff]
          exact List.any_eq_true.mp hany
        have hm : Act.replays (.write tc m) = false := by
          rw [List.countP_cons] at hone
          cases hm : Act.replays (.write tc m) with
          | false => rfl
          | true =>
            rw [hm, if_pos rfl] at hone
            omega
        unfold position
        rw [hsent, ClientSession.deliverAll_append]
        cases m with
        | data => simp [Act.replays] at hm
        | _ => rfl

/-- `onSidecarAttach` has read off what it will write. -/
theorem Stage.of_replay {cs : ClientSession} {tc : ConnId} {w : World} {t : List Act} {level : Bool}
    (ts : List (List Act)) (hcs : cs.dead = false) (hA : Attaching tc cs.downDelivered w t)
    (ht : w.s.tconn = some tc)
    (hpos : position cs tc w = if level then w.s.downBuf.endOffset else cs.downDelivered)
    (hlt : level = false → cs.downDelivered < w.s.downBuf.endOffset) :
    Stage cs tc (w.after ⟨w.s, (w.s.onSidecarAttach cs.downDelivered).map .send, []⟩ ts) level
      ((w.s.onSidecarAttach cs.downDelivered).map .send) := by
  have hmsgs : ((w.s.onSidecarAttach cs.downDelivered).map Act.send).filterMap Act.msg =
      w.s.onSidecarAttach cs.downDelivered := by
    rw [List.filterMap_map]
    exact List.filterMap_some
  have hsent : (w.after ⟨w.s, (w.s.onSidecarAttach cs.downDelivered).map .send, []⟩
      ts).sentOn tc = w.sentOn tc := by
    rw [sentOn_after]
    exact List.append_nil _
  have hpos' : position cs tc (w.after ⟨w.s,
      (w.s.onSidecarAttach cs.downDelivered).map .send, []⟩ ts) = position cs tc w := by
    unfold position
    rw [hsent]
  refine .write ht (by simp) ?_ ?_ ?_ ?_ ?_
  · rw [hmsgs]
    exact fun sid o p h => (onSidecarAttach_data hA.base_le hA.le_endOffset h).le
  · unfold eventually
    rw [hmsgs, hsent, ClientSession.deliverAll_append]
    apply downDelivered_onSidecarAttach _ hA.base_le hA.le_endOffset
    · change position cs tc w = _ ∨ position cs tc w = _
      cases level with
      | true => exact .inr hpos
      | false => exact .inl hpos
    · rw [ClientSession.dead_deliverAll, hcs]
  · rintro rfl
    exact hpos'.trans hpos
  · rw [onSidecarAttach_eq hA.base_le hA.le_endOffset]
    split_ifs <;> simp [List.countP_cons, Act.replays]
  · rintro rfl -
    rw [hpos', hpos]
    exact hlt rfl

theorem stage_attach {cs : ClientSession} {tc : ConnId} {w : World} {a : Act} {rest : List Act}
    {level : Bool} {r : Result} (ts : List (List Act)) (hcs : cs.dead = false)
    (hA : Attaching tc cs.downDelivered w (a :: rest)) (hS : Stage cs tc w level (a :: rest))
    (hr : Does w.s a .ok r) : r.s.dead = w.s.dead ∧ r.s.downBuf = w.s.downBuf ∧
      Stage cs tc (w.after r ts) level (r.push ++ rest) ∧ (∀ p after, a ≠ .produce p after) ∧
      ∀ tc', a ≠ .bind tc' := by
  -- a step of the attaching goroutine after the `bind` loses nothing
  generalize hl : a :: rest = t at hS
  cases hS with
  | read ht hpos hlt hl' =>
    subst hl
    rcases hl' with hl' | hl'
    · obtain ⟨rfl, rfl⟩ := List.cons.inj hl'
      cases hr with
      | register =>
        have hsent : (w.after ⟨w.s, [], [.register tc]⟩ ts).sentOn tc = w.sentOn tc := by
          rw [sentOn_after]
          exact List.append_nil _
        refine ⟨rfl, rfl, .read ht ?_ hlt (.inr rfl), by simp, by simp⟩
        unfold position
        rw [hsent]
        exact hpos
    · obtain ⟨rfl, rfl⟩ := List.cons.inj hl'
      cases hr with
      | attach =>
        refine ⟨rfl, rfl, ?_, by simp, by simp⟩
        rw [List.append_nil]
        exact .of_replay ts hcs hA ht hpos hlt
  | write ht hacts hle hev hlevel hone hlt =>
    subst hl
    obtain ⟨hs, hacts', hsub, hev'⟩ := eventually_send cs ts ht hacts hr
    obtain ⟨hkeep, hcount, hstay⟩ := position_send ts hcs ht (hacts _ (List.mem_cons_self ..)) hle hr
    have hs' : (w.after r ts).s = w.s := hs
    refine ⟨by rw [hs], by rw [hs], .write (by rw [hs']; exact ht) hacts' ?_ ?_ ?_ ?_ ?_, ?_, ?_⟩
    · intro sid o p hmem
      rw [hs']
      exact hle sid o p (hsub sid o p hmem)
    · rw [hev', hs']
      exact hev
    · intro hl
      rw [hs']
      exact hkeep (hlevel hl)
    · exact hcount.trans hone
    · intro hl hany
      rw [hs', hstay hone hany]
      have hany' : (a :: rest).any Act.replays = true := by
        rw [List.any_eq_true, ← List.countP_pos_iff] at hany ⊢
        omega
      exact hlt hl hany'
    · rintro p after rfl
      simpa using hacts _ (List.mem_cons_self ..)
    · rintro tc' rfl
      simpa using hacts _ (List.mem_cons_self ..)

theorem short_step {cs : ClientSession} {tc : ConnId} {i : ℕ} {w w' : World} {t : List Act}
    (hcs : cs.dead = false) (hA : Attaching tc cs.downDelivered w t) (hS : Short cs tc w t)
    (h : step w (.run i .ok) = some w') :
    ∃ t', Attaching tc cs.downDelivered w' t' ∧ Short cs tc w' t' := by
  obtain ⟨a, rest, r, ts, rfl, -, hr, rfl, hA'⟩ | ⟨p, r, ts, -, hr, rfl, hA'⟩ := hA.step h
  · obtain ⟨hs, hacts, -, hev⟩ := eventually_send cs ts hS.tconn hS.acts hr
    have hs' : (w.after r ts).s = w.s := hs
    refine ⟨_, hA' (by rw [hs]) (by rw [hs]), by rw [hs']; exact hS.tconn, hacts, ?_⟩
    rw [hev, hs']
    exact hS.lt
  · have hpos := (position_le_eventually hcs tc w t).trans_lt hS.lt
    refine ⟨t, hA', ?_⟩
    rcases hr.produce_ok hA.dead with rfl | ⟨-, q, p', b, -, hb, hs, -, heff⟩
    · refine ⟨hS.tconn, hS.acts, ?_⟩
      rw [eventually_idle]
      exact hS.lt
    · have htc : r.s.tconn = some tc := by rw [hs]; exact hS.tconn
      refine ⟨htc, hS.acts, ?_⟩
      rw [(eventually_gap cs t (sentOn_produce ts hS.tconn heff) hpos).1]
      change _ < r.s.downBuf.endOffset
      rw [hs]
      have hend := ReplayBuffer.endOffset_append hb
      have hlt := hS.lt
      dsimp only
      omega

theorem stage_step {cs : ClientSession} {tc : ConnId} {level : Bool} {i : ℕ} {w w' : World}
    {t : List Act} (hcs : cs.dead = false) (hA : Attaching tc cs.downDelivered w t)
    (hS : Stage cs tc w level t) (h : step w (.run i .ok) = some w') :
    caughtUp cs w (.run i .ok) = true ∧
    (level = true ∨ unhindered w (.run i .ok) = true →
      ∃ t', Attaching tc cs.downDelivered w' t' ∧ Stage cs tc w' level t') ∧
    (level = false → ¬unhindered w (.run i .ok) = true →
      ∃ t', Attaching tc cs.downDelivered w' t' ∧ Short cs tc w' t') := by
  obtain ⟨a, rest, r, ts, rfl, hn, hr, rfl, hA'⟩ | ⟨p, r, ts, hn, hr, rfl, hA'⟩ := hA.step h
  · obtain ⟨hdead, hbuf, hS', hne, hnb⟩ := stage_attach ts hcs hA hS hr
    refine ⟨?_, fun _ => ⟨_, hA' hdead hbuf, hS'⟩, ?_⟩
    · simp only [caughtUp, hn]
      cases a with
      | bind tc' => exact absurd rfl (hnb tc')
      | _ => rfl
    · intro _ hcond
      exfalso
      simp only [unhindered, hn] at hcond
      cases a with
      | produce p after => exact hne p after rfl
      | _ => exact hcond rfl
  · obtain ⟨hkeep, hlose⟩ := stage_produce ts hcs hA hS hr
    have hunh : unhindered w (.run i .ok) = (decide (p = []) || !t.any Act.replays) := by
      simp only [unhindered, hn, hA.any_replays]
    rw [hunh]
    refine ⟨by simp [caughtUp, hn], fun hc => ⟨t, hA', hkeep (hc.imp_right ?_)⟩,
      fun hl hc => ⟨t, hA', ?_⟩⟩
    · simp
    · simp only [Bool.or_eq_true, decide_eq_true_eq, Bool.not_eq_true', not_or,
        Bool.not_eq_false] at hc
      exact hlose hl hc.1 hc.2

theorem unbound_step {cs : ClientSession} {tc : ConnId} {i : ℕ} {w w' : World} {t : List Act}
    (hA : Attaching tc cs.downDelivered w t) (hU : Unbound cs tc w t)
    (h : step w (.run i .ok) = some w') : unhindered w (.run i .ok) = true ∧
    (caughtUp cs w (.run i .ok) = true ∧ Attaching tc cs.downDelivered w' t ∧ Unbound cs tc w' t ∨
      ∃ t', Attaching tc cs.downDelivered w' t' ∧
        Stage cs tc w' (caughtUp cs w (.run i .ok)) t') := by
  -- the first steps: a chunk, or the `bind`, which decides whether the sidecar has everything
  have hacts := hU.acts
  obtain ⟨a, rest, r, ts, rfl, hn, hr, rfl, hA'⟩ | ⟨p, r, ts, hn, hr, rfl, hA'⟩ := hA.step h
  · obtain ⟨rfl, rfl⟩ := List.cons.inj hacts
    have hcond : caughtUp cs w (.run i .ok) =
        decide (cs.downDelivered = w.s.downBuf.endOffset) := by simp [caughtUp, hn]
    refine ⟨by simp [unhindered, hn], .inr ?_⟩
    rw [hcond]
    cases hr with
    | bind =>
      refine ⟨_, hA' rfl rfl, .read rfl ?_ ?_ (.inl rfl)⟩
      · have hpos : position cs tc (w.after ⟨w.s.bind tc, [.register tc], []⟩ ts) =
            cs.downDelivered := by
          simp [position, sentOn_after, hU.sent, ClientSession.deliverAll]
        refine hpos.trans ?_
        split_ifs with hl
        · exact of_decide_eq_true hl
        · rfl
      · intro hl
        exact lt_of_le_of_ne hA.le_endOffset (of_decide_eq_false hl)
  · refine ⟨?_, .inl ⟨by simp [caughtUp, hn], hA', hU.produce ts hA.dead hr⟩⟩
    have hnone : t.any Act.replays = false := by rw [hacts]; rfl
    simp [unhindered, hn, hA.any_replays, hnone]

theorem level_run {cs : ClientSession} {tc : ConnId} {es : List Event} {w w' : World}
    (hcs : cs.dead = false) (hes : ∀ e ∈ es, ∃ i, e = .run i .ok)
    (hw : ∃ t, Attaching tc cs.downDelivered w t ∧ Stage cs tc w true t)
    (hrun : run step w es = some w') :
    Along step (fun w e => caughtUp cs w e = true) w es ∧
      ∃ t, Attaching tc cs.downDelivered w' t ∧ Stage cs tc w' true t := by
  have hcases := run_dichotomy (P := fun w e => caughtUp cs w e = true) (J := fun _ => False)
    (C := fun e => ∃ i, e = .run i .ok)
    (I := fun w => ∃ t, Attaching tc cs.downDelivered w t ∧ Stage cs tc w true t)
    (by
      rintro w e w' ⟨i, rfl⟩ ⟨t, hA, hS⟩ - h
      exact (stage_step hcs hA hS h).2.1 (.inl rfl))
    (by
      rintro w e w' ⟨i, rfl⟩ ⟨t, hA, hS⟩ hP h
      exact hP (stage_step hcs hA hS h).1)
    (fun _ _ _ _ hJ _ => hJ) hes hw hrun
  exact hcases.resolve_right fun h => h.2

theorem behind_run {cs : ClientSession} {tc : ConnId} {es : List Event} {w w' : World}
    (hcs : cs.dead = false) (hes : ∀ e ∈ es, ∃ i, e = .run i .ok)
    (hw : ∃ t, Attaching tc cs.downDelivered w t ∧ Stage cs tc w false t)
    (hrun : run step w es = some w') :
    Along step (fun w e => unhindered w e = true) w es ∧
        (∃ t, Attaching tc cs.downDelivered w' t ∧ Stage cs tc w' false t) ∨
      ¬Along step (fun w e => unhindered w e = true) w es ∧
        ∃ t, Attaching tc cs.downDelivered w' t ∧ Short cs tc w' t := by
  refine run_dichotomy (C := fun e => ∃ i, e = Event.run i .ok)
    (I := fun w => ∃ t, Attaching tc cs.downDelivered w t ∧ Stage cs tc w false t)
    (J := fun w => ∃ t, Attaching tc cs.downDelivered w t ∧ Short cs tc w t) ?_ ?_ ?_ hes hw hrun
  · rintro w e w' ⟨i, rfl⟩ ⟨t, hA, hS⟩ hP h
    exact (stage_step hcs hA hS h).2.1 (.inr hP)
  · rintro w e w' ⟨i, rfl⟩ ⟨t, hA, hS⟩ hP h
    exact (stage_step hcs hA hS h).2.2 rfl hP
  · rintro w e w' ⟨i, rfl⟩ ⟨t, hA, hS⟩ h
    exact short_step hcs hA hS h

theorem Attaching.eq_nil {tc : ConnId} {d : ℕ} {w : World} {t : List Act} (hA : Attaching tc d w t)
    (hret : w.threads.head? = some []) : t = [] := by
  obtain ⟨others, hts, -⟩ := hA.threads
  rw [hts] at hret
  exact Option.some.inj hret

theorem eventually_nil (cs : ClientSession) (tc : ConnId) (w : World) :
    eventually cs tc w [] = position cs tc w := by
  simp [eventually, position]

theorem Stage.position_eq {cs : ClientSession} {tc : ConnId} {w : World} {level : Bool}
    (hS : Stage cs tc w level []) : position cs tc w = w.s.downBuf.endOffset := by
  cases hS with
  | read _ _ _ hl => simp at hl
  | write _ _ _ hend => rw [← eventually_nil, hend]

theorem unbound_run {cs : ClientSession} {tc : ConnId} {es : List Event} {w w' : World}
    {t : List Act} (hcs : cs.dead = false) (hes : ∀ e ∈ es, ∃ i, e = .run i .ok)
    (hA : Attaching tc cs.downDelivered w t) (hU : Unbound cs tc w t)
    (hrun : run step w es = some w') (hret : w'.threads.head? = some []) :
    position cs tc w' = w'.s.downBuf.endOffset ↔
      Along step (fun w e => unhindered w e = true) w es ∨
        Along step (fun w e => caughtUp cs w e = true) w es := by
  -- on the events up to the `bind`, which meet both conditions
  induction es generalizing w with
  | nil =>
    obtain rfl := Option.some.inj hrun
    have hnil := hA.eq_nil hret
    rw [hU.acts] at hnil
    cases hnil
  | cons e es ih =>
    obtain ⟨v, hv, hes'⟩ := run_cons hrun
    rw [List.forall_mem_cons] at hes
    obtain ⟨⟨i, rfl⟩, hmem⟩ := hes
    obtain ⟨hunh, hstep⟩ := unbound_step hA hU hv
    have hiff : Along step (fun w e => unhindered w e = true) w (.run i .ok :: es) ↔
        Along step (fun w e => unhindered w e = true) v es := by
      simp [Along, hunh, hv]
    rw [hiff]
    rcases hstep with ⟨hc, hA', hU'⟩ | ⟨t', hA', hS⟩
    · have hiff' : Along step (fun w e => caughtUp cs w e = true) w (.run i .ok :: es) ↔
          Along step (fun w e => caughtUp cs w e = true) v es := by
        simp [Along, hc, hv]
      rw [hiff']
      exact ih hmem hA' hU' hes'
    · cases hc : caughtUp cs w (.run i .ok) with
      | true =>
        rw [hc] at hS
        obtain ⟨halong, t'', hA'', hS''⟩ := level_run hcs hmem ⟨t', hA', hS⟩ hes'
        obtain rfl := hA''.eq_nil hret
        refine ⟨fun _ => .inr ?_, fun _ => hS''.position_eq⟩
        simp [Along, hc, hv, halong]
      | false =>
        rw [hc] at hS
        have hnot : ¬Along step (fun w e => caughtUp cs w e = true) w (.run i .ok :: es) := by
          intro h
          have hhead := h.head
          simp [hc] at hhead
        rw [or_iff_left hnot]
        rcases behind_run hcs hmem ⟨t', hA', hS⟩ hes' with ⟨halong, t'', hA'', hS''⟩ |
          ⟨hshort, t'', hA'', hS''⟩
        · obtain rfl := hA''.eq_nil hret
          exact ⟨fun _ => halong, fun _ => hS''.position_eq⟩
        · obtain rfl := hA''.eq_nil hret
          have hlt := hS''.lt
          rw [eventually_nil] at hlt
          exact ⟨fun h => absurd h hlt.ne, fun h => absurd h hshort⟩

/-- When the attach has returned and its connection's frames have been handled, the sidecar is
at the end of the buffer exactly if no chunk was sent between the reading of the replay and its
write, or the sidecar had the whole buffer when the connection was bound. -/
theorem position_eq_endOffset_iff_unhindered {s : Session} {cs : ClientSession} {tc : ConnId}
    {ps : List Bytes} {es : List Event} {w : World} (hdead : s.dead = false)
    (hcs : cs.dead = false) (htc : s.tconn ≠ some tc)
    (hd : s.downBuf.base ≤ cs.downDelivered ∧ cs.downDelivered ≤ s.downBuf.endOffset)
    (hes : ∀ e ∈ es, ∃ i, e = .run i .ok)
    (hrun : run step (attaching s tc cs.downDelivered ps) es = some w)
    (hret : w.threads.head? = some []) :
    (cs.deliverAll (w.sentOn tc)).downDelivered = w.s.downBuf.endOffset ↔
      Along step (fun w e => unhindered w e = true) (attaching s tc cs.downDelivered ps) es ∨
        Along step (fun w e => caughtUp cs w e = true) (attaching s tc cs.downDelivered ps) es := by
  have hinit : Attaching tc cs.downDelivered (attaching s tc cs.downDelivered ps)
      [.bind tc, .onSidecarAttach cs.downDelivered] := by
    refine ⟨⟨ps.map fun p => [.produce p .ret], rfl, ?_⟩, hdead, hd.1, hd.2⟩
    intro u hu
    obtain ⟨p, -, rfl⟩ := List.mem_map.mp hu
    exact .inr ⟨p, rfl⟩
  exact unbound_run hcs hes hinit ⟨rfl, htc, rfl⟩ hrun hret

def oneRetained : Session :=
  -- a session that retains one byte
  { newSession 16 [] 1 [] with downBuf := ⟨0, [7], 16, by decide⟩ }

def oneDelivered : ClientSession :=
  -- a sidecar that has it
  { newClientSession 16 1 [] with downDelivered := 1 }

def replayFirst : List Event :=
  -- the chunk is produced after the replay has been written
  [.run 0 .ok, .run 0 .ok, .run 0 .ok, .run 0 .ok, .run 0 .ok, .run 0 .ok, .run 0 .ok, .run 1 .ok]

def liveFirst : List Event :=
  -- the first chunk is produced between the `bind` and the reading of the replay, the second
  -- between that and the write of the replay
  [.run 0 .ok, .run 1 .ok, .run 0 .ok, .run 0 .ok, .run 2 .ok, .run 0 .ok, .run 0 .ok, .run 0 .ok,
    .run 0 .ok]

theorem position_eq_endOffset_replayFirst :
    (∃ w, run step (attaching oneRetained 1 (newClientSession 16 1 []).downDelivered [[8]])
        replayFirst = some w ∧ w.s.downBuf.endOffset = 2 ∧
      ((newClientSession 16 1 []).deliverAll (w.sentOn 1)).downDelivered =
        w.s.downBuf.endOffset) ∧
    ∃ w, run step (attaching oneRetained 1 oneDelivered.downDelivered [[8], [9]]) liveFirst =
        some w ∧ w.s.downBuf.endOffset = 3 ∧
      (oneDelivered.deliverAll (w.sentOn 1)).downDelivered = w.s.downBuf.endOffset := by
  constructor
  · have hrun := (rfl : run step (attaching oneRetained 1 (newClientSession 16 1 []).downDelivered
      [[8]]) replayFirst = some _)
    refine ⟨_, hrun, by decide, ?_⟩
    refine (position_eq_endOffset_iff_unhindered rfl rfl (by decide) (by decide) ?_ hrun rfl).mpr ?_
    · simp [replayFirst]
    · exact .inl (by decide)
  · have hrun := (rfl : run step (attaching oneRetained 1 oneDelivered.downDelivered [[8], [9]])
      liveFirst = some _)
    have halive : oneDelivered.dead = false := rfl
    refine ⟨_, hrun, by decide, ?_⟩
    refine (position_eq_endOffset_iff_unhindered rfl halive (by decide) (by decide) ?_ hrun
      rfl).mpr ?_
    · simp [liveFirst]
    · exact .inr (by decide)

/-- The chunk is produced between the reading of the replay and its write: the sidecar drops it
as out of order, and nothing sends it again. -/
theorem position_ne_endOffset_in_window : ∃ es w, (∀ e ∈ es, ∃ i, e = .run i .ok) ∧
    run step (attaching oneRetained 1 (newClientSession 16 1 []).downDelivered [[8]]) es = some w ∧
    (∀ t ∈ w.threads, t = []) ∧ w.s.downBuf.endOffset = 2 ∧
    ((newClientSession 16 1 []).deliverAll (w.sentOn 1)).downDelivered = 1 := by
  refine ⟨[.run 0 .ok, .run 0 .ok, .run 0 .ok, .run 1 .ok, .run 1 .ok, .run 0 .ok, .run 0 .ok,
    .run 0 .ok, .run 0 .ok], _, by simp, rfl, ?_, ?_, ?_⟩ <;> decide

end SubstratePoc.Broker
