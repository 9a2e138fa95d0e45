import SubstratePoc.Pair.Delivery

namespace SubstratePoc.Broker
open Lib Tunnel

/-- A frame to the sidecar that holds nothing beyond its first `n` bytes. -/
def Stale (n : ℕ) : Msg → Prop
  | .data _ offset p => p ≠ [] ∧ offset + p.length ≤ n
  | _ => True

/-- What the broker is about to do sends only the first `n` bytes, trims nothing above `b` and does
not end the session. -/
def Act.Jams (n b : ℕ) : Act → Prop
  | .onDownstreamAck offset => offset ≤ b
  | .send m | .write _ m => Stale n m
  | .dial | .destroy | .removeSession => False
  | _ => True

/-- A full buffer of a session that lives. -/
structure Session.Full (s : Session) : Prop where
  alive : s.dead = false
  full : s.downBuf.free = 0
  filled : s.downBuf.buf ≠ []

theorem stale_onSidecarAttach (s : Session) (d : ℕ) :
    ∀ m ∈ s.onSidecarAttach d, Stale s.downBuf.endOffset m := by
  intro m hm
  simp only [Session.onSidecarAttach, List.mem_append, List.mem_singleton] at hm
  rcases hm with (rfl | hm) | hm
  · trivial
  · split at hm
    · rename_i r hr
      split_ifs at hm with hlen
      · rw [List.mem_singleton.mp hm]
        obtain ⟨h1, h2, rfl⟩ := ReplayBuffer.fromOffset_eq_ok hr
        refine ⟨List.ne_nil_of_length_pos hlen, ?_⟩
        rw [ReplayBuffer.length_drop_base h1]
        omega
      · cases hm
    · cases hm
  · split_ifs at hm
    · rw [List.mem_singleton.mp hm]
      trivial
    · cases hm

/-- What an action does to a session whose buffer is full. -/
structure Stuck (s : Session) (r : Result) : Prop where
  downBuf : r.s.downBuf = s.downBuf
  alive : r.s.dead = false
  push : ∀ x ∈ r.push, x.Jams s.downBuf.endOffset s.downBuf.base
  frames : ∀ tc m, .frame tc m ∈ r.eff → Stale s.downBuf.endOffset m
  stays : .removeSession ∉ r.eff

def Act.inert : Act → Bool
  | .onDownstreamAck _ | .send (.data _ _ _) | .write _ (.data _ _ _) | .dial | .destroy
  | .removeSession => false
  | _ => true

theorem Act.jams_of_inert {n b : ℕ} {a : Act} (h : a.inert = true) : a.Jams n b := by
  cases a with
  | onDownstreamAck | dial | destroy | removeSession => cases h
  | send m | write tc m =>
    cases m with
    | data => cases h
    | _ => trivial
  | _ => trivial

theorem stuck_of_inert {s : Session} {r : Result} (hbuf : r.s.downBuf = s.downBuf)
    (hd : r.s.dead = false) (hpush : r.push.all Act.inert = true)
    (heff : r.eff.all (fun e => e.msg.isNone && decide (e ≠ .removeSession)) = true) :
    Stuck s r := by
  rw [List.all_eq_true] at hpush heff
  refine ⟨hbuf, hd, fun x hx => Act.jams_of_inert (hpush x hx), fun tc m hm => ?_, fun hm => ?_⟩
  · cases heff _ hm
  · cases heff _ hm

theorem Does.stuck {s : Session} {a : Act} {c : Choice} {r : Result} (h : Does s a c r)
    (hs : s.Full) (ha : a.Jams s.downBuf.endOffset s.downBuf.base) : Stuck s r := by
  have hd := hs.alive
  cases h with
  | produceDetached p after c b hp hd' hf => exact absurd hs.full hf
  | produceSent p after b tc hp hd' hf => exact absurd hs.full hf
  | produceLost p after n text b tc hp hd' hf => exact absurd hs.full hf
  | produceDead p after c hp hd' =>
    rw [hd] at hd'
    cases hd'
  | produceDone after c => cases after <;> exact stuck_of_inert rfl hd rfl rfl
  | ackDrained offset c h | ackKept offset c h =>
    have htrim : s.downBuf.trimTo offset = s.downBuf := if_pos ha
    exact stuck_of_inert htrim hd rfl rfl
  | attach offset c =>
    refine ⟨rfl, hd, ?_, by simp, by simp⟩
    intro x hx
    obtain ⟨m, hm, rfl⟩ := List.mem_map.mp hx
    exact stale_onSidecarAttach s offset m hm
  | done c h =>
    have : s.downBuf.len = 0 := by
      simp only [Session.done, Bool.and_eq_true, decide_eq_true_eq] at h
      exact h.2
    exact absurd (ReplayBuffer.len_eq_zero _ |>.mp this) hs.filled
  | dialOk | dialFail | destroy | destroyAgain | removeSession => cases ha
  | writeOk tc m hm =>
    refine ⟨rfl, hd, by simp, ?_, by simp⟩
    intro tc' m' h
    simp only [List.mem_singleton, Effect.frame.injEq] at h
    rw [h.2]
    exact ha
  | sendSome m c tc ht =>
    refine ⟨rfl, hd, fun x hx => ?_, by simp, by simp⟩
    rw [List.mem_singleton.mp hx]
    exact ha
  | _ => exact stuck_of_inert rfl hd rfl rfl

end SubstratePoc.Broker

namespace SubstratePoc.Pair
open Lib Tunnel Broker Sidecar

/-- What the sidecar is about to do delivers nothing and confirms at most `b` bytes. -/
def SAct.Jams (n b : ℕ) : SAct → Prop
  | .deliverDown offset p => p ≠ [] ∧ offset + p.length ≤ n
  | .agentWrite _ | .delivered _ => False
  | .send m | .write _ m => m.AcksUpTo b
  | _ => True

def SAct.inert : SAct → Bool
  | .deliverDown _ _ | .agentWrite _ | .delivered _ | .send (.ack _ _) | .write _ (.ack _ _) => false
  | _ => true

theorem SAct.jams_of_inert {n b : ℕ} {l : List SAct} (h : l.all SAct.inert = true) :
    ∀ a ∈ l, a.Jams n b := by
  intro a ha
  have := List.all_eq_true.mp h a ha
  cases a with
  | deliverDown | agentWrite | delivered => cases this
  | send m | write k m =>
    cases m with
    | ack => cases this
    | _ => trivial
  | _ => trivial

def BAct.Jams (o n b : ℕ) : BAct → Prop
  | .act o' a => o' = o ∧ a.Jams n b
  | .handleFrame _ m => m.AcksUpTo b
  | .reply _ m => Stale n m
  | .startDial _ => False
  | _ => True

/-- The buffer `b` of the broker's only session `o` is full, the agent has got all of it, and no
frame or action that says so is left. -/
structure Jammed (o : ℕ) (b : ReplayBuffer) (w : System) : Prop where
  session : w.core.sessions = some o
  only : ∀ o' < w.core.created, o' = o
  full : (w.core.objs o).s.Full
  buffer : (w.core.objs o).s.downBuf = b
  delivered : w.core.cs.downDelivered = b.endOffset
  registered : ∀ k o', (w.core.links k).registered = some o' → o' = o
  up : ∀ k, ∀ m ∈ (w.core.links k).up, m.AcksUpTo b.base
  down : ∀ k, ∀ m ∈ (w.core.links k).down, Stale b.endOffset m
  sidecar : ∀ a ∈ w.tunnel ++ w.proxy, a.Jams b.endOffset b.base
  broker : ∀ a ∈ w.pending, a.Jams o b.endOffset b.base

theorem deliverDown_eq_none {cs : ClientSession} {offset : ℕ} {p : Bytes} (hp : p ≠ [])
    (h : offset + p.length ≤ cs.downDelivered) : cs.deliverDown offset p = none := by
  have hpos := List.length_pos_of_ne_nil hp
  unfold ClientSession.deliverDown
  split_ifs <;> first | rfl | omega

section Step
variable {cfg : Config} {w w' : System} {e : Event} {o : ℕ}

theorem SDoes.jams {w w' : Core} {a : SAct} {push : List SAct} {spawn : List (List BAct)} {b : ℕ}
    (h : SDoes w a w' push spawn) (ha : a.Jams w.cs.downDelivered b)
    (hdown : ∀ k, ∀ m ∈ (w.links k).down, Stale w.cs.downDelivered m) :
    w'.cs.downDelivered = w.cs.downDelivered ∧ w'.agent = w.agent ∧
      ∀ x ∈ push, x.Jams w.cs.downDelivered b := by
  -- a sidecar that has everything delivers nothing and confirms nothing
  cases h with
  | connect =>
    refine ⟨rfl, rfl, ?_⟩
    split_ifs <;> exact SAct.jams_of_inert rfl
  | readFrame k m down hd =>
    refine ⟨rfl, rfl, ?_⟩
    have hm := hdown k m (hd ▸ List.mem_cons_self)
    split_ifs
    · cases m with
      | data sid offset p =>
        rintro x (_ | ⟨_, hx⟩)
        · exact hm
        · exact SAct.jams_of_inert rfl x hx
      | _ => exact SAct.jams_of_inert rfl
    · exact SAct.jams_of_inert rfl
  | onAttachOK offset =>
    refine ⟨rfl, rfl, fun x hx => ?_⟩
    obtain ⟨m, hm, rfl⟩ := List.mem_map.mp hx
    obtain ⟨p, rfl⟩ := ClientSession.eq_data_of_mem_onAttachOK hm
    trivial
  | deliverDown offset p q hq =>
    rw [deliverDown_eq_none ha.1 ha.2] at hq
    cases hq
  | agentWriteOk | agentWriteFail | delivered => cases ha
  | sendSome m k hc =>
    refine ⟨rfl, rfl, fun x hx => ?_⟩
    rw [List.mem_singleton.mp hx]
    exact ha
  | writeOk k m =>
    rw [Core.toBroker_eq]
    exact ⟨rfl, rfl, SAct.jams_of_inert rfl⟩
  | writeUpDead p err push hp =>
    refine ⟨rfl, rfl, fun x hx => ?_⟩
    obtain ⟨reason, rfl⟩ := hp x hx
    trivial
  | writeUpDone err => cases err <;> exact ⟨rfl, rfl, SAct.jams_of_inert rfl⟩
  | _ => exact ⟨rfl, rfl, SAct.jams_of_inert rfl⟩

theorem BDoes.jams {w w' : Core} {a : BAct} {push : List BAct} {spawn : List (List BAct)}
    {n b : ℕ} (h : BDoes cfg w a w' push spawn) (hact : ∀ o x, a ≠ .act o x)
    (ha : a.Jams o n b) (hs : w.sessions = some o)
    (hreg : ∀ k o', (w.links k).registered = some o' → o' = o)
    (hup : ∀ k, ∀ m ∈ (w.links k).up, m.AcksUpTo b) :
    ∀ x ∈ push ++ spawn.flatten, x.Jams o n b := by
  cases h with
  | act o' x => exact absurd rfl (hact o' x)
  | readFrame k m up hk =>
    have hm := hup k m (hk ▸ List.mem_cons_self)
    simp [BAct.Jams, hm]
  | handleFrame k m =>
    rw [hs]
    cases m <;> simp_all [handle, BAct.Jams, Act.Jams, Msg.AcksUpTo]
  | openSession k target hn =>
    rw [hs] at hn
    cases hn
  | attachSession k offset target o' ho =>
    cases hs.symm.trans ho
    simp [BAct.Jams, Act.Jams]
  | reattach offset o' ho =>
    cases hs.symm.trans ho
    simp [BAct.Jams, Act.Jams]
  | startDial o' => cases ha
  | detachAll k o' ho =>
    cases hreg k o' ho
    simp [BAct.Jams, Act.Jams]
  | _ => simp [BAct.Jams, Stale]

variable {b : ReplayBuffer}

theorem Jammed.of_sidecar {a : SAct} {push : List SAct} {spawn : List (List BAct)}
    (hj : Jammed o b w) (h : SDoes w.core a w'.core push spawn)
    (hrun : Runs w.tunnel w'.tunnel a push ∧ w'.proxy = w.proxy ∨
      Runs w.proxy w'.proxy a push ∧ w'.tunnel = w.tunnel)
    (hp : w'.pending = w.pending ++ spawn.flatten) :
    Jammed o b w' ∧ w'.core.agent = w.core.agent := by
  obtain ⟨ha, hside⟩ := side_of_runs hrun
  have hf := h.frame
  have hobj : w'.core.objs o = w.core.objs o := congrFun hf.objs o
  obtain ⟨hdel, hagent, hpush⟩ := h.jams (hj.delivered ▸ hj.sidecar a ha) (hj.delivered ▸ hj.down)
  rw [hj.delivered] at hdel hpush
  refine ⟨?_, hagent⟩
  constructor
  · exact hf.sessions.trans hj.session
  · exact hf.created ▸ hj.only
  · exact hobj ▸ hj.full
  · exact hobj ▸ hj.buffer
  · exact hdel
  · intro k o' ho
    exact ((hf.links k).registered o' ho).elim (hj.registered k o') False.elim
  · intro k m hm
    rcases (hf.links k).up m hm with hm | rfl
    · exact hj.up k m hm
    · exact hj.sidecar _ ha
  · intro k m hm
    exact ((hf.links k).down m hm).elim (hj.down k m) False.elim
  · intro x hx
    exact (hside x hx).elim (hj.sidecar x) (hpush x)
  · intro x hx
    rw [hp, List.mem_append] at hx
    rcases hx with hx | hx
    · exact hj.broker x hx
    · obtain ⟨k, rfl, -⟩ := hf.spawn x hx
      trivial

theorem Jammed.of_broker {a : BAct} {X Y push : List BAct} {spawn : List (List BAct)}
    (hj : Jammed o b w) (h : BDoes cfg w.core a w'.core push spawn)
    (htunnel : w'.tunnel = w.tunnel) (hproxy : w'.proxy = w.proxy)
    (hp : w.pending = X ++ a :: Y) (hp' : w'.pending = X ++ (push ++ Y) ++ spawn.flatten) :
    Jammed o b w' ∧ w'.core.agent = w.core.agent := by
  have ha := hj.broker a (by simp [hp])
  have hmem := mem_pending_of_replace hp hp'
  have hside : ∀ x ∈ w'.tunnel ++ w'.proxy, x.Jams b.endOffset b.base := by
    rw [htunnel, hproxy]
    exact hj.sidecar
  rcases h.cases_session with ⟨k, target, -, hs, -⟩ | ⟨o', x, c, r, rfl, hr, hcore, rfl, rfl⟩ | hf
  · rw [hj.session] at hs
    cases hs
  · obtain ⟨rfl, hx⟩ := ha
    have hst := hr.stuck hj.full (hj.buffer ▸ hx)
    have haff := w.core.objAct_affects o' x c r
    rw [← hcore] at haff
    have hobj : (w'.core.objs o').s = r.s := by
      rw [hcore, Core.objs_objAct, Function.update_self]
      rfl
    refine ⟨?_, haff.agent⟩
    constructor
    · rw [haff.sessions, if_neg hst.stays]
      exact hj.session
    · rw [haff.created]
      exact hj.only
    · rw [hobj]
      exact ⟨hst.alive, hst.downBuf ▸ hj.full.full, hst.downBuf ▸ hj.full.filled⟩
    · rw [hobj, hst.downBuf]
      exact hj.buffer
    · rw [haff.cs]
      exact hj.delivered
    · intro k o'' ho
      exact ((haff.links k).registered o'' ho).elim (hj.registered k o'') id
    · intro k m hm
      exact ((haff.links k).up m hm).elim (hj.up k m) False.elim
    · intro k m hm
      rw [← hj.buffer]
      exact ((haff.links k).down m hm).elim (fun hm => hj.buffer ▸ hj.down k m hm) (hst.frames k m)
    · exact hside
    · intro y hy
      rcases hmem y hy with hy | hy
      · exact hj.broker y hy
      · simp only [List.flatten_nil, List.append_nil] at hy
        obtain ⟨z, hz, rfl⟩ := List.mem_map.mp hy
        exact ⟨rfl, hj.buffer ▸ hst.push z hz⟩
  · have hobj : w'.core.objs o = w.core.objs o := congrFun hf.objs o
    have hpush := h.jams hf.other ha hj.session hj.registered hj.up
    refine ⟨?_, hf.agent⟩
    constructor
    · exact hf.sessions.trans hj.session
    · exact hf.created ▸ hj.only
    · exact hobj ▸ hj.full
    · exact hobj ▸ hj.buffer
    · rw [hf.cs]
      exact hj.delivered
    · intro k o' ho
      exact ((hf.links k).registered o' ho).elim (hj.registered k o') False.elim
    · intro k m hm
      exact ((hf.links k).up m hm).elim (hj.up k m) False.elim
    · intro k m hm
      rcases (hf.links k).down m hm with hm | rfl
      · exact hj.down k m hm
      · exact ha
    · exact hside
    · intro x hx
      exact (hmem x hx).elim (hj.broker x) (hpush x)

theorem Jammed.of_quiet (hj : Jammed o b w) (h : Quiet w w') :
    Jammed o b w' ∧ w'.core.agent = w.core.agent := by
  obtain ⟨wd, hobj⟩ := h.objs o
  obtain ⟨ws, hpend, hws⟩ := h.pending
  refine ⟨?_, h.agent⟩
  constructor
  · exact h.sessions.trans hj.session
  · exact h.created ▸ hj.only
  · rw [hobj]
    exact ⟨hj.full.alive, hj.full.full, hj.full.filled⟩
  · rw [hobj]
    exact hj.buffer
  · rw [h.cs]
    exact hj.delivered
  · intro k o' ho
    exact ((h.links k).registered o' ho).elim (hj.registered k o') False.elim
  · intro k m hm
    exact ((h.links k).up m hm).elim (hj.up k m) False.elim
  · intro k m hm
    exact ((h.links k).down m hm).elim (hj.down k m) False.elim
  · rw [h.tunnel, h.proxy]
    exact hj.sidecar
  · intro x hx
    rw [hpend, List.mem_append] at hx
    rcases hx with hx | hx
    · exact hj.broker x hx
    · obtain ⟨o', ho, rfl⟩ := hws x hx
      exact ⟨hj.only o' ho, trivial⟩

theorem Jammed.step (hj : Jammed o b w) (h : step cfg w e = some w') :
    Jammed o b w' ∧ w'.core.agent = w.core.agent := by
  cases step_moves h with
  | sidecar _ a push spawn hdo hrun hp => exact hj.of_sidecar hdo hrun hp
  | broker i c a X Y push spawn hn hdo htunnel hproxy hp hp' =>
    exact hj.of_broker hdo htunnel hproxy hp hp'
  | quiet _ hq => exact hj.of_quiet hq

end Step

/-- Nothing frees a session that is jammed: after any further run, with any number of cuts and
reconnections, the agent has got nothing more, the replay buffer is as full as it was, and the
session is still there. -/
theorem jammed_forever {cfg : Config} {w w' : System} {o : ℕ} {b : ReplayBuffer} {es : List Event}
    (hj : Jammed o b w) (hrun : run (step cfg) w es = some w') :
    w'.core.agent = w.core.agent ∧ (w'.core.objs o).s.downBuf = b ∧
      w'.core.sessions = some o ∧ (w'.core.objs o).s.dead = false := by
  have hstep (v : System) (e : Event) (v' : System)
      (hI : Jammed o b v ∧ v.core.agent = w.core.agent) (h : step cfg v e = some v') :
      Jammed o b v' ∧ v'.core.agent = w.core.agent := by
    obtain ⟨hj', hagent⟩ := hI.1.step h
    exact ⟨hj', hagent.trans hI.2⟩
  obtain ⟨hj', hagent⟩ := run_preserves hstep ⟨hj, rfl⟩ hrun
  exact ⟨hagent, hj'.buffer, hj'.session, hj'.full.alive⟩

def jamming : List Event := List.flatten
  -- the destination fills the buffer, the agent gets it all, and the ACK is lost with the
  -- connection. The sidecar reconnects, and its ATTACH is handled
  [opening, brokerSteps 1 2, [.broker 1 (.read [1, 2, 3, 4] none)], brokerSteps 1 2, tunnelSteps 6,
    [.cut 0 0 0, .tunnel (.fail 0 [])], tunnelSteps 5, brokerSteps 2 8, tunnelSteps 2]

theorem jammed_forever_jamming : ∃ w, run (step small) (start small) jamming = some w ∧
    w.core.agent = [1, 2, 3, 4] ∧ (w.core.objs 0).s.tconn = w.core.conn ∧
    ∀ es w', run (step small) w es = some w' → w'.core.agent = [1, 2, 3, 4] := by
  have hrun := (rfl : run (step small) (start small) jamming = some _)
  refine ⟨_, hrun, rfl, rfl, fun es w' h =>
    (jammed_forever (o := 0) (b := ⟨0, [1, 2, 3, 4], 4, le_rfl⟩) ?_ h).1⟩
  constructor
  · rfl
  · exact fun o' ho => Nat.lt_one_iff.mp ho
  · exact ⟨rfl, rfl, List.cons_ne_nil _ _⟩
  · rfl
  · rfl
  · rintro (_ | _ | k) o' ho
    · cases ho
      rfl
    · cases ho
      rfl
    · cases ho
  · rintro (_ | _ | k) m hm <;> cases hm
  · rintro (_ | _ | k) m hm <;> cases hm
  · intro a ha
    have ha : a ∈ [SAct.readFrame 1, .readAgent] := ha
    rcases List.mem_pair.mp ha with rfl | rfl <;> trivial
  · intro a ha
    have ha : a ∈ [BAct.readFrame 0, .act 0 .readUpstream, .readFrame 1] := ha
    simp only [List.mem_cons, List.not_mem_nil, or_false] at ha
    rcases ha with rfl | rfl | rfl
    · trivial
    · exact ⟨rfl, trivial⟩
    · trivial

end SubstratePoc.Pair
