import SubstratePoc.Client.Inversion
import SubstratePoc.Pair.AgentStream

namespace SubstratePoc.Client
open Lib Tunnel Broker Sidecar

/-- The message is about session `sid`, and true of it: DATA is what the agent has written at this
offset, and ACK and ATTACH count no byte that the agent has not been given. -/
def Truthful (sid : UInt64) (ob : Obj) : Msg → Prop
  | .opn s target => s = sid ∧ target = ob.cs.target
  | .attach s offset target => s = sid ∧ target = ob.cs.target ∧ offset ≤ ob.agent.length
  | .attachOK _ _ => False
  | .data s offset p => s = sid ∧ Agrees ob.read offset p
  | .ack s offset => s = sid ∧ offset ≤ ob.agent.length
  | .close s dir _ => s = sid ∧ dir = dirUp

/-- The bytes of a session's agent only become more. -/
structure Grows (ob ob' : Obj) : Prop where
  target : ob'.cs.target = ob.cs.target
  read : ob.read <+: ob'.read
  agent : ob.agent <+: ob'.agent

theorem Grows.refl (ob : Obj) : Grows ob ob := ⟨rfl, List.prefix_rfl, List.prefix_rfl⟩

theorem Truthful.mono {sid : UInt64} {ob ob' : Obj} {m : Msg} (h : Truthful sid ob m)
    (hg : Grows ob ob') : Truthful sid ob' m := by
  have hlen := hg.agent.length_le
  cases m with
  | opn s target => exact ⟨h.1, h.2.trans hg.target.symm⟩
  | attach s offset target => exact ⟨h.1, h.2.1.trans hg.target.symm, h.2.2.trans hlen⟩
  | attachOK s offset => exact h
  | data s offset p => exact ⟨h.1, h.2.mono hg.read⟩
  | ack s offset => exact ⟨h.1, h.2.trans hlen⟩
  | close s dir reason => exact h

/-! ## One session -/

/-- The bytes that the agent has been given and that are still to be counted. -/
def SAct.owed : SAct → ℕ
  | .delivered n => n
  | _ => 0

def SAct.msg : SAct → Option Msg
  | .send m | .write _ m => some m
  | _ => none

section Session
variable {conn : Option ConnId} {ob ob' : Obj} {b : SAct} {p : List SAct}

theorem SDoes.grows (h : SDoes conn ob b ob' p) : Grows ob ob' := by
  refine ⟨h.ident.2, ?_, ?_⟩
  · cases h <;> first | exact List.prefix_rfl | exact List.prefix_append _ _
  · cases h <;> first | exact List.prefix_rfl | exact List.prefix_append _ _

theorem SDoes.retains (h : SDoes conn ob b ob' p) (hr : ob.cs.upBuf.Retains ob.read) :
    ob'.cs.upBuf.Retains ob'.read := by
  cases h with
  | onAttachOK offset =>
    rw [ClientSession.onAttachOK_fst]
    exact hr.trimTo offset
  | onUpstreamAck offset => exact hr.trimTo offset
  | writeUp q err cs hw =>
    obtain ⟨buf, hbuf, rfl⟩ := Option.map_eq_some_iff.mp hw
    exact hr.append hbuf
  | _ => exact hr

theorem SDoes.delivered_le (h : SDoes conn ob b ob' p) :
    ob'.cs.downDelivered + (p.map SAct.owed).sum + ob.agent.length ≤
      ob'.agent.length + ob.cs.downDelivered + b.owed := by
  -- a byte is counted after the agent has been given it
  cases h with
  | onAttachOK offset =>
    have hsum : (((ob.cs.onAttachOK offset).2.map SAct.send).map SAct.owed).sum = 0 := by
      simp [SAct.owed, List.sum_eq_zero_iff]
    rw [ClientSession.onAttachOK_fst, hsum]
    dsimp only
    omega
  | writeUp q err cs hw =>
    obtain ⟨buf, -, rfl⟩ := Option.map_eq_some_iff.mp hw
    simp [SAct.owed]
    omega
  | delivered n =>
    simp [SAct.owed, ClientSession.delivered]
    omega
  | _ =>
    simp [SAct.owed, ClientSession.onUpstreamAck, ClientSession.onClose]
    try omega

theorem SDoes.says {sid : UInt64} (h : SDoes conn ob b ob' p) (hn : ob.cs.sessionID = sid)
    (hr : ob.cs.upBuf.Retains ob.read) (hd : ob.cs.downDelivered + b.owed ≤ ob.agent.length) :
    ∀ x ∈ p, ∀ m, x.msg = some m → b.msg = some m ∨ Truthful sid ob' m := by
  -- what the session is about to say is true of it, if its buffer and its counter are right
  have hgrows := h.grows
  cases h with
  | enlist =>
    simp [SAct.msg, Truthful, hn]
  | attachFrame k =>
    simp [SAct.msg, Truthful, hn, ClientSession.attachFrame]
    omega
  | onAttachOK offset =>
    intro x hx m hm
    obtain ⟨m', hm', rfl⟩ := List.mem_map.mp hx
    cases hm
    have hq := Pair.carries_onAttachOK hr offset m hm'
    obtain ⟨q, rfl⟩ := ClientSession.eq_data_of_mem_onAttachOK hm'
    rw [ClientSession.onAttachOK_fst]
    exact .inr ⟨hn, hq⟩
  | delivered n =>
    simp [SAct.msg, Truthful, hn]
    exact hd
  | writeUp q err cs hw =>
    obtain ⟨buf, -, rfl⟩ := Option.map_eq_some_iff.mp hw
    have hchunk : Agrees (ob.read ++ (ob.cs.nextChunk q).1) (ob.cs.nextChunk q).2
        (ob.cs.nextChunk q).1 := by
      rw [ClientSession.nextChunk, Agrees, hr.endOffset_eq, List.drop_left]
    simpa [SAct.msg, Truthful, hn] using hchunk
  | closeUp reason => simp [SAct.msg, Truthful, hn]
  | _ => simp [SAct.msg]

end Session

/-! ## All sessions -/

def CAct.owed (sid : UInt64) : CAct → ℕ
  | .sess s b => if s = sid then b.owed else 0
  | _ => 0

/-- What `Run` has still to count for session `sid`. -/
def owed (w : World) (sid : UInt64) : ℕ := ((w.threads .tunnel).map (CAct.owed sid)).sum

/-- What only `Run` does: it reads the frames and hands their bytes to the agents. -/
def CAct.receives : CAct → Bool
  | .dial | .hello _ | .publish _ | .readFrame _ | .handleFrame _ _ | .sess _ (.deliverDown _ _)
  | .sess _ (.agentWrite _) | .sess _ (.delivered _) => true
  | _ => false

/-- A frame of the sidecar is HELLO, PING or PONG, or true of the session it names. -/
def Honest (w : World) (f : Frame) : Prop :=
  (∃ id, f = helloFrame id) ∨ (∃ nonce, f = pingFrame nonce ∨ f = pongFrame nonce) ∨
    ∃ sid ∈ w.ids, ∃ m, f = m.frame ∧ Truthful sid (w.objs sid) m

structure Says (w : World) : Prop where
  retains : ∀ sid, (w.objs sid).cs.upBuf.Retains (w.objs sid).read
  delivered : ∀ sid, (w.objs sid).cs.downDelivered + owed w sid ≤ (w.objs sid).agent.length
  receiver : ∀ t, t ≠ .tunnel → ∀ a ∈ w.threads t, a.receives = false
  pending : ∀ t sid b m, .sess sid b ∈ w.threads t → b.msg = some m → Truthful sid (w.objs sid) m
  honest : ∀ k, ∀ f ∈ (w.links k).sent ++ (w.links k).lost, Honest w f

section Step
variable {cfg : Config} {w w₁ w' : World} {a x : CAct} {push rest : List CAct} {t u : Thread}
  {k : ConnId} {sid : UInt64} {e : Event}

theorem owed_eq_zero_of_receives {b : SAct} (h : (CAct.sess sid b).receives = false) :
    b.owed = 0 := by
  cases b <;> first | rfl | cases h

theorem SDoes.receives {conn : Option ConnId} {ob ob' : Obj} {b : SAct} {p : List SAct}
    (h : SDoes conn ob b ob' p) (hb : (CAct.sess sid b).receives = false) :
    ∀ x ∈ p, (CAct.sess sid x).receives = false := by
  cases h with
  | onAttachOK offset =>
    intro x hx
    obtain ⟨m, -, rfl⟩ := List.mem_map.mp hx
    rfl
  | deliver | agentWrite | agentFail => cases hb
  | _ => simp [CAct.receives]

theorem CDoes.receives (h : CDoes w a w₁ push) (ha : a.receives = false) :
    ∀ x ∈ push, x.receives = false := by
  cases h with
  | sess s b ob p hb =>
    intro x hx
    obtain ⟨y, hy, rfl⟩ := List.mem_map.mp hx
    exact hb.receives ha y hy
  | ping j nonce w' hw next hn => rcases hn with rfl | rfl <;> simp [CAct.receives]
  | handleSession => cases ha
  | _ => simp_all [CAct.receives]

theorem CDoes.quiet (h : CDoes w a w₁ push) :
    (w₁.objs = w.objs ∧ (∀ sid, a.owed sid = 0) ∧
      ∀ x ∈ push, ∀ sid, x.owed sid = 0 ∧ ∀ b m, x = .sess sid b → b.msg ≠ some m) ∨
    ∃ sid b ob p, a = .sess sid b ∧ SDoes w.conn (w.objs sid) b ob p ∧
      push = p.map (.sess sid) ∧ w₁ = w.setObj sid ob := by
  cases h with
  | sess s b ob p hb => exact .inr ⟨s, b, ob, p, rfl, hb, rfl, rfl⟩
  | handleSession j f hl =>
    refine .inl ⟨rfl, fun _ => rfl, fun x hx sid => ?_⟩
    obtain ⟨b, hb, rfl⟩ := List.mem_map.mp hx
    rw [dispatch] at hb
    split at hb <;> simp only [List.mem_singleton, List.not_mem_nil] at hb <;> subst hb <;>
      refine ⟨by simp [CAct.owed, SAct.owed], ?_⟩ <;> rintro b m ⟨⟩ <;> simp [SAct.msg]
  | hello j id w' hw =>
    refine .inl ⟨?_, fun _ => rfl, by simp [CAct.owed]⟩
    cases write_writes hw <;> rfl
  | pong j nonce w' hw =>
    refine .inl ⟨?_, fun _ => rfl, by simp⟩
    cases hw <;> rfl
  | ping j nonce w' hw next hn =>
    refine .inl ⟨?_, fun _ => rfl, ?_⟩
    · cases hw <;> rfl
    · rcases hn with rfl | rfl <;> simp [CAct.owed]
  | write s j m w' hw =>
    refine .inl ⟨?_, fun _ => by simp [CAct.owed, SAct.owed], by simp⟩
    cases hw <;> rfl
  | attach j sids s hs =>
    refine .inl ⟨rfl, fun _ => rfl, ?_⟩
    simp [CAct.owed, SAct.owed]
    rintro sid b m rfl rfl
    simp [SAct.msg]
  | _ => exact .inl ⟨rfl, fun _ => rfl, by simp [CAct.owed]⟩

theorem CDoes.grows (h : CDoes w a w₁ push) (sid : UInt64) : Grows (w.objs sid) (w₁.objs sid) := by
  obtain heq | ⟨s, b, ob, p, -, hb, -, rfl⟩ := h.objs
  · rw [heq]
    exact .refl _
  · obtain ⟨rfl, heq⟩ | ⟨-, heq⟩ := update_cases w.objs s ob sid <;> rw [World.setObj_objs, heq]
    · exact hb.grows
    · exact .refl _

theorem Honest.mono {f : Frame} (h : Honest w f) (hids : ∀ sid ∈ w.ids, sid ∈ w₁.ids)
    (hg : ∀ sid ∈ w.ids, Grows (w.objs sid) (w₁.objs sid)) : Honest w₁ f := by
  obtain h | h | ⟨sid, hsid, m, hf, hm⟩ := h
  · exact .inl h
  · exact .inr (.inl h)
  · exact .inr (.inr ⟨sid, hids sid hsid, m, hf, hm.mono (hg sid hsid)⟩)

theorem sum_owed_sess (sid s : UInt64) (p : List SAct) :
    ((p.map (CAct.sess s)).map (CAct.owed sid)).sum =
      if s = sid then (p.map SAct.owed).sum else 0 := by
  rw [List.map_map]
  split_ifs with h
  · congr 1
    apply List.map_congr_left
    intro b hb
    simp [CAct.owed, h]
  · simp [Function.comp_def, CAct.owed, h]

theorem owed_run (hdo : CDoes w a w₁ push) (ht : w.threads t = a :: rest) (sid : UInt64) :
    t = .tunnel ∧ owed (w₁.setThread t (push ++ rest)) sid + a.owed sid =
      owed w sid + (push.map (CAct.owed sid)).sum ∨
    t ≠ .tunnel ∧ owed (w₁.setThread t (push ++ rest)) sid = owed w sid := by
  unfold owed
  rcases threads_run hdo t rest .tunnel with ⟨rfl, h⟩ | ⟨hne, h⟩ | ⟨k, -, hu, -⟩
  · refine .inl ⟨rfl, ?_⟩
    rw [h, ht]
    simp
    omega
  · exact .inr ⟨hne.symm, by rw [h]⟩
  · cases hu

theorem Says.owed_le {b : SAct} (hw : Says w) (hb : .sess sid b ∈ w.threads t) :
    (w.objs sid).cs.downDelivered + b.owed ≤ (w.objs sid).agent.length := by
  have hd := hw.delivered sid
  by_cases hu : t = .tunnel
  · subst hu
    have hle : b.owed ≤ owed w sid := by
      have := List.single_le_sum (by simp) _ (List.mem_map_of_mem (f := CAct.owed sid) hb)
      simpa [CAct.owed, owed] using this
    omega
  · rw [owed_eq_zero_of_receives (hw.receiver t hu _ hb)]
    omega

theorem Says.start (cfg : Config) : Says (Client.start cfg) where
  retains := fun _ => ReplayBuffer.Retains.new _
  delivered := by
    intro sid
    simp [Client.start, owed, CAct.owed, Config.newObj, newClientSession]
  receiver := by
    intro t ht a ha
    cases t <;> simp [Client.start] at ht ha
  pending := by
    intro t sid b m hb
    cases t <;> simp [Client.start] at hb
  honest := by simp [Client.start, newLink]

theorem Says.delivered_run (hw : Says w) (ht : w.threads t = a :: rest) (hdo : CDoes w a w₁ push)
    (sid : UInt64) : (w₁.objs sid).cs.downDelivered + owed (w₁.setThread t (push ++ rest)) sid ≤
      (w₁.objs sid).agent.length := by
  have hold := hw.delivered sid
  have howed := owed_run hdo ht sid
  obtain ⟨heq, ha, hpush⟩ | ⟨s, b, ob, p, rfl, hb, rfl, rfl⟩ := hdo.quiet
  · have hsum : (push.map (CAct.owed sid)).sum = 0 := by
      rw [List.sum_eq_zero_iff]
      intro n hn
      obtain ⟨x, hx, rfl⟩ := List.mem_map.mp hn
      exact (hpush x hx sid).1
    have := ha sid
    rw [heq]
    omega
  · rw [sum_owed_sess, CAct.owed] at howed
    obtain ⟨rfl, heq⟩ | ⟨hne, heq⟩ := update_cases w.objs s ob sid <;> rw [World.setObj_objs, heq]
    · have hle := hb.delivered_le
      rw [if_pos rfl, if_pos rfl] at howed
      rcases howed with ⟨-, h⟩ | ⟨hu, h⟩
      · omega
      · have := owed_eq_zero_of_receives (hw.receiver t hu _ (by rw [ht]; exact List.mem_cons_self))
        omega
    · rw [if_neg (Ne.symm hne), if_neg (Ne.symm hne)] at howed
      omega

theorem Says.pending_run {b : SAct} {m : Msg} (hw : Says w) (ho : Opened w) (ht : w.threads t = a :: rest)
    (hdo : CDoes w a w₁ push) (hb : .sess sid b ∈ (w₁.setThread t (push ++ rest)).threads u)
    (hm : b.msg = some m) : Truthful sid (w₁.objs sid) m := by
  have ha : a ∈ w.threads t := by simp [ht]
  rcases mem_threads_run hdo ht hb with hold | ⟨rfl, hp⟩ | ⟨k, -, -, heq⟩
  · exact (hw.pending u sid b m hold hm).mono (hdo.grows sid)
  · obtain ⟨-, -, hpush⟩ | ⟨s, b', ob, p, rfl, hdo', rfl, rfl⟩ := hdo.quiet
    · exact absurd hm ((hpush _ hp sid).2 b m rfl)
    · obtain ⟨y, hy, heq⟩ := List.mem_map.mp hp
      cases heq
      rw [World.setObj_objs, Function.update_self]
      rcases hdo'.says (ho.named sid) (hw.retains sid) (hw.owed_le ha) b hy m hm with h | h
      · exact (hw.pending u sid b' m ha h).mono hdo'.grows
      · exact h
  · cases heq

theorem Says.honest_puts {f : Frame} (hw : Says w) (ho : Opened w) (ha : a ∈ w.threads t)
    (hf : a.Puts k f) : Honest w f := by
  cases a with
  | hello j => exact .inl hf.2
  | ping j nonce => exact .inr (.inl ⟨nonce, .inl hf.2⟩)
  | pong j nonce => exact .inr (.inl ⟨nonce, .inr hf.2⟩)
  | sess sid b =>
    cases b with
    | write j m =>
      exact .inr (.inr ⟨sid, ho.about t _ ha sid rfl, m, hf.2, hw.pending t sid _ m ha rfl⟩)
    | _ => cases hf
  | _ => cases hf

theorem Says.run (hw : Says w) (ho : Opened w) (ht : w.threads t = a :: rest)
    (hdo : CDoes w a w₁ push) : Says (w₁.setThread t (push ++ rest)) := by
  have ha : a ∈ w.threads t := by simp [ht]
  constructor
  · intro sid
    show (w₁.objs sid).cs.upBuf.Retains (w₁.objs sid).read
    obtain heq | ⟨s, b, ob, p, -, hb, -, rfl⟩ := hdo.objs
    · rw [heq]
      exact hw.retains sid
    · obtain ⟨rfl, heq⟩ | ⟨-, heq⟩ := update_cases w.objs s ob sid <;> rw [World.setObj_objs, heq]
      · exact hb.retains (hw.retains sid)
      · exact hw.retains sid
  · exact hw.delivered_run ht hdo
  · intro u hu x hx
    rcases mem_threads_run hdo ht hx with hx | ⟨rfl, hp⟩ | ⟨k, -, -, rfl⟩
    · exact hw.receiver u hu x hx
    · exact hdo.receives (hw.receiver u hu a ha) x hp
    · rfl
  · intro u sid b m hb hm
    show Truthful sid (w₁.objs sid) m
    exact hw.pending_run ho ht hdo hb hm
  · intro k f hf
    have hmono : ∀ g, Honest w g → Honest w₁ g :=
      fun g hg => hg.mono (fun _ h => hdo.ids ▸ h) fun sid _ => hdo.grows sid
    have hold : ∀ g ∈ (w.links k).sent ++ (w.links k).lost, Honest w₁ g :=
      fun g hg => hmono g (hw.honest k g hg)
    have hnew : ∀ g, a.Puts k g → Honest w₁ g := fun g hg => hmono g (hw.honest_puts ho ha hg)
    have hl := hdo.links k
    show Honest w₁ f
    have hf : f ∈ (w₁.links k).sent ++ (w₁.links k).lost := hf
    generalize w₁.links k = l at hl hf
    cases hl with
    | same | flagged => exact hold f hf
    | made => simp [newLink] at hf
    | sent g hg =>
      by_cases hfg : f = g
      · exact hfg ▸ hnew g hg
      · exact hold f (by simpa [hfg] using hf)
    | lost g hg =>
      by_cases hfg : f = g
      · exact hfg ▸ hnew g hg
      · exact hold f (by simpa [hfg] using hf)

theorem Says.accept {s : UInt64} {target : Bytes} (hw : Says w) (ho : Opened w) (hs : s ∉ w.ids) :
    Says (w.accept cfg s target) := by
  have hold : ∀ sid ∈ w.ids, (w.accept cfg s target).objs sid = w.objs sid := by
    intro sid hsid
    refine Function.update_of_ne ?_ _ _
    rintro rfl
    exact hs hsid
  have hobj := fun sid => update_cases w.objs s (cfg.newObj s target) sid
  have howed : ∀ sid, owed (w.accept cfg s target) sid = owed w sid := fun _ => rfl
  constructor
  · intro sid
    rw [World.accept_objs]
    obtain ⟨rfl, heq⟩ | ⟨-, heq⟩ := hobj sid <;> rw [heq]
    · exact ReplayBuffer.Retains.new _
    · exact hw.retains sid
  · intro sid
    rw [World.accept_objs, howed]
    obtain ⟨rfl, heq⟩ | ⟨-, heq⟩ := hobj sid <;> rw [heq]
    · -- nobody has anything to do for a session that is not there
      have hzero : owed w sid = 0 := by
        rw [owed, List.sum_eq_zero_iff]
        intro n hn
        obtain ⟨a, ha, rfl⟩ := List.mem_map.mp hn
        cases a with
        | sess s b => exact if_neg fun h => hs (ho.about _ _ ha sid h)
        | _ => rfl
      rw [hzero]
      rfl
    · exact hw.delivered sid
  · intro t ht a ha
    rcases mem_threads_accept ha with ⟨-, rfl⟩ | ha
    · rfl
    · exact hw.receiver t ht a ha
  · intro t sid b m hb hm
    rcases mem_threads_accept hb with ⟨-, heq⟩ | hb
    · cases heq
      cases hm
    · rw [hold sid (ho.about t _ hb sid rfl)]
      exact hw.pending t sid b m hb hm
  · intro k f hf
    refine (hw.honest k f hf).mono (fun _ => List.mem_cons_of_mem _) fun sid hsid => ?_
    rw [hold sid hsid]
    exact .refl _

theorem Says.step (hw : Says w) (ho : Opened w) (h : Client.step cfg w e = some w') : Says w' := by
  cases step_steps h with
  | run t c a rest push w₁ ht hdo => exact hw.run ho ht hdo
  | accept s target hs => exact hw.accept ho hs

end Step

/-- Whatever frames the broker sends and however the goroutines interleave, every frame that the
sidecar writes to a connection is HELLO, PING or PONG, or is true of the session that it names: its
bytes are those that this session's agent has written at its offset, and it acknowledges no byte
that this agent has not been given. -/
theorem frames_truthful {cfg : Config} {es : List Event} {w : World}
    (h : run (step cfg) (start cfg) es = some w) (k : ConnId) :
    ∀ f ∈ (w.links k).sent ++ (w.links k).lost, Honest w f := by
  have hstep (w : World) (e : Event) (w' : World) (hI : Opened w ∧ Says w)
      (h : step cfg w e = some w') : Opened w' ∧ Says w' :=
    ⟨hI.1.step h, hI.2.step hI.1 h⟩
  obtain ⟨-, hs⟩ := run_preserves hstep ⟨.start cfg, .start cfg⟩ h
  exact hs.honest k

def exchanged : List Event :=
  -- the agent of session 7 writes two bytes and is given one
  opened 7 2 ++ connected [7] ++ .run (.proxy 7) (.io (.read [1, 2] none)) ::
    List.replicate 3 (.run (.proxy 7) (.io .ok)) ++
    .run .tunnel (.frame (Msg.data 7 0 [5]).frame) :: List.replicate 6 (.run .tunnel (.io .ok))

theorem frames_truthful_exchanged : ∃ w, run (step demo) (start demo) exchanged = some w ∧
    (w.links 0).sent = [helloFrame [97], (Msg.attach 7 0 [120]).frame, (Msg.data 7 0 [1, 2]).frame,
      (Msg.ack 7 1).frame] ∧
    (w.objs 7).agent = [5] ∧ ∀ f ∈ (w.links 0).sent ++ (w.links 0).lost, Honest w f := by
  have hrun := (rfl : run (step demo) (start demo) exchanged = some _)
  exact ⟨_, hrun, rfl, rfl, frames_truthful hrun 0⟩

end SubstratePoc.Client
