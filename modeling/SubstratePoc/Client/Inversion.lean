import SubstratePoc.Client.System

namespace SubstratePoc.Client
open Lib Tunnel Broker Sidecar
open Pair (closeReason)

/-- `sexec`. -/
inductive SDoes (conn : Option ConnId) (ob : Obj) : SAct → Obj → List SAct → Prop
  | enlist : SDoes conn ob .enlist { ob with listed := true }
      [.send (.opn ob.cs.sessionID ob.cs.target), .readAgent]
  | attachFrame (k : ConnId) : SDoes conn ob (.attachFrame k) ob [.write k ob.cs.attachFrame]
  | onAttachOK (offset : ℕ) :
    SDoes conn ob (.onAttachOK offset) { ob with cs := (ob.cs.onAttachOK offset).1 }
      ((ob.cs.onAttachOK offset).2.map .send)
  | skip (offset : ℕ) (p : Bytes) : SDoes conn ob (.deliverDown offset p) ob []
  | deliver (offset : ℕ) (p q : Bytes) (hq : ob.cs.deliverDown offset p = some q) :
    SDoes conn ob (.deliverDown offset p) ob [.agentWrite q]
  | agentWrite (q : Bytes) (hd : ob.cs.dead = false) (hc : ob.cs.downClosed = false) :
    SDoes conn ob (.agentWrite q) { ob with agent := ob.agent ++ q } [.delivered q.length]
  | agentFail (q : Bytes) (n : ℕ) :
    SDoes conn ob (.agentWrite q) { ob with agent := ob.agent ++ q.take n } [.closeAll]
  | delivered (n : ℕ) : SDoes conn ob (.delivered n) { ob with cs := ob.cs.delivered n }
      [.send (.ack ob.cs.sessionID (ob.cs.downDelivered + n))]
  | onUpstreamAck (offset : ℕ) :
    SDoes conn ob (.onUpstreamAck offset) { ob with cs := ob.cs.onUpstreamAck offset } []
  | closeOther (dir : UInt8) : SDoes conn ob (.onClose dir) ob []
  | onClose (dir : UInt8) : SDoes conn ob (.onClose dir) { ob with cs := ob.cs.onClose } []
  | onCloseAll (dir : UInt8) :
    SDoes conn ob (.onClose dir) { ob with cs := ob.cs.onClose } [.closeAll]
  | closeAgain : SDoes conn ob .closeAll ob []
  | closeAll : SDoes conn ob .closeAll { ob with cs := { ob.cs with dead := true } } [.removeSession]
  | removeSession : SDoes conn ob .removeSession { ob with listed := false } []
  | sendNone (m : Msg) (hc : conn = none) : SDoes conn ob (.send m) ob []
  | send (m : Msg) (k : ConnId) (hc : conn = some k) : SDoes conn ob (.send m) ob [.write k m]
  | readAgent (p : Bytes) (err : Option Cause) : SDoes conn ob .readAgent ob [.writeUp p err]
  | written : SDoes conn ob (.writeUp [] none) ob [.readAgent]
  | ended (cause : Cause) :
    SDoes conn ob (.writeUp [] (some cause)) ob [.closeUp (closeReason cause)]
  | writeDead (p : Bytes) (err : Option Cause) : SDoes conn ob (.writeUp p err) ob []
  | writeDeadClose (p : Bytes) (err : Option Cause) (text : Bytes) :
    SDoes conn ob (.writeUp p err) ob [.closeUp (closeReason (.err text))]
  | writeUp (p : Bytes) (err : Option Cause) (cs : ClientSession) (h : ob.cs.writeUp p = some cs) :
    SDoes conn ob (.writeUp p err) { ob with cs, read := ob.read ++ (ob.cs.nextChunk p).1 }
      [.send (.data cs.sessionID (ob.cs.nextChunk p).2 (ob.cs.nextChunk p).1),
        .writeUp (p.drop (ob.cs.nextChunk p).1.length) err]
  | closeUpAgain (reason : Bytes) : SDoes conn ob (.closeUp reason) ob []
  | closeUp (reason : Bytes) :
    SDoes conn ob (.closeUp reason) { ob with cs := { ob.cs with upClosed := true } }
      [.send (.close ob.cs.sessionID dirUp reason)]

theorem writeUp_does {conn : Option ConnId} {ob ob' : Obj} {p : Bytes} {err : Option Cause}
    {c : Choice} {push : List SAct} (h : sexec conn ob (.writeUp p err) c = some (ob', push)) :
    SDoes conn ob (.writeUp p err) ob' push := by
  simp only [sexec] at h
  split_ifs at h with hp hd hf
  · subst hp
    cases err <;> cases h
    · exact .written
    · exact .ended _
  · cases c <;> cases h
    · exact .writeDead p err
    · exact .writeDeadClose p err _
  · split at h <;> cases h
    · exact .writeDead p err
    · exact .writeUp p err _ (by assumption)

theorem sexec_does {conn : Option ConnId} {ob ob' : Obj} {a : SAct} {c : Choice} {push : List SAct}
    (h : sexec conn ob a c = some (ob', push)) : SDoes conn ob a ob' push := by
  cases a with
  | enlist =>
    cases h
    exact .enlist
  | attachFrame k =>
    cases h
    exact .attachFrame k
  | onAttachOK offset =>
    cases h
    exact .onAttachOK offset
  | deliverDown offset p =>
    simp only [sexec] at h
    split at h <;> cases h
    · exact .skip offset p
    · exact .deliver offset p _ (by assumption)
  | agentWrite q =>
    simp only [sexec] at h
    cases c with
    | ok =>
      dsimp only at h
      split_ifs at h with hs
      cases h
      obtain ⟨hd, hc⟩ : ob.cs.dead = false ∧ ob.cs.downClosed = false := by simpa using hs
      exact .agentWrite q hd hc
    | fail n text =>
      dsimp only at h
      split_ifs at h <;> cases h
      · have hf : SDoes conn ob (.agentWrite q) { ob with agent := ob.agent ++ q.take 0 }
            [.closeAll] := .agentFail q 0
        rwa [List.take_zero] at hf
      · exact .agentFail q n
    | read p err => cases h
  | delivered n =>
    cases h
    exact .delivered n
  | onUpstreamAck offset =>
    cases h
    exact .onUpstreamAck offset
  | onClose dir =>
    simp only [sexec] at h
    split_ifs at h
    · cases h
      exact .closeOther dir
    · cases c <;> cases h
      · exact .onClose dir
      · exact .onCloseAll dir
  | closeAll =>
    simp only [sexec, ClientSession.closeAll] at h
    split_ifs at h <;> cases h
    · exact .closeAgain
    · exact .closeAll
  | removeSession =>
    cases h
    exact .removeSession
  | send m =>
    simp only [sexec] at h
    split at h <;> cases h
    · exact .sendNone m rfl
    · exact .send m _ rfl
  | write k m => cases h
  | readAgent =>
    cases c with
    | read p err =>
      simp only [sexec] at h
      split_ifs at h
      cases h
      exact .readAgent p err
    | _ => cases h
  | writeUp p err => exact writeUp_does h
  | closeUp reason =>
    simp only [sexec, ClientSession.closeUp] at h
    split_ifs at h <;> cases h
    · exact .closeUpAgain reason
    · exact .closeUp reason

/-- `WriteFrame` on connection `k`. -/
inductive Writes (w : World) (k : ConnId) (f : Frame) : World → Prop
  | sent (ho : (w.links k).closed = false) :
    Writes w k f (w.setLink k { w.links k with sent := (w.links k).sent ++ [f] })
  | lost : Writes w k f (w.setLink k { w.links k with lost := (w.links k).lost ++ [f] })

theorem write_writes {w w' : World} {k : ConnId} {f : Frame} {c : Choice}
    (h : w.write k f c = some w') : Writes w k f w' := by
  cases c with
  | ok =>
    simp only [World.write] at h
    split_ifs at h with hs
    cases h
    obtain ⟨-, ho⟩ : refusal f = none ∧ (w.links k).closed = false := by simpa using hs
    exact .sent ho
  | fail n text =>
    cases h
    exact .lost
  | read p err => cases h

def helloFrame (id : Bytes) : Frame := { type := FrameType.typeHello.byte, actorID := id }

def pongFrame (nonce : UInt64) : Frame := { type := FrameType.typePong.byte, nonce }

def pingFrame (nonce : UInt64) : Frame := { type := FrameType.typePing.byte, nonce }

/-- `cexec`. -/
inductive CDoes (w : World) : CAct → World → List CAct → Prop
  | dial : CDoes w .dial ({ w with conns := w.conns + 1 }.setLink w.conns newLink) [.hello w.conns]
  | dialFail : CDoes w .dial w [.dial]
  | hello (k : ConnId) (id : Bytes) (w' : World)
      (hw : w.write k (helloFrame id) .ok = some w') : CDoes w (.hello k) w' [.publish k]
  | helloFail (k : ConnId) : CDoes w (.hello k) w [.closeConn k, .dial]
  | publish (k : ConnId) : CDoes w (.publish k) { w with conn := some k }
      [.setLastPong, .attaching k w.live, .startPing k, .readFrame k]
  | setLastPong (t : ℤ) : CDoes w .setLastPong { w with lastPong := t } []
  | attached (k : ConnId) : CDoes w (.attaching k []) w []
  | attach (k : ConnId) (sids : List UInt64) (sid : UInt64) (h : sid ∈ sids) :
    CDoes w (.attaching k sids) w [.sess sid (.attachFrame k), .attaching k (sids.erase sid)]
  | startPing (k : ConnId) : CDoes w (.startPing k) (w.setThread (.ping k) [.tick k 0]) []
  | readFrame (k : ConnId) (f : Frame) : CDoes w (.readFrame k) w [.handleFrame k f, .readFrame k]
  | readFail (k : ConnId) :
    CDoes w (.readFrame k) w [.disconnect k, .closeConn k, .cancelPing k, .dial]
  | handlePong (k : ConnId) (f : Frame) : CDoes w (.handleFrame k f) w [.setLastPong]
  | handlePing (k : ConnId) (f : Frame) : CDoes w (.handleFrame k f) w [.pong k f.nonce]
  | handleSession (k : ConnId) (f : Frame) (hl : (w.objs f.sessionID).listed = true) :
    CDoes w (.handleFrame k f) w ((dispatch f).map (.sess f.sessionID))
  | handleNone (k : ConnId) (f : Frame) : CDoes w (.handleFrame k f) w []
  | pong (k : ConnId) (nonce : UInt64) (w' : World) (hw : Writes w k (pongFrame nonce) w') :
    CDoes w (.pong k nonce) w' []
  | disconnect (k : ConnId) :
    CDoes w (.disconnect k) { w with conn := if w.conn = some k then none else w.conn } []
  | closeConn (k : ConnId) : CDoes w (.closeConn k) (w.closeConn k) []
  | cancelPing (k : ConnId) :
    CDoes w (.cancelPing k) (w.setLink k { w.links k with cancelled := true }) []
  | overdue (k : ConnId) (nonce : UInt64) : CDoes w (.tick k nonce) w [.closeConn k]
  | tick (k : ConnId) (nonce : UInt64) : CDoes w (.tick k nonce) w [.ping k (nonce + 1)]
  | pingDone (k : ConnId) (nonce : UInt64) : CDoes w (.tick k nonce) w []
  | ping (k : ConnId) (nonce : UInt64) (w' : World) (hw : Writes w k (pingFrame nonce) w')
      (next : CAct) (hn : next = .tick k nonce ∨ next = .closeConn k) :
    CDoes w (.ping k nonce) w' [next]
  | write (sid : UInt64) (k : ConnId) (m : Msg) (w' : World) (hw : Writes w k m.frame w') :
    CDoes w (.sess sid (.write k m)) w' []
  | sess (sid : UInt64) (a : SAct) (ob : Obj) (push : List SAct)
      (h : SDoes w.conn (w.objs sid) a ob push) :
    CDoes w (.sess sid a) (w.setObj sid ob) (push.map (.sess sid))

theorem sess_does {cfg : Config} {w w' : World} {sid : UInt64} {a : SAct} {c : CChoice}
    {push : List CAct} (h : cexec cfg w (.sess sid a) c = some (w', push)) :
    CDoes w (.sess sid a) w' push := by
  simp only [cexec] at h
  split at h
  · obtain ⟨w₁, hw, heq⟩ := Option.map_eq_some_iff.mp h
    cases heq
    exact .write sid _ _ _ (write_writes hw)
  · obtain ⟨r, hr, heq⟩ := Option.map_eq_some_iff.mp h
    cases heq
    exact .sess sid a _ _ (sexec_does hr)
  · cases h

theorem cexec_does {cfg : Config} {w w' : World} {a : CAct} {c : CChoice} {push : List CAct}
    (h : cexec cfg w a c = some (w', push)) : CDoes w a w' push := by
  cases a with
  | dial =>
    simp only [cexec] at h
    split at h <;> cases h
    · exact .dial
    · exact .dialFail
  | hello k =>
    simp only [cexec] at h
    split at h
    · obtain ⟨w₁, hw, heq⟩ := Option.map_eq_some_iff.mp h
      cases heq
      exact .hello k _ _ hw
    · cases h
      exact .helloFail k
    · cases h
  | publish k =>
    cases h
    exact .publish k
  | setLastPong =>
    simp only [cexec] at h
    split at h <;> cases h
    exact .setLastPong _
  | attaching k sids =>
    simp only [cexec] at h
    split at h
    · cases h
      exact .attached k
    · split_ifs at h with hs
      cases h
      exact .attach k _ _ hs
    · cases h
  | startPing k =>
    cases h
    exact .startPing k
  | readFrame k =>
    simp only [cexec] at h
    split at h <;> cases h
    · exact .readFrame k _
    · exact .readFail k
  | handleFrame k f =>
    simp only [cexec] at h
    split at h
    · cases h
      exact .handlePong k f
    · cases h
      exact .handlePing k f
    · split_ifs at h with hl <;> cases h
      · exact .handleSession k f hl
      · exact .handleNone k f
  | pong k nonce =>
    simp only [cexec] at h
    split at h
    · obtain ⟨w₁, hw, heq⟩ := Option.map_eq_some_iff.mp h
      cases heq
      exact .pong k nonce _ (write_writes hw)
    · cases h
  | disconnect k =>
    cases h
    exact .disconnect k
  | closeConn k =>
    cases h
    exact .closeConn k
  | cancelPing k =>
    cases h
    exact .cancelPing k
  | tick k nonce =>
    simp only [cexec] at h
    split at h
    · split_ifs at h <;> cases h
      · exact .overdue k nonce
      · exact .tick k nonce
    · split_ifs at h
      cases h
      exact .pingDone k nonce
    · cases h
  | ping k nonce =>
    simp only [cexec] at h
    split at h
    · obtain ⟨w₁, hw, heq⟩ := Option.map_eq_some_iff.mp h
      have hwr := write_writes hw
      split at heq <;> cases heq
      · exact .ping k nonce _ hwr _ (.inl rfl)
      · exact .ping k nonce _ hwr _ (.inr rfl)
    · cases h
  | sess sid a => exact sess_does h

/-- `step`. -/
inductive Steps (cfg : Config) (w : World) : Event → World → Prop
  | accept (sid : UInt64) (target : Bytes) (h : sid ∉ w.ids) :
    Steps cfg w (.accept sid target) (w.accept cfg sid target)
  | run (t : Thread) (c : CChoice) (a : CAct) (rest push : List CAct) (w₁ : World)
      (ht : w.threads t = a :: rest) (hdo : CDoes w a w₁ push) :
    Steps cfg w (.run t c) (w₁.setThread t (push ++ rest))

theorem step_steps {cfg : Config} {w w' : World} {e : Event} (h : step cfg w e = some w') :
    Steps cfg w e w' := by
  cases e with
  | accept sid target =>
    simp only [step] at h
    split_ifs at h with hs
    cases h
    exact .accept sid target hs
  | run t c =>
    simp only [step] at h
    split at h
    · cases h
    · rename_i a rest ht
      obtain ⟨r, hr, heq⟩ := Option.map_eq_some_iff.mp h
      cases heq
      exact .run t c a rest r.2 r.1 ht (cexec_does hr)

/-! ## What an action changes -/

theorem SDoes.ident {conn : Option ConnId} {ob ob' : Obj} {b : SAct} {p : List SAct}
    (h : SDoes conn ob b ob' p) :
    ob'.cs.sessionID = ob.cs.sessionID ∧ ob'.cs.target = ob.cs.target := by
  cases h with
  | onAttachOK offset =>
    rw [ClientSession.onAttachOK_fst]
    exact ⟨rfl, rfl⟩
  | writeUp q err cs hw =>
    obtain ⟨buf, -, rfl⟩ := Option.map_eq_some_iff.mp hw
    exact ⟨rfl, rfl⟩
  | _ => exact ⟨rfl, rfl⟩

theorem SDoes.listed {conn : Option ConnId} {ob ob' : Obj} {b : SAct} {p : List SAct}
    (h : SDoes conn ob b ob' p) (hl : ob'.listed = true) :
    ob.listed = true ∨ b = .enlist ∧
      p = [.send (.opn ob.cs.sessionID ob.cs.target), .readAgent] := by
  cases h with
  | enlist => exact .inr ⟨rfl, rfl⟩
  | removeSession => cases hl
  | _ => exact .inl hl

/-- The frame that an action hands to a connection. -/
def CAct.Puts (k : ConnId) (f : Frame) : CAct → Prop
  | .hello j => j = k ∧ ∃ id, f = helloFrame id
  | .pong j nonce => j = k ∧ f = pongFrame nonce
  | .ping j nonce => j = k ∧ f = pingFrame nonce
  | .sess _ (.write j m) => j = k ∧ f = m.frame
  | _ => False

/-- How an action changes connection `k`. -/
inductive Relinks (w : World) (a : CAct) (k : ConnId) : Link → Link → Prop
  | same (l : Link) : Relinks w a k l l
  | made (l : Link) (ha : a = .dial) (hk : k = w.conns) : Relinks w a k l newLink
  | sent (l : Link) (f : Frame) (ha : a.Puts k f) :
    Relinks w a k l { l with sent := l.sent ++ [f] }
  | lost (l : Link) (f : Frame) (ha : a.Puts k f) (hf : ∀ j, a ≠ .hello j) :
    Relinks w a k l { l with lost := l.lost ++ [f] }
  | flagged (l : Link) (closed cancelled : Bool) : Relinks w a k l { l with closed, cancelled }

section Changes
variable {w w₁ : World} {a : CAct} {push : List CAct}

theorem relinks_setLink {k j : ConnId} {l : Link} (h : Relinks w a j (w.links j) l) :
    Relinks w a k (w.links k) ((w.setLink j l).links k) := by
  show Relinks w a k (w.links k) (Function.update w.links j l k)
  obtain ⟨rfl, hl⟩ | ⟨-, hl⟩ := update_cases w.links j l k <;> rw [hl]
  · exact h
  · exact .same _

theorem Writes.relinks {j k : ConnId} {f : Frame} (h : Writes w j f w₁) (ha : a.Puts j f)
    (hf : ∀ i, a ≠ .hello i) : Relinks w a k (w.links k) (w₁.links k) := by
  cases h with
  | sent => exact relinks_setLink (.sent _ f ha)
  | lost => exact relinks_setLink (.lost _ f ha hf)

theorem CDoes.links (h : CDoes w a w₁ push) (k : ConnId) :
    Relinks w a k (w.links k) (w₁.links k) := by
  cases h with
  | dial =>
    show Relinks w .dial k (w.links k) (Function.update w.links w.conns newLink k)
    obtain ⟨hk, hl⟩ | ⟨-, hl⟩ := update_cases w.links w.conns newLink k <;> rw [hl]
    · exact .made _ rfl hk
    · exact .same _
  | hello j id w' hw =>
    simp only [World.write] at hw
    split_ifs at hw
    cases hw
    exact relinks_setLink (.sent _ _ ⟨rfl, id, rfl⟩)
  | pong j nonce w' hw | ping j nonce w' hw => exact hw.relinks ⟨rfl, rfl⟩ (by simp)
  | write sid j m w' hw => exact hw.relinks ⟨rfl, rfl⟩ (by simp)
  | closeConn j => exact relinks_setLink (.flagged _ _ _)
  | cancelPing j => exact relinks_setLink (.flagged _ _ _)
  | _ => exact .same _

theorem CDoes.conns (h : CDoes w a w₁ push) :
    w₁.conns = w.conns ∨ a = .dial ∧ w₁.conns = w.conns + 1 := by
  cases h with
  | dial => exact .inr ⟨rfl, rfl⟩
  | hello j id w' hw =>
    cases write_writes hw <;> exact .inl rfl
  | pong j nonce w' hw | ping j nonce w' hw => cases hw <;> exact .inl rfl
  | write sid j m w' hw => cases hw <;> exact .inl rfl
  | _ => exact .inl rfl

theorem CDoes.conn_eq (h : CDoes w a w₁ push) :
    w₁.conn = w.conn ∨ w₁.conn = none ∨ ∃ k, a = .publish k ∧ w₁.conn = some k := by
  cases h with
  | publish k => exact .inr (.inr ⟨k, rfl, rfl⟩)
  | disconnect k =>
    show (if w.conn = some k then none else w.conn) = _ ∨ _
    split_ifs
    · exact .inr (.inl rfl)
    · exact .inl rfl
  | hello j id w' hw => cases write_writes hw <;> exact .inl rfl
  | pong j nonce w' hw | ping j nonce w' hw => cases hw <;> exact .inl rfl
  | write sid j m w' hw => cases hw <;> exact .inl rfl
  | _ => exact .inl rfl

theorem CDoes.objs (h : CDoes w a w₁ push) : w₁.objs = w.objs ∨
    ∃ sid b ob p, a = .sess sid b ∧ SDoes w.conn (w.objs sid) b ob p ∧
      push = p.map (.sess sid) ∧ w₁ = w.setObj sid ob := by
  cases h with
  | sess sid b ob p hb => exact .inr ⟨sid, b, ob, p, rfl, hb, rfl, rfl⟩
  | hello j id w' hw => cases write_writes hw <;> exact .inl rfl
  | pong j nonce w' hw | ping j nonce w' hw => cases hw <;> exact .inl rfl
  | write sid j m w' hw => cases hw <;> exact .inl rfl
  | _ => exact .inl rfl

theorem CDoes.ident (h : CDoes w a w₁ push) (sid : UInt64) :
    (w₁.objs sid).cs.sessionID = (w.objs sid).cs.sessionID ∧
      (w₁.objs sid).cs.target = (w.objs sid).cs.target := by
  obtain heq | ⟨s, b, ob, p, -, hb, -, rfl⟩ := h.objs
  · rw [heq]
    exact ⟨rfl, rfl⟩
  · obtain ⟨rfl, heq⟩ | ⟨-, heq⟩ := update_cases w.objs s ob sid <;>
      rw [World.setObj_objs, heq]
    · exact hb.ident
    · exact ⟨rfl, rfl⟩

theorem CDoes.listed {sid : UInt64} (h : CDoes w a w₁ push) (hl : (w₁.objs sid).listed = true) :
    (w.objs sid).listed = true ∨ a = .sess sid .enlist ∧
      .sess sid (.send (.opn (w.objs sid).cs.sessionID (w.objs sid).cs.target)) ∈ push := by
  obtain heq | ⟨s, b, ob, p, rfl, hb, rfl, rfl⟩ := h.objs
  · exact .inl (heq ▸ hl)
  · obtain ⟨rfl, heq⟩ | ⟨-, heq⟩ := update_cases w.objs s ob sid <;>
      simp only [World.setObj, heq] at hl
    · obtain hl | ⟨rfl, rfl⟩ := hb.listed hl
      · exact .inl hl
      · exact .inr ⟨rfl, by simp⟩
    · exact .inl hl

theorem CDoes.ids (h : CDoes w a w₁ push) : w₁.ids = w.ids := by
  cases h with
  | hello j id w' hw => cases write_writes hw <;> rfl
  | pong j nonce w' hw | ping j nonce w' hw => cases hw <;> rfl
  | write sid j m w' hw => cases hw <;> rfl
  | _ => rfl

theorem CDoes.threads (h : CDoes w a w₁ push) : w₁.threads = w.threads ∨
    ∃ k, a = .startPing k ∧ w₁.threads = Function.update w.threads (.ping k) [.tick k 0] := by
  cases h with
  | startPing k => exact .inr ⟨k, rfl, rfl⟩
  | hello j id w' hw => cases write_writes hw <;> exact .inl rfl
  | pong j nonce w' hw | ping j nonce w' hw => cases hw <;> exact .inl rfl
  | write sid j m w' hw => cases hw <;> exact .inl rfl
  | _ => exact .inl rfl

theorem threads_run (hdo : CDoes w a w₁ push) (t : Thread) (rest : List CAct) (u : Thread) :
    u = t ∧ (w₁.setThread t (push ++ rest)).threads u = push ++ rest ∨
    u ≠ t ∧ (w₁.setThread t (push ++ rest)).threads u = w.threads u ∨
    ∃ k, a = .startPing k ∧ u = .ping k ∧ u ≠ t ∧
      (w₁.setThread t (push ++ rest)).threads u = [.tick k 0] := by
  obtain ⟨rfl, h⟩ | ⟨hu, h⟩ := update_cases w₁.threads t (push ++ rest) u
  · exact .inl ⟨rfl, h⟩
  · obtain heq | ⟨k, rfl, heq⟩ := hdo.threads
    · exact .inr (.inl ⟨hu, h.trans (congrFun heq u)⟩)
    · obtain ⟨rfl, h'⟩ | ⟨-, h'⟩ := update_cases w.threads (.ping k) [.tick k 0] u
      · exact .inr (.inr ⟨k, rfl, rfl, hu, h.trans (heq ▸ h')⟩)
      · exact .inr (.inl ⟨hu, h.trans (heq ▸ h')⟩)

theorem mem_threads_run {t u : Thread} {rest : List CAct} {x : CAct} (hdo : CDoes w a w₁ push)
    (ht : w.threads t = a :: rest)
    (hx : x ∈ (w₁.setThread t (push ++ rest)).threads u) :
    x ∈ w.threads u ∨ u = t ∧ x ∈ push ∨ ∃ k, a = .startPing k ∧ u = .ping k ∧ x = .tick k 0 := by
  rcases threads_run hdo t rest u with ⟨rfl, h⟩ | ⟨-, h⟩ | ⟨k, ha, hu, -, h⟩ <;>
    rw [h] at hx
  · rcases List.mem_append.mp hx with hx | hx
    · exact .inr (.inl ⟨rfl, hx⟩)
    · exact .inl (by simp [ht, hx])
  · exact .inl hx
  · exact .inr (.inr ⟨k, ha, hu, List.mem_singleton.mp hx⟩)

theorem mem_threads_keep {t u : Thread} {rest : List CAct} {x : CAct} (hdo : CDoes w a w₁ push)
    (ht : w.threads t = a :: rest) (hu : ∀ k, u ≠ .ping k) (hx : x ∈ w.threads u) :
    u = t ∧ x = a ∨ x ∈ (w₁.setThread t (push ++ rest)).threads u := by
  rcases threads_run hdo t rest u with ⟨rfl, h⟩ | ⟨-, h⟩ | ⟨k, -, rfl, -⟩
  · rw [ht] at hx
    rcases List.mem_cons.mp hx with rfl | hx
    · exact .inl ⟨rfl, rfl⟩
    · exact .inr (by simp [h, hx])
  · exact .inr (h ▸ hx)
  · exact absurd rfl (hu k)

theorem mem_threads_push {t : Thread} {rest : List CAct} {x : CAct} (hx : x ∈ push) :
    x ∈ (w₁.setThread t (push ++ rest)).threads t := by
  simp [World.setThread, hx]

theorem mem_threads_accept {cfg : Config} {sid : UInt64} {target : Bytes} {u : Thread} {x : CAct}
    (hx : x ∈ (w.accept cfg sid target).threads u) :
    u = .proxy sid ∧ x = .sess sid .enlist ∨ x ∈ w.threads u := by
  rw [World.accept_threads] at hx
  obtain ⟨hu, h⟩ | ⟨-, h⟩ := update_cases w.threads (.proxy sid) [.sess sid .enlist] u <;>
    rw [h] at hx
  · exact .inl ⟨hu, List.mem_singleton.mp hx⟩
  · exact .inr hx

end Changes

/-! ## The sessions that there are -/

/-- The session that something is to be done about. -/
def CAct.About (sid : UInt64) : CAct → Prop
  | .attaching _ sids => sid ∈ sids
  | .sess s _ => s = sid
  | _ => False

/-- Only sessions that have got their number are in the map or in anybody's hands. -/
structure Opened (w : World) : Prop where
  named : ∀ sid, (w.objs sid).cs.sessionID = sid
  listed : ∀ sid, (w.objs sid).listed = true → sid ∈ w.ids
  about : ∀ t, ∀ a ∈ w.threads t, ∀ sid, a.About sid → sid ∈ w.ids

section Opened
variable {cfg : Config} {w w₁ w' : World} {a : CAct} {push : List CAct} {e : Event}

theorem CDoes.about (h : CDoes w a w₁ push) : ∀ x ∈ push, ∀ sid, x.About sid →
    a.About sid ∨ (w.objs sid).listed = true := by
  cases h with
  | publish k => simp [CAct.About, World.live]
  | attach k sids s hs =>
    simp only [List.mem_cons, List.not_mem_nil, or_false, forall_eq_or_imp, forall_eq, CAct.About]
    exact ⟨fun sid h => .inl (h ▸ hs), fun sid h => .inl (List.mem_of_mem_erase h)⟩
  | handleSession k f hl =>
    intro x hx sid hsid
    obtain ⟨b, -, rfl⟩ := List.mem_map.mp hx
    cases hsid
    exact .inr hl
  | sess s b ob p hb =>
    intro x hx sid hsid
    obtain ⟨b, -, rfl⟩ := List.mem_map.mp hx
    exact .inl hsid
  | ping j nonce w' hw next hn => rcases hn with rfl | rfl <;> simp [CAct.About]
  | _ => simp [CAct.About]

theorem Opened.start (cfg : Config) : Opened (start cfg) where
  named := fun _ => rfl
  listed := by simp [Client.start, Config.newObj]
  about := by
    intro t a ha sid hsid
    cases t <;> simp [Client.start] at ha
    subst ha
    cases hsid

theorem Opened.step (hw : Opened w) (h : step cfg w e = some w') : Opened w' := by
  cases step_steps h with
  | accept s target hs =>
    constructor
    · intro sid
      obtain ⟨rfl, heq⟩ | ⟨-, heq⟩ := update_cases w.objs s (cfg.newObj s target) sid <;>
        rw [World.accept_objs, heq]
      · rfl
      · exact hw.named sid
    · intro sid hl
      obtain ⟨rfl, heq⟩ | ⟨-, heq⟩ := update_cases w.objs s (cfg.newObj s target) sid <;>
        rw [World.accept_objs, heq] at hl
      · exact List.mem_cons_self
      · exact List.mem_cons_of_mem _ (hw.listed sid hl)
    · intro t a ha sid hsid
      rcases mem_threads_accept ha with ⟨-, rfl⟩ | ha
      · cases hsid
        exact List.mem_cons_self
      · exact List.mem_cons_of_mem _ (hw.about t a ha sid hsid)
  | run t c a rest push w₁ ht hdo =>
    have ha : a ∈ w.threads t := by simp [ht]
    constructor
    · intro sid
      exact (hdo.ident sid).1.trans (hw.named sid)
    · intro sid hl
      show sid ∈ w₁.ids
      rw [hdo.ids]
      rcases hdo.listed hl with hl | ⟨rfl, -⟩
      · exact hw.listed sid hl
      · exact hw.about t _ ha sid rfl
    · intro u x hx sid hsid
      show sid ∈ w₁.ids
      rw [hdo.ids]
      rcases mem_threads_run hdo ht hx with hx | ⟨rfl, hp⟩ | ⟨k, -, -, rfl⟩
      · exact hw.about u x hx sid hsid
      · rcases hdo.about x hp sid hsid with h | h
        · exact hw.about u a ha sid h
        · exact hw.listed sid h
      · cases hsid

end Opened

end SubstratePoc.Client
