import SubstratePoc.Deployment.System

namespace SubstratePoc.Tunnel

theorem FrameType.ofByte_byte (k : FrameType) : FrameType.ofByte k.byte = some k := by
  cases k <;> rfl

def Msg.sid : Msg → UInt64
  | .opn sid _ | .attach sid _ _ | .attachOK sid _ | .data sid _ _ | .ack sid _ | .close sid _ _ => sid

/-- The offset of the message is a 64-bit number. -/
def Msg.small : Msg → Bool
  | .attach _ offset _ | .attachOK _ offset | .data _ offset _ | .ack _ offset => offset < 2 ^ 64
  | .opn _ _ | .close _ _ _ => true

/-- The message that a session frame carries. -/
def Frame.msg (f : Frame) : Option Msg :=
  match FrameType.ofByte f.type with
  | some .typeOpen => some (.opn f.sessionID f.target)
  | some .typeAttach => some (.attach f.sessionID f.offset.toNat f.target)
  | some .typeAttachOK => some (.attachOK f.sessionID f.offset.toNat)
  | some .typeData => some (.data f.sessionID f.offset.toNat f.payload)
  | some .typeAck => some (.ack f.sessionID f.offset.toNat)
  | some .typeClose => some (.close f.sessionID f.dir f.reason)
  | _ => none

/-- The message, if it is one of session `sid`. -/
def Frame.own (sid : UInt64) (f : Frame) : Option Msg := if f.sessionID = sid then f.msg else none

theorem Msg.msg_frame {m : Msg} (h : m.small = true) : m.frame.msg = some m := by
  cases m with
  | opn | close => rfl
  | attach sid offset | attachOK sid offset | data sid offset | ack sid offset =>
    have ho : (UInt64.ofNat offset).toNat = offset := by
      rw [UInt64.toNat_ofNat']
      exact Nat.mod_eq_of_lt (by simpa [Msg.small] using h)
    simp [Msg.frame, Frame.msg, FrameType.ofByte_byte, ho]

theorem Msg.sessionID_frame (m : Msg) : m.frame.sessionID = m.sid := by
  cases m <;> rfl

theorem Msg.own_frame {m : Msg} {sid : UInt64} (hm : m.sid = sid) (h : m.small = true) :
    m.frame.own sid = some m := by
  rw [Frame.own, if_pos (m.sessionID_frame.trans hm), msg_frame h]

theorem Msg.own_frame_of_ne {m : Msg} {sid : UInt64} (hm : m.sid ≠ sid) : m.frame.own sid = none := by
  rw [Frame.own, if_neg]
  rwa [m.sessionID_frame]

theorem Frame.own_of_msg {f : Frame} (h : f.msg = none) (sid : UInt64) : f.own sid = none := by
  rw [own, h, ite_self]

end SubstratePoc.Tunnel

namespace SubstratePoc.Deployment
open Lib Tunnel Broker Sidecar

/-! ## The sidecar's actions -/

/-- An action on the session. -/
def sessionAct : Client.SAct → Pair.SAct
  | .enlist => .openSession
  | .attachFrame k => .attachFrame k
  | .onAttachOK offset => .onAttachOK offset
  | .deliverDown offset p => .deliverDown offset p
  | .agentWrite q => .agentWrite q
  | .delivered n => .delivered n
  | .onUpstreamAck offset => .onUpstreamAck offset
  | .onClose dir => .onClose dir
  | .closeAll => .closeAll
  | .removeSession => .removeSession
  | .send m => .send m
  | .write k m => .write k m
  | .readAgent => .readAgent
  | .writeUp p err => .writeUp p err
  | .closeUp reason => .closeUp reason

/-- What an action of the sidecar is to session `sid`.  A connection is there for a session once it
is published, and a frame is read when it is looked at. -/
def sidecarActs (sid : UInt64) : Client.CAct → List Pair.SAct
  | .dial | .hello _ | .publish _ => [.connect]
  | .attaching k sids => if sid ∈ sids then [.attachFrame k] else []
  | .readFrame k => [.readFrame k]
  | .disconnect k => [.disconnect k]
  | .closeConn k => [.closeConn k]
  | .sess s a => if s = sid then [sessionAct a] else []
  | .setLastPong | .startPing _ | .handleFrame _ _ | .pong _ _ | .cancelPing _ | .tick _ _
  | .ping _ _ => []

/-- The one-session model takes the three actions after a failed read in one go. -/
def unfold : Pair.SAct → List Pair.SAct
  | .disconnect k => [.disconnect k, .closeConn k, .connect]
  | a => [a]

/-- The state of the session within the one-session model. -/
def showing (w : Pair.Core) (ob : Client.Obj) (ok : Bool) : Pair.Core :=
  { w with cs := ob.cs, listed := ob.listed, agent := ob.agent, agentOK := ok }

theorem dispatch_own {f : Frame} {m : Msg} (h : f.msg = some m) :
    (Client.dispatch f).map sessionAct = Pair.dispatch m := by
  unfold Frame.msg at h
  unfold Client.dispatch
  split at h <;> cases h <;> simp_all [sessionAct, Pair.dispatch]

theorem dispatch_of_msg {f : Frame} (h : f.msg = none) : Client.dispatch f = [] := by
  unfold Frame.msg at h
  unfold Client.dispatch
  split at h <;> cases h
  split <;> simp_all

/-- An action on the session does the same in both models. -/
theorem sexec_own {w : Pair.Core} {ob ob' : Client.Obj} {a : Client.SAct} {c : Choice}
    {push : List Client.SAct} (hcs : w.cs = ob.cs) (hl : w.listed = ob.listed)
    (hag : w.agent = ob.agent) (h : Client.sexec w.conn ob a c = some (ob', push)) :
    ∃ ok, Pair.sexec w (sessionAct a) c = some (showing w ob' ok, push.map sessionAct, []) := by
  obtain ⟨cs, listed, conn, agent, agentOK, conns, links, created, objs, sessions⟩ := w
  obtain ⟨cs', listed', read, agent'⟩ := ob
  dsimp only at hcs hl hag h
  subst hcs hl hag
  cases a with
  | enlist | attachFrame | delivered | onUpstreamAck | removeSession =>
    cases h
    exact ⟨agentOK, rfl⟩
  | onAttachOK offset =>
    cases h
    refine ⟨agentOK, ?_⟩
    simp [Pair.sexec, sessionAct, showing, Function.comp_def]
  | deliverDown offset p =>
    simp only [Client.sexec] at h
    refine ⟨agentOK, ?_⟩
    simp only [Pair.sexec, sessionAct]
    split at h <;> cases h <;> simp_all [showing, sessionAct]
  | agentWrite q =>
    simp only [Client.sexec] at h
    cases c with
    | ok =>
      dsimp only at h
      split_ifs at h with hs
      cases h
      exact ⟨agentOK, by simp only [Pair.sexec, sessionAct, if_neg hs]; rfl⟩
    | fail n text =>
      cases h
      exact ⟨false, rfl⟩
    | read p err => cases h
  | onClose dir =>
    simp only [Client.sexec] at h
    refine ⟨agentOK, ?_⟩
    simp only [Pair.sexec, sessionAct]
    split_ifs at h ⊢ with hd
    · cases h
      rfl
    · cases c <;> cases h <;> rfl
  | closeAll =>
    simp only [Client.sexec] at h
    refine ⟨agentOK, ?_⟩
    simp only [Pair.sexec, sessionAct]
    split at h <;> cases h <;> simp_all [showing, sessionAct]
  | send m =>
    simp only [Client.sexec] at h
    refine ⟨agentOK, ?_⟩
    simp only [Pair.sexec, sessionAct]
    split at h <;> cases h <;> rfl
  | write k m => cases h
  | readAgent =>
    cases c with
    | read p err =>
      simp only [Client.sexec] at h
      refine ⟨agentOK, ?_⟩
      simp only [Pair.sexec, sessionAct]
      split_ifs at h ⊢
      cases h
      rfl
    | _ => cases h
  | writeUp p err =>
    simp only [Client.sexec] at h
    refine ⟨agentOK, ?_⟩
    simp only [Pair.sexec, sessionAct]
    split_ifs at h ⊢ with hp hd hf
    · cases err <;> cases h <;> rfl
    · cases c <;> cases h <;> rfl
    · split at h <;> cases h <;> simp_all [showing, sessionAct]
  | closeUp reason =>
    simp only [Client.sexec] at h
    refine ⟨agentOK, ?_⟩
    simp only [Pair.sexec, sessionAct]
    split at h <;> cases h <;> simp_all [showing, sessionAct]

/-! ## The broker's actions -/

/-- What an action of the broker is to the session at `key`. -/
def brokerActs (key : Server.Key) : Server.HAct → List Pair.BAct
  | .readFrame k => [.readFrame k]
  | .handleFrame k f => ((f.own key.sessionID).map (.handleFrame k)).toList
  | .openSession k sid target => if sid = key.sessionID then [.openSession k target] else []
  | .attachSession k sid offset target =>
    if sid = key.sessionID then [.attachSession k offset target] else []
  | .reattach _ sid offset => if sid = key.sessionID then [.reattach offset] else []
  | .startDial p => if p.key = key then [.startDial p.gen] else []
  | .act p a => if p.key = key then [.act p.gen a] else []
  | .reply k f => ((f.own key.sessionID).map (.reply k)).toList
  | .detachAll k => [.detachAll k]
  | .detaching k ps => (ps.filter (·.key = key)).map fun p => .act p.gen (.detach k)
  | .closeConn k => [.closeConn k]

/-- The one-session model closes the connection as a part of `detachAll`. -/
def unfoldAll : Pair.BAct → List Pair.BAct
  | .detachAll k => [.detachAll k, .closeConn k]
  | a => [a]

theorem handleFrame_own {s : Server.World} {k : ConnId} {f : Frame} {m : Msg} {key : Server.Key}
    (h : f.own key.sessionID = some m) :
    (Server.handleFrame k f (s.lookup key.actorID f.sessionID)).flatMap (brokerActs key) =
      Pair.handle k m (s.sessions key) := by
  obtain ⟨A, sid⟩ := key
  unfold Frame.own at h
  split_ifs at h with hs
  subst hs
  unfold Frame.msg at h
  unfold Server.handleFrame Server.World.lookup
  split at h <;> cases h <;> cases hg : s.sessions ⟨A, f.sessionID⟩ <;>
    simp_all [brokerActs, Pair.handle]

theorem handleFrame_other {s : Server.World} {k : ConnId} {f : Frame} {key : Server.Key}
    (h : f.own key.sessionID = none) :
    (Server.handleFrame k f (s.lookup key.actorID f.sessionID)).flatMap (brokerActs key) = [] := by
  obtain ⟨A, sid⟩ := key
  have hpong (nonce : UInt64) : Frame.own sid { type := FrameType.typePong.byte, nonce } = none :=
    Frame.own_of_msg rfl sid
  unfold Frame.own at h
  split_ifs at h with hs
  · subst hs
    unfold Frame.msg at h
    unfold Server.handleFrame
    split at h <;> cases h
    split <;> simp_all [brokerActs]
  · unfold Server.handleFrame Server.World.lookup
    split <;> cases hg : s.sessions ⟨A, f.sessionID⟩ <;> simp_all [brokerActs]

end SubstratePoc.Deployment
