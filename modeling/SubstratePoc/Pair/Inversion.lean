import SubstratePoc.Pair.System

namespace SubstratePoc.Pair
open Lib Tunnel Broker Sidecar

def afterWriteUp : Option Cause → List SAct
  | none => [.readAgent]
  | some cause => [.closeUp (closeReason cause)]

inductive SDoes (w : Core) : SAct → Core → List SAct → List (List BAct) → Prop
  | connect : SDoes w .connect
    ({ w with conn := some w.conns, conns := w.conns + 1 }.setLink w.conns newLink)
    ((if w.listed then [.attachFrame w.conns] else []) ++ [.readFrame w.conns])
    [[.readFrame w.conns]]
  | connectFail : SDoes w .connect w [.connect] []
  | attachFrame (k : ConnId) : SDoes w (.attachFrame k) w [.write k w.cs.attachFrame] []
  | readFrame (k : ConnId) (m : Msg) (down : List Msg) (h : (w.links k).down = m :: down) :
    SDoes w (.readFrame k) (w.setLink k { w.links k with down })
      ((if w.listed then dispatch m else []) ++ [.readFrame k]) []
  | readFail (k : ConnId) : SDoes w (.readFrame k) w [.disconnect k] []
  | disconnect (k : ConnId) : SDoes w (.disconnect k)
    { w with conn := if w.conn = some k then none else w.conn } [.closeConn k, .connect] []
  | closeConn (k : ConnId) : SDoes w (.closeConn k) (w.closeConn k) [] []
  | onAttachOK (offset : ℕ) : SDoes w (.onAttachOK offset)
    { w with cs := { w.cs with upBuf := w.cs.upBuf.trimTo offset } }
    ((w.cs.onAttachOK offset).2.map .send) []
  | deliverSkip (offset : ℕ) (p : Bytes) : SDoes w (.deliverDown offset p) w [] []
  | deliverDown (offset : ℕ) (p q : Bytes) (h : w.cs.deliverDown offset p = some q) :
    SDoes w (.deliverDown offset p) w [.agentWrite q] []
  | agentWriteOk (q : Bytes) : SDoes w (.agentWrite q) { w with agent := w.agent ++ q }
    [.delivered q.length] []
  | agentWriteFail (q : Bytes) (n : ℕ) : SDoes w (.agentWrite q)
    { w with agent := w.agent ++ q.take n, agentOK := false } [.closeAll] []
  | delivered (n : ℕ) : SDoes w (.delivered n)
    { w with cs := { w.cs with downDelivered := w.cs.downDelivered + n } }
    [.send (.ack w.cs.sessionID (w.cs.downDelivered + n))] []
  | onUpstreamAck (offset : ℕ) : SDoes w (.onUpstreamAck offset)
    { w with cs := { w.cs with upBuf := w.cs.upBuf.trimTo offset } } [] []
  | onCloseOther (dir : UInt8) : SDoes w (.onClose dir) w [] []
  | onClose (dir : UInt8) :
    SDoes w (.onClose dir) { w with cs := { w.cs with downClosed := true } } [] []
  | onCloseAll (dir : UInt8) :
    SDoes w (.onClose dir) { w with cs := { w.cs with downClosed := true } } [.closeAll] []
  | closeAllAgain (hd : w.cs.dead = true) : SDoes w .closeAll w [] []
  | closeAll : SDoes w .closeAll { w with cs := { w.cs with dead := true } } [.removeSession] []
  | removeSession : SDoes w .removeSession { w with listed := false } [] []
  | sendNone (m : Msg) : SDoes w (.send m) w [] []
  | sendSome (m : Msg) (k : ConnId) (h : w.conn = some k) : SDoes w (.send m) w [.write k m] []
  | writeOk (k : ConnId) (m : Msg) : SDoes w (.write k m) (w.toBroker k m) [] []
  | writeFail (k : ConnId) (m : Msg) : SDoes w (.write k m) w [] []
  | openSession : SDoes w .openSession { w with listed := true }
    [.send (.opn w.cs.sessionID w.cs.target), .readAgent] []
  | readAgent (p : Bytes) (err : Option Cause) : SDoes w .readAgent w [.writeUp p err] []
  | writeUpDone (err : Option Cause) : SDoes w (.writeUp [] err) w (afterWriteUp err) []
  | writeUpDead (p : Bytes) (err : Option Cause) (push : List SAct)
    (h : ∀ a ∈ push, ∃ reason, a = .closeUp reason) : SDoes w (.writeUp p err) w push []
  | writeUp (p : Bytes) (err : Option Cause) (b : ReplayBuffer) (n : ℕ)
    (hb : w.cs.upBuf.append (p.take n) = some b) :
    SDoes w (.writeUp p err) { w with cs := { w.cs with upBuf := b } }
      [.send (.data w.cs.sessionID w.cs.upBuf.endOffset (p.take n)), .writeUp (p.drop n) err] []
  | closeUpAgain (reason : Bytes) : SDoes w (.closeUp reason) w [] []
  | closeUp (reason : Bytes) : SDoes w (.closeUp reason)
    { w with cs := { w.cs with upClosed := true } }
    [.send (.close w.cs.sessionID dirUp reason)] []

theorem writeUp_does {w : Core} {p : Bytes} {err : Option Cause} {c : Choice}
    {r : Core × List SAct × List (List BAct)} (h : sexec w (.writeUp p err) c = some r) :
    SDoes w (.writeUp p err) r.1 r.2.1 r.2.2 := by
  simp only [sexec] at h
  split_ifs at h with hp hd hf
  · subst hp
    cases err <;> cases h <;> exact .writeUpDone _
  · cases c with
    | ok => cases h; exact .writeUpDead p err [] (by simp)
    | fail n text => cases h; exact .writeUpDead p err _ (by simp)
    | read => cases h
  · -- as in the broker, a chunk cut to the free space is always accepted
    obtain ⟨b, hb⟩ := w.cs.upBuf.append_take_free p
    have hs : w.cs.writeUp p = some { w.cs with upBuf := b } := by
      simp only [ClientSession.writeUp, ClientSession.nextChunk, hb, Option.map_some]
    have hl : (w.cs.nextChunk p).1.length = min p.length w.cs.upBuf.free := by
      simp [ClientSession.nextChunk]
    rw [hs] at h
    simp only [hl] at h
    cases h
    exact .writeUp p err b _ hb

/-- `sexec` does one of the things `SDoes` lists. -/
theorem sexec_does {w : Core} {a : SAct} {c : Choice} {r : Core × List SAct × List (List BAct)}
    (h : sexec w a c = some r) : SDoes w a r.1 r.2.1 r.2.2 := by
  cases a with
  | connect =>
    cases c with
    | ok => cases h; exact .connect
    | fail => cases h; exact .connectFail
    | read => cases h
  | attachFrame k => cases h; exact .attachFrame k
  | readFrame k =>
    cases c with
    | ok =>
      simp only [sexec] at h
      split at h
      · cases h
      · cases h; exact .readFrame k _ _ (by assumption)
    | fail => cases h; exact .readFail k
    | read => cases h
  | disconnect k => cases h; exact .disconnect k
  | closeConn k => cases h; exact .closeConn k
  | onAttachOK offset =>
    simp only [sexec, ClientSession.onAttachOK_fst] at h
    cases h
    exact .onAttachOK offset
  | deliverDown offset p =>
    simp only [sexec] at h
    split at h
    · cases h; exact .deliverSkip offset p
    · cases h; exact .deliverDown offset p _ (by assumption)
  | agentWrite q =>
    cases c with
    | ok =>
      simp only [sexec] at h
      split_ifs at h
      cases h
      exact .agentWriteOk q
    | fail n text =>
      simp only [sexec] at h
      split_ifs at h
      · cases h
        exact .agentWriteFail q 0
      · cases h
        exact .agentWriteFail q n
    | read => cases h
  | delivered n => cases h; exact .delivered n
  | onUpstreamAck offset => cases h; exact .onUpstreamAck offset
  | onClose dir =>
    simp only [sexec] at h
    split_ifs at h
    · cases h; exact .onCloseOther dir
    · cases c with
      | ok => cases h; exact .onClose dir
      | fail => cases h; exact .onCloseAll dir
      | read => cases h
  | closeAll =>
    simp only [sexec, ClientSession.closeAll] at h
    by_cases hd : w.cs.dead = true
    · rw [if_pos hd] at h
      cases h
      exact .closeAllAgain hd
    · rw [if_neg hd] at h
      cases h
      exact .closeAll
  | removeSession => cases h; exact .removeSession
  | send m =>
    simp only [sexec] at h
    split at h
    · cases h; exact .sendNone m
    · cases h; exact .sendSome m _ (by assumption)
  | write k m =>
    cases c with
    | ok =>
      simp only [sexec] at h
      split_ifs at h
      cases h
      exact .writeOk k m
    | fail => cases h; exact .writeFail k m
    | read => cases h
  | openSession => cases h; exact .openSession
  | readAgent =>
    cases c with
    | read p err =>
      simp only [sexec] at h
      split_ifs at h
      cases h
      exact .readAgent p err
    | ok => cases h
    | fail => cases h
  | writeUp p err => exact writeUp_does h
  | closeUp reason =>
    simp only [sexec, ClientSession.closeUp] at h
    split_ifs at h
    · cases h; exact .closeUpAgain reason
    · cases h; exact .closeUp reason

inductive BDoes (cfg : Config) (w : Core) : BAct → Core → List BAct → List (List BAct) → Prop
  | readFrame (k : ConnId) (m : Msg) (up : List Msg) (h : (w.links k).up = m :: up) :
    BDoes cfg w (.readFrame k) (w.setLink k { w.links k with up })
      [.handleFrame k m, .readFrame k] []
  | readFail (k : ConnId) : BDoes cfg w (.readFrame k) w [.detachAll k] []
  | handleFrame (k : ConnId) (m : Msg) :
    BDoes cfg w (.handleFrame k m) w (handle k m w.sessions) []
  | openRejected (k : ConnId) (target : Bytes) : BDoes cfg w (.openSession k target) w
    [.reply k (.close cfg.sessionID dirDown targetNotAllowed)] []
  | openExists (k : ConnId) (target : Bytes) : BDoes cfg w (.openSession k target) w
    [.attachSession k 0 target] []
  | openSession (k : ConnId) (target : Bytes) (h : w.sessions = none) :
    BDoes cfg w (.openSession k target)
      { w with
        created := w.created + 1, objs := Function.update w.objs w.created (cfg.newObj target),
        sessions := some w.created }
      [.act w.created (.bind k), .startDial w.created] []
  | attachSession (k : ConnId) (offset : ℕ) (target : Bytes) (o : ℕ) (h : w.sessions = some o) :
    BDoes cfg w (.attachSession k offset target) w
      [.act o (.bind k), .act o (.onSidecarAttach offset)] []
  | attachAgain (k : ConnId) (offset : ℕ) (target : Bytes) (ho : offset = 0) :
    BDoes cfg w (.attachSession k offset target) w [.openSession k target, .reattach offset] []
  | attachLost (k : ConnId) (offset : ℕ) (target : Bytes) :
    BDoes cfg w (.attachSession k offset target) w
      [.reply k (.close cfg.sessionID dirDown sessionLost)] []
  | reattach (offset : ℕ) (o : ℕ) (h : w.sessions = some o) :
    BDoes cfg w (.reattach offset) w [.act o (.onSidecarAttach offset)] []
  | reattachNone (offset : ℕ) : BDoes cfg w (.reattach offset) w [] []
  | startDial (o : ℕ) : BDoes cfg w (.startDial o) w [] [[.act o .dial]]
  | act (o : ℕ) (a : Act) (c : Choice) (r : Result) (h : Does (w.objs o).s a c r) :
    BDoes cfg w (.act o a) (w.objAct o a c r) (r.push.map (.act o)) []
  | replyOk (k : ConnId) (m : Msg) : BDoes cfg w (.reply k m) (w.toSidecar k m) [] []
  | replyFail (k : ConnId) (m : Msg) : BDoes cfg w (.reply k m) w [] []
  | detachNone (k : ConnId) : BDoes cfg w (.detachAll k) w [.closeConn k] []
  | detachAll (k : ConnId) (o : ℕ) (h : (w.links k).registered = some o) :
    BDoes cfg w (.detachAll k) (w.setLink k { w.links k with registered := none })
      [.act o (.detach k), .closeConn k] []
  | closeConn (k : ConnId) : BDoes cfg w (.closeConn k) (w.closeConn k) [] []

/-- `bexec` does one of the things `BDoes` lists. -/
theorem bexec_does {cfg : Config} {w : Core} {a : BAct} {c : Choice}
    {r : Core × List BAct × List (List BAct)} (h : bexec cfg w a c = some r) :
    BDoes cfg w a r.1 r.2.1 r.2.2 := by
  cases a with
  | readFrame k =>
    cases c with
    | ok =>
      simp only [bexec] at h
      split at h
      · cases h
      · cases h; exact .readFrame k _ _ (by assumption)
    | fail => cases h; exact .readFail k
    | read => cases h
  | handleFrame k m => cases h; exact .handleFrame k m
  | openSession k target =>
    simp only [bexec] at h
    split_ifs at h
    · cases h; exact .openRejected k target
    · split at h
      · cases h; exact .openExists k target
      · cases h; exact .openSession k target (by assumption)
  | attachSession k offset target =>
    simp only [bexec] at h
    split at h
    · cases h; exact .attachSession k offset target _ (by assumption)
    · split_ifs at h with ho
      · cases h; exact .attachAgain k offset target ho.1
      · cases h; exact .attachLost k offset target
  | reattach offset =>
    simp only [bexec] at h
    split at h
    · cases h; exact .reattach offset _ (by assumption)
    · cases h; exact .reattachNone offset
  | startDial o => cases h; exact .startDial o
  | act o a =>
    obtain ⟨r', hr, rfl⟩ := Option.map_eq_some_iff.mp h
    exact .act o a c r' (exec_does hr)
  | reply k m =>
    cases c with
    | ok =>
      simp only [bexec] at h
      split_ifs at h
      cases h
      exact .replyOk k m
    | fail => cases h; exact .replyFail k m
    | read => cases h
  | detachAll k =>
    simp only [bexec] at h
    split at h
    · cases h; exact .detachNone k
    · cases h; exact .detachAll k _ (by assumption)
  | closeConn k => cases h; exact .closeConn k

/-! ## Frames in flight -/

/-- What a step may add to a connection: frames in either direction, and a registered session. -/
structure Link.Grows (sent got : Msg → Prop) (reg : ℕ → Prop) (l l' : Link) : Prop where
  up : ∀ m ∈ l'.up, m ∈ l.up ∨ sent m
  down : ∀ m ∈ l'.down, m ∈ l.down ∨ got m
  registered : ∀ o, l'.registered = some o → l.registered = some o ∨ reg o

theorem Link.Grows.refl {sent got : Msg → Prop} {reg : ℕ → Prop} (l : Link) :
    l.Grows sent got reg l := ⟨fun _ => .inl, fun _ => .inl, fun _ => .inl⟩

theorem Core.toBroker_eq (w : Core) (k : ConnId) (m : Msg) : w.toBroker k m =
    w.setLink k (if (w.links k).closed then w.links k
      else { w.links k with up := (w.links k).up ++ [m] }) := by
  unfold toBroker
  split_ifs
  · simp [setLink]
  · rfl

theorem Core.toSidecar_eq (w : Core) (k : ConnId) (m : Msg) : w.toSidecar k m =
    w.setLink k (if (w.links k).closed then w.links k
      else { w.links k with down := (w.links k).down ++ [m] }) := by
  unfold toSidecar
  split_ifs
  · simp [setLink]
  · rfl

theorem Core.grows_setLink {sent got : ConnId → Msg → Prop} {reg : ℕ → Prop} {w : Core} {k : ConnId}
    {l : Link} (h : (w.links k).Grows (sent k) (got k) reg l) (j : ConnId) :
    (w.links j).Grows (sent j) (got j) reg ((w.setLink k l).links j) := by
  by_cases hj : j = k
  · subst hj
    simpa [setLink] using h
  · simpa [setLink, hj] using Link.Grows.refl _

theorem Core.grows_cut (w : Core) (k : ConnId) (m n : ℕ) :
    ∀ j, (w.links j).Grows (fun _ => False) (fun _ => False) (fun _ => False)
      ((w.setLink k { w.links k with
        up := (w.links k).up.take m, down := (w.links k).down.take n, closed := true }).links j) :=
  grows_setLink ⟨fun _ h => .inl (List.mem_of_mem_take h), fun _ h => .inl (List.mem_of_mem_take h),
    fun _ => .inl⟩

/-- What the effects `eff` of an action of broker session `o` leave alone, and what they add. -/
structure Affects (o : ℕ) (eff : List Effect) (w w' : Core) : Prop where
  cs : w'.cs = w.cs
  listed : w'.listed = w.listed
  agent : w'.agent = w.agent
  agentOK : w'.agentOK = w.agentOK
  conns : w'.conns = w.conns
  created : w'.created = w.created
  objs : w'.objs = w.objs
  sessions : w'.sessions = if .removeSession ∈ eff then none else w.sessions
  links : ∀ k, (w.links k).Grows (fun _ => False) (.frame k · ∈ eff) (· = o) (w'.links k)

theorem Core.effect_affects (o : ℕ) (w : Core) (e : Effect) : Affects o [e] w (w.effect o e) := by
  cases e with
  | frame tc m =>
    simp only [Core.effect, Core.toSidecar]
    split_ifs
    · exact ⟨rfl, rfl, rfl, rfl, rfl, rfl, rfl, by simp, fun _ => .refl _⟩
    · refine ⟨rfl, rfl, rfl, rfl, rfl, rfl, rfl, by simp [setLink], ?_⟩
      exact Core.grows_setLink ⟨fun _ => .inl, by simp, fun _ => .inl⟩
  | register tc =>
    refine ⟨rfl, rfl, rfl, rfl, rfl, rfl, rfl, by simp [Core.effect, setLink], ?_⟩
    exact Core.grows_setLink ⟨fun _ => .inl, fun _ => .inl,
      fun j hj => .inr (Option.some.inj hj).symm⟩
  | removeSession =>
    exact ⟨rfl, rfl, rfl, rfl, rfl, rfl, rfl, by simp [Core.effect], fun _ => .refl _⟩
  | _ => exact ⟨rfl, rfl, rfl, rfl, rfl, rfl, rfl, by simp [Core.effect], fun _ => .refl _⟩

theorem Core.effects_affect (o : ℕ) (w : Core) (eff : List Effect) :
    Affects o eff w (eff.foldl (Core.effect o) w) := by
  induction eff generalizing w with
  | nil => exact ⟨rfl, rfl, rfl, rfl, rfl, rfl, rfl, by simp, fun _ => .refl _⟩
  | cons e eff ih =>
    have h1 := w.effect_affects o e
    have h2 := ih (w.effect o e)
    rw [List.foldl_cons]
    refine ⟨h2.cs.trans h1.cs, h2.listed.trans h1.listed, h2.agent.trans h1.agent,
      h2.agentOK.trans h1.agentOK, h2.conns.trans h1.conns, h2.created.trans h1.created,
      h2.objs.trans h1.objs, ?_, ?_⟩
    · rw [h2.sessions, h1.sessions]
      simp only [List.mem_cons, List.not_mem_nil, or_false]
      split_ifs <;> simp_all
    · intro k
      have hk1 := h1.links k
      have hk2 := h2.links k
      refine ⟨fun m hm => ?_, fun m hm => ?_, fun j hj => ?_⟩
      · exact (hk2.up m hm).elim (hk1.up m) False.elim
      · rcases hk2.down m hm with hm | hm
        · exact (hk1.down m hm).imp id fun h => by simp_all
        · exact .inr (List.mem_cons_of_mem _ hm)
      · exact (hk2.registered j hj).elim (hk1.registered j) .inr

theorem Core.objAct_affects (w : Core) (o : ℕ) (a : Act) (c : Choice) (r : Result) :
    Affects o r.eff { w with objs := Function.update w.objs o ((w.objs o).after a c r) }
      (w.objAct o a c r) := Core.effects_affect _ _ _

theorem Core.objs_objAct (w : Core) (o : ℕ) (a : Act) (c : Choice) (r : Result) :
    (w.objAct o a c r).objs = Function.update w.objs o ((w.objs o).after a c r) :=
  (w.objAct_affects o a c r).objs

/-- A sidecar action puts only the frame it writes into a connection, and leaves the broker's
sessions alone. -/
structure SDoes.Frame (w w' : Core) (a : SAct) (spawn : List (List BAct)) : Prop where
  le_delivered : w.cs.downDelivered ≤ w'.cs.downDelivered
  le_conns : w.conns ≤ w'.conns
  created : w'.created = w.created
  objs : w'.objs = w.objs
  sessions : w'.sessions = w.sessions
  links : ∀ k, (w.links k).Grows (a = .write k ·) (fun _ => False) (fun _ => False) (w'.links k)
  spawn : ∀ b ∈ spawn.flatten, ∃ k, b = .readFrame k ∧ k < w'.conns

theorem SDoes.frame {w w' : Core} {a : SAct} {push : List SAct} {spawn : List (List BAct)}
    (h : SDoes w a w' push spawn) : SDoes.Frame w w' a spawn := by
  cases h with
  | connect =>
    refine ⟨le_rfl, Nat.le_succ _, rfl, rfl, rfl, Core.grows_setLink ?_, ?_⟩
    · exact ⟨by simp [newLink], by simp [newLink], by simp [newLink]⟩
    · simp [Core.setLink]
  | readFrame k m down hd =>
    refine ⟨le_rfl, le_rfl, rfl, rfl, rfl, Core.grows_setLink ?_, by simp⟩
    exact ⟨fun _ => .inl, fun x hx => .inl (hd ▸ List.mem_cons_of_mem _ hx), fun _ => .inl⟩
  | closeConn k =>
    refine ⟨le_rfl, le_rfl, rfl, rfl, rfl, Core.grows_setLink ?_, by simp⟩
    exact ⟨fun _ => .inl, fun _ => .inl, fun _ => .inl⟩
  | writeOk k m =>
    unfold Core.toBroker
    split_ifs
    · exact ⟨le_rfl, le_rfl, rfl, rfl, rfl, fun _ => .refl _, by simp⟩
    · refine ⟨le_rfl, le_rfl, rfl, rfl, rfl, Core.grows_setLink ?_, by simp⟩
      refine ⟨fun x hx => ?_, fun _ => .inl, fun _ => .inl⟩
      simpa [eq_comm] using hx
  | delivered n => exact ⟨Nat.le_add_right _ _, le_rfl, rfl, rfl, rfl, fun _ => .refl _, by simp⟩
  | _ => exact ⟨le_rfl, le_rfl, rfl, rfl, rfl, fun _ => .refl _, by simp⟩

/-! ## Steps -/

/-- A goroutine of the sidecar takes its next action, which leaves `push` to do first. -/
def Runs (t t' : List SAct) (a : SAct) (push : List SAct) : Prop :=
  ∃ rest, t = a :: rest ∧ t' = push ++ rest

structure Quiet (w w' : System) : Prop where
  cs : w'.core.cs = w.core.cs
  listed : w'.core.listed = w.core.listed
  agent : w'.core.agent = w.core.agent
  agentOK : w'.core.agentOK = w.core.agentOK
  conns : w'.core.conns = w.core.conns
  created : w'.core.created = w.core.created
  sessions : w'.core.sessions = w.core.sessions
  tunnel : w'.tunnel = w.tunnel
  proxy : w'.proxy = w.proxy
  objs : ∀ o, ∃ b, w'.core.objs o =
    { w.core.objs o with s := { (w.core.objs o).s with watchdog := b } }
  links : ∀ k, (w.core.links k).Grows (fun _ => False) (fun _ => False) (fun _ => False)
    (w'.core.links k)
  pending : ∃ ws, w'.pending = w.pending ++ ws ∧
    ∀ b ∈ ws, ∃ o < w.core.created, b = .act o .watchdog

/-- What one step can do to the goroutines and to the rest. -/
inductive Moves (cfg : Config) (w w' : System) : Event → Prop
  | sidecar (e : Event) (a : SAct) (push : List SAct) (spawn : List (List BAct))
    (h : SDoes w.core a w'.core push spawn)
    (hrun : Runs w.tunnel w'.tunnel a push ∧ w'.proxy = w.proxy ∨
      Runs w.proxy w'.proxy a push ∧ w'.tunnel = w.tunnel)
    (hp : w'.pending = w.pending ++ spawn.flatten) : Moves cfg w w' e
  | broker (i : ℕ) (c : Choice) (a : BAct) (X Y push : List BAct) (spawn : List (List BAct))
    (hn : w.next i = some a) (h : BDoes cfg w.core a w'.core push spawn)
    (htunnel : w'.tunnel = w.tunnel) (hproxy : w'.proxy = w.proxy)
    (hp : w.pending = X ++ a :: Y) (hp' : w'.pending = X ++ (push ++ Y) ++ spawn.flatten) :
    Moves cfg w w' (.broker i c)
  | quiet (e : Event) (h : Quiet w w') : Moves cfg w w' e

theorem step_tunnel {cfg : Config} {w w' : System} {c : Choice}
    (h : step cfg w (.tunnel c) = some w') : ∃ a rest push spawn, w.tunnel = a :: rest ∧
      sexec w.core a c = some (w'.core, push, spawn) ∧ w'.tunnel = push ++ rest ∧
      w'.proxy = w.proxy ∧ w'.threads = w.threads ++ spawn := by
  simp only [step] at h
  split at h
  · cases h
  · rename_i a rest ht
    obtain ⟨r, hr, rfl⟩ := Option.map_eq_some_iff.mp h
    exact ⟨a, rest, r.2.1, r.2.2, ht, hr, rfl, rfl, rfl⟩

theorem step_proxy {cfg : Config} {w w' : System} {c : Choice}
    (h : step cfg w (.proxy c) = some w') : ∃ a rest push spawn, w.proxy = a :: rest ∧
      sexec w.core a c = some (w'.core, push, spawn) ∧ w'.proxy = push ++ rest ∧
      w'.tunnel = w.tunnel ∧ w'.threads = w.threads ++ spawn := by
  simp only [step] at h
  split at h
  · cases h
  · rename_i a rest ht
    obtain ⟨r, hr, rfl⟩ := Option.map_eq_some_iff.mp h
    exact ⟨a, rest, r.2.1, r.2.2, ht, hr, rfl, rfl, rfl⟩

theorem step_broker {cfg : Config} {w w' : System} {i : ℕ} {c : Choice}
    (h : step cfg w (.broker i c) = some w') : ∃ a rest L R push spawn, i = L.length ∧
      w.threads = L ++ (a :: rest) :: R ∧ bexec cfg w.core a c = some (w'.core, push, spawn) ∧
      w'.threads = L ++ (push ++ rest) :: R ++ spawn ∧ w'.tunnel = w.tunnel ∧
      w'.proxy = w.proxy := by
  simp only [step] at h
  split at h
  · rename_i a rest ht
    obtain ⟨r, hr, rfl⟩ := Option.map_eq_some_iff.mp h
    obtain ⟨L, R, hts, rfl, hset⟩ := threads_split ht
    exact ⟨a, rest, L, R, r.2.1, r.2.2, rfl, hts, hr, by simp [hset], rfl, rfl⟩
  · cases h

theorem step_bexec {cfg : Config} {w w' : System} {i : ℕ} {c : Choice}
    (h : step cfg w (.broker i c) = some w') : ∃ a X Y push spawn, w.next i = some a ∧
      bexec cfg w.core a c = some (w'.core, push, spawn) ∧ w.pending = X ++ a :: Y ∧
      w'.pending = X ++ (push ++ Y) ++ spawn.flatten ∧ w'.tunnel = w.tunnel ∧
      w'.proxy = w.proxy := by
  obtain ⟨a, rest, L, R, push, spawn, rfl, hts, hr, hts', ht, hp⟩ := step_broker h
  refine ⟨a, L.flatten, rest ++ R.flatten, push, spawn, ?_, hr, ?_, ?_, ht, hp⟩
  · simp [System.next, hts]
  · simp [System.pending, hts]
  · simp [System.pending, hts']

theorem step_fire {cfg : Config} {w w' : System} {o : ℕ} (h : step cfg w (.fire o) = some w') :
    Quiet w w' := by
  simp only [step] at h
  split_ifs at h with ho
  obtain rfl := Option.some.inj h
  refine ⟨rfl, rfl, rfl, rfl, rfl, rfl, rfl, rfl, rfl, fun j => ?_, fun _ => .refl _,
    ⟨[.act o .watchdog], by simp [System.pending], by simpa using ho.1⟩⟩
  by_cases hj : j = o
  · subst hj
    exact ⟨false, by simp⟩
  · exact ⟨(w.core.objs j).s.watchdog, by simp [hj]⟩

theorem step_cut {cfg : Config} {w w' : System} {k : ConnId} {m n : ℕ}
    (h : step cfg w (.cut k m n) = some w') : Quiet w w' := by
  obtain rfl := Option.some.inj h
  exact ⟨rfl, rfl, rfl, rfl, rfl, rfl, rfl, rfl, rfl, fun _ => ⟨_, rfl⟩,
    w.core.grows_cut k m n, ⟨[], (List.append_nil _).symm, by simp⟩⟩

theorem step_moves {cfg : Config} {w w' : System} {e : Event} (h : step cfg w e = some w') :
    Moves cfg w w' e := by
  cases e with
  | tunnel c =>
    obtain ⟨a, rest, push, spawn, ht, hr, ht', hp, hts⟩ := step_tunnel h
    exact .sidecar _ a push spawn (sexec_does hr) (.inl ⟨⟨rest, ht, ht'⟩, hp⟩)
      (by simp [System.pending, hts])
  | proxy c =>
    obtain ⟨a, rest, push, spawn, hp, hr, hp', ht, hts⟩ := step_proxy h
    exact .sidecar _ a push spawn (sexec_does hr) (.inr ⟨⟨rest, hp, hp'⟩, ht⟩)
      (by simp [System.pending, hts])
  | broker i c =>
    obtain ⟨a, X, Y, push, spawn, hn, hr, hp, hp', ht, hproxy⟩ := step_bexec h
    exact .broker i c a X Y push spawn hn (bexec_does hr) ht hproxy hp hp'
  | fire o => exact .quiet _ (step_fire h)
  | cut k m n => exact .quiet _ (step_cut h)

theorem side_of_runs {w w' : System} {a : SAct} {push : List SAct}
    (h : Runs w.tunnel w'.tunnel a push ∧ w'.proxy = w.proxy ∨
      Runs w.proxy w'.proxy a push ∧ w'.tunnel = w.tunnel) :
    a ∈ w.tunnel ++ w.proxy ∧
      ∀ b ∈ w'.tunnel ++ w'.proxy, b ∈ w.tunnel ++ w.proxy ∨ b ∈ push := by
  rcases h with ⟨⟨rest, ht, ht'⟩, hp⟩ | ⟨⟨rest, hp, hp'⟩, ht⟩
  · rw [ht, ht', hp]
    refine ⟨List.mem_cons_self .., fun b hb => ?_⟩
    simp only [List.mem_append, List.mem_cons] at hb ⊢
    tauto
  · rw [hp, hp', ht]
    refine ⟨List.mem_append_right _ (List.mem_cons_self ..), fun b hb => ?_⟩
    simp only [List.mem_append, List.mem_cons] at hb ⊢
    tauto

theorem mem_pending_of_replace {w w' : System} {a : BAct} {X Y push new : List BAct}
    (hp : w.pending = X ++ a :: Y) (hp' : w'.pending = X ++ (push ++ Y) ++ new) :
    ∀ b ∈ w'.pending, b ∈ w.pending ∨ b ∈ push ++ new := by
  intro b hb
  rw [hp', List.mem_append] at hb
  rw [hp, List.mem_append (s := push)]
  rcases hb with hb | hb
  · exact (mem_of_replace hb).symm.imp id .inl
  · exact .inr (.inr hb)

theorem pending_stays {w w' : System} {a : BAct} {X Y push new : List BAct}
    (hp : w.pending = X ++ a :: Y) (hp' : w'.pending = X ++ (push ++ Y) ++ new) :
    (∀ x ∈ w.pending, x = a ∨ x ∈ w'.pending) ∧ ∀ x ∈ push, x ∈ w'.pending := by
  rw [hp, hp']
  constructor <;> intro x hx <;> simp only [List.mem_append, List.mem_cons] at hx ⊢ <;> tauto

theorem step_act {cfg : Config} {w w' : System} {i o : ℕ} {c : Choice} {a : Act}
    (h : step cfg w (.broker i c) = some w') (hn : w.next i = some (.act o a)) :
    ∃ r X Y, Does (w.core.objs o).s a c r ∧ w'.core = w.core.objAct o a c r ∧
      w.pending = X ++ .act o a :: Y ∧ w'.pending = X ++ (r.push.map (.act o) ++ Y) := by
  obtain ⟨b, X, Y, push, spawn, hb, hr, hp, hp', -, -⟩ := step_bexec h
  obtain rfl : b = .act o a := Option.some.inj (hb.symm.trans hn)
  simp only [bexec, Option.map_eq_some_iff, Prod.mk.injEq] at hr
  obtain ⟨r, hr, hcore, rfl, rfl⟩ := hr
  rw [List.flatten_nil, List.append_nil] at hp'
  exact ⟨r, X, Y, exec_does hr, hcore.symm, hp, hp'⟩

end SubstratePoc.Pair
