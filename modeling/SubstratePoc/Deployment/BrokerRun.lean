import SubstratePoc.Deployment.BrokerSteps

namespace SubstratePoc.Deployment
open Lib Tunnel Broker Server

theorem flatMap_unfoldAll {l : List Pair.BAct} (h : ∀ k, .detachAll k ∉ l) :
    l.flatMap unfoldAll = l := by
  induction l with
  | nil => rfl
  | cons a l ih =>
    have ha : unfoldAll a = [a] := by
      cases a with
      | detachAll k => exact absurd List.mem_cons_self (h k)
      | _ => rfl
    rw [List.flatMap_cons, ha, ih fun k hk => h k (List.mem_cons_of_mem _ hk), List.singleton_append]

section Run
variable {cfg : Config} {sid : UInt64} {target : Bytes} {w : World} {p : Pair.System}
  {s₁ : Server.World} {up : ConnId → List Frame} {a : HAct} {push rest : List HAct}
  {t : Server.Thread} {k : ConnId}

/-- An action that changes no session. -/
theorem Follows.plain {a' : Pair.BAct} {push' : List Pair.BAct} {links : ConnId → Pair.Link}
    (c : Choice) (hI : Sound cfg w) (hM : Matches cfg sid target w p)
    (ht : w.broker.threads t = a :: rest) (hpub : ∀ k, t = .loop k → k < published w.sidecar)
    (h : HDoes cfg.broker w.broker a s₁ push) (hacts : brokerActs (cfg.key sid) a = [a'])
    (hex : Pair.bexec (cfg.pair sid target) p.core a' c = some ({ p.core with links }, push', []))
    (hpush : ∀ l, (unfoldAll a').tail ++ l = rest.flatMap (brokerActs (cfg.key sid)) →
      push'.flatMap unfoldAll ++ l = push.flatMap (brokerActs (cfg.key sid)) ++
        rest.flatMap (brokerActs (cfg.key sid)))
    (hdial : ∀ q, a ≠ .startDial q)
    (hno : ∀ o, .startDial o ∉ push.flatMap (brokerActs (cfg.key sid)))
    (hsame : s₁.made = w.broker.made ∧ s₁.objs = w.broker.objs ∧ s₁.sessions = w.broker.sessions)
    (hlines : ∀ k < p.core.conns, lineOf (links k) =
      line cfg sid (w.withBroker (s₁.setThread t (push ++ rest)) up) k) :
    Follows cfg sid target p (w.withBroker (s₁.setThread t (push ++ rest)) up) := by
  obtain ⟨hmade, hobjs, hsessions⟩ := hsame
  obtain ⟨order, hF⟩ := hM.far
  refine Follows.brokerAct c hI hM ht hpub h hacts hex hpush hdial
    (fun o ho => absurd ho (hno o)) ⟨?_, ?_, ?_⟩ (by rw [hmade]) (by simp [hobjs]) rfl hlines
  · simpa only [far, hmade] using hF.created
  · simpa only [far, hsessions] using hF.sessions
  · simpa only [far, hmade, hobjs] using hF.objs

/-- An action that only leaves something else to do. -/
theorem Follows.handled {a' : Pair.BAct} {push' : List Pair.BAct} (c : Choice) (hI : Sound cfg w)
    (hM : Matches cfg sid target w p) (ht : w.broker.threads t = a :: rest)
    (hpub : ∀ k, t = .loop k → k < published w.sidecar)
    (h : HDoes cfg.broker w.broker a w.broker push) (hacts : brokerActs (cfg.key sid) a = [a'])
    (hex : Pair.bexec (cfg.pair sid target) p.core a' c = some (p.core, push', []))
    (hpush : push.flatMap (brokerActs (cfg.key sid)) = push') (hdial : ∀ q, a ≠ .startDial q)
    (hdet : ∀ k, .detachAll k ∉ a' :: push') (hno : ∀ o, .startDial o ∉ push') :
    Follows cfg sid target p (w.withBroker (w.broker.setThread t (push ++ rest)) w.up) := by
  have ha : unfoldAll a' = [a'] := by
    have := flatMap_unfoldAll fun k hk => hdet k (List.mem_cons.mpr (.inl (List.mem_singleton.mp hk)))
    rwa [List.flatMap_singleton] at this
  refine Follows.plain c hI hM ht hpub h hacts hex ?_ hdial (hpush ▸ hno) ⟨rfl, rfl, rfl⟩
    (hM.lines_of_conns rfl)
  intro l hl
  rw [← hl, hpush, ha, flatMap_unfoldAll fun k hk => hdet k (List.mem_cons_of_mem _ hk)]
  rfl

/-! ### The frame loop -/

theorem Follows.brokerRead {f : Frame} {fs : List Frame} (hI : Sound cfg w)
    (hM : Matches cfg sid target w p) (ht : w.broker.threads (.loop k) = .readFrame k :: rest)
    (hk : k < published w.sidecar) (hf : w.up k = f :: fs) :
    Follows cfg sid target p (w.withBroker
      (w.broker.setThread (.loop k) ([.handleFrame k f, .readFrame k] ++ rest))
      (Function.update w.up k fs)) := by
  have h : HDoes cfg.broker w.broker (.readFrame k) w.broker [.handleFrame k f, .readFrame k] :=
    .readFrame k f
  have hother : ∀ j, j ≠ k → line cfg sid (w.withBroker
      (w.broker.setThread (.loop k) ([.handleFrame k f, .readFrame k] ++ rest))
      (Function.update w.up k fs)) j = line cfg sid w j := by
    intro j hj
    refine line_same ?_ rfl
    rw [Function.update_of_ne hj]
  cases hown : f.own sid with
  | none =>
    -- what is not of the session is not in flight for it
    refine Follows.brokerQuiet hI hM ht h (.inr ?_) (by simp) rfl rfl (fun _ => rfl) fun j _ => ?_
    · simp [brokerActs, Config.key, hown]
    · by_cases hj : j = k
      · subst hj
        refine line_same ?_ rfl
        simp [hf, hown]
      · exact hother j hj
  | some m =>
    have hup : (p.core.links k).up = m :: fs.filterMap (Frame.own sid) := by
      refine (congrArg Line.up (hM.lines k (hM.conns ▸ hk))).trans ?_
      simp [line, hf, hown]
    have hread : Pair.bexec (cfg.pair sid target) p.core (.readFrame k) .ok = some
        (p.core.setLink k { p.core.links k with up := fs.filterMap (Frame.own sid) },
          [.handleFrame k m, .readFrame k], []) := by
      simp only [Pair.bexec, hup]
    refine Follows.plain .ok hI hM ht (fun j hj => by cases hj; exact hk) h rfl hread ?_ (by simp)
      (by simp [brokerActs, Config.key, hown]) ⟨rfl, rfl, rfl⟩ fun j hj => ?_
    · intro l hl
      rw [← hl]
      simp [unfoldAll, brokerActs, Config.key, hown]
    · by_cases hjk : j = k
      · subst hjk
        have hl := hM.lines j hj
        simp only [lineOf, line, Line.mk.injEq] at hl
        rw [line_withBroker]
        simp [lineOf, line, hl, World.closed, World.carried, sent, Server.World.setThread,
          registered]
      · rw [hother j hjk]
        simpa [Pair.Core.setLink, hjk] using hM.lines j hj

theorem Follows.brokerReadFail (hI : Sound cfg w) (hM : Matches cfg sid target w p)
    (ht : w.broker.threads t = .readFrame k :: rest)
    (hpub : ∀ k, t = .loop k → k < published w.sidecar) :
    Follows cfg sid target p (w.withBroker
      (w.broker.setThread t ([.detachAll k, .closeConn k] ++ rest)) w.up) := by
  refine Follows.plain (.fail 0 []) hI hM ht hpub (.readFail k) rfl rfl ?_ (by simp)
    (by simp [brokerActs]) ⟨rfl, rfl, rfl⟩ (hM.lines_of_conns rfl)
  intro l hl
  rw [← hl]
  simp [unfoldAll, brokerActs]

theorem detachAll_handle (k j : ConnId) (m : Msg) (o : Option ℕ) :
    .detachAll j ∉ Pair.handle k m o := by
  cases m <;> cases o <;> simp [Pair.handle]

theorem startDial_handle (k : ConnId) (m : Msg) (o : Option ℕ) (i : ℕ) :
    .startDial i ∉ Pair.handle k m o := by
  cases m <;> cases o <;> simp [Pair.handle]

theorem Follows.brokerHandle {f : Frame} {tc : Conn} (hI : Sound cfg w)
    (hM : Matches cfg sid target w p) (ht : w.broker.threads t = .handleFrame k f :: rest)
    (hpub : ∀ k, t = .loop k → k < published w.sidecar) (hk : w.broker.conns k = some tc) :
    Follows cfg sid target p (w.withBroker (w.broker.setThread t
      (Server.handleFrame k f (w.broker.lookup tc.actorID f.sessionID) ++ rest)) w.up) := by
  have h : HDoes cfg.broker w.broker (.handleFrame k f) w.broker _ := .handleFrame k f tc hk
  have hA : tc.actorID = (cfg.key sid).actorID := hI.solo.conns k tc hk
  rw [hA] at h ⊢
  obtain ⟨order, hF⟩ := hM.far
  cases hown : f.own (cfg.key sid).sessionID with
  | none =>
    refine Follows.brokerSkip hI hM ht h ?_ (by simp)
    rw [handleFrame_other hown]
    simp [brokerActs, hown]
  | some m =>
    have hpush := handleFrame_own (s := w.broker) (k := k) hown
    have hex : Pair.bexec (cfg.pair sid target) p.core (.handleFrame k m) .ok =
        some (p.core, Pair.handle k m (w.broker.sessions (cfg.key sid)), []) := by
      rw [← show p.core.sessions = w.broker.sessions (cfg.key sid) from hF.sessions]
      rfl
    refine Follows.handled .ok hI hM ht hpub h (by simp [brokerActs, hown]) hex hpush (by simp)
      (fun j hj => ?_) (startDial_handle k m _)
    simp [detachAll_handle] at hj

/-! ### Sessions -/

theorem acts_reply_own (cfg : Config) (k : ConnId) (sid : UInt64) (reason : Bytes) :
    brokerActs (cfg.key sid) (.reply k (Msg.close sid dirDown reason).frame) =
      [.reply k (.close sid dirDown reason)] := by
  have hown : (Msg.close sid dirDown reason).frame.own sid = _ := Msg.own_frame rfl rfl
  simp only [brokerActs, Config.key, hown]
  rfl

theorem acts_reply_other {s' : UInt64} (hs : s' ≠ sid) (reason : Bytes) :
    brokerActs (cfg.key sid) (.reply k (Msg.close s' dirDown reason).frame) = [] := by
  have hown : (Msg.close s' dirDown reason).frame.own sid = none := Msg.own_frame_of_ne hs
  simp only [brokerActs, Config.key, hown]
  rfl

/-- `openSession`. -/
inductive Opens (cfg : Server.Config) (s : Server.World) (k : ConnId) (key : Server.Key)
    (target : Bytes) : Server.World → List HAct → Prop
  | refused (h : cfg.allowTarget target = false) : Opens cfg s k key target s
      [.reply k (Msg.close key.sessionID dirDown targetNotAllowed).frame]
  | again (h : cfg.allowTarget target = true) (g : ℕ) (hs : s.sessions key = some g) :
    Opens cfg s k key target s [.attachSession k key.sessionID 0 target]
  | opened (h : cfg.allowTarget target = true) (hs : s.sessions key = none) :
    Opens cfg s k key target (s.make cfg key target)
      [.act ⟨key, s.made key⟩ (.bind k), .startDial ⟨key, s.made key⟩]

theorem opens_of_hexec {scfg : Server.Config} {s : Server.World} {s' : UInt64} {tgt : Bytes}
    {ch : HChoice} (h : hexec scfg s (.openSession k s' tgt) ch = some (s₁, push)) :
    ∃ tc, s.conns k = some tc ∧ Opens scfg s k ⟨tc.actorID, s'⟩ tgt s₁ push := by
  simp only [hexec, Option.map_eq_some_iff] at h
  obtain ⟨tc, htc, h⟩ := h
  refine ⟨tc, htc, ?_⟩
  split_ifs at h with hallow
  · cases h
    exact .refused (by simpa using hallow)
  · have hallow : scfg.allowTarget tgt = true := by simpa using hallow
    split at h <;> cases h
    · exact .again hallow _ (by assumption)
    · exact .opened hallow (by assumption)

theorem make_self (scfg : Server.Config) (s : Server.World) (key : Server.Key) (tgt : Bytes) :
    (s.make scfg key tgt).made key = s.made key + 1 ∧
      (s.make scfg key tgt).sessions key = some (s.made key) ∧
      (s.make scfg key tgt).objs ⟨key, s.made key⟩ =
        ⟨newSession scfg.sessionBufferBytes key.actorID key.sessionID tgt, [], false, 0⟩ ∧
      ∀ o ≠ s.made key, (s.make scfg key tgt).objs ⟨key, o⟩ = s.objs ⟨key, o⟩ := by
  refine ⟨Function.update_self .., Function.update_self .., Function.update_self .., fun o ho => ?_⟩
  exact Function.update_of_ne (by simpa using ho) ..

theorem make_other (scfg : Server.Config) (s : Server.World) {key key' : Server.Key}
    (h : key' ≠ key) (tgt : Bytes) : (s.make scfg key tgt).made key' = s.made key' ∧
      (s.make scfg key tgt).sessions key' = s.sessions key' ∧
      ∀ o, (s.make scfg key tgt).objs ⟨key', o⟩ = s.objs ⟨key', o⟩ :=
  ⟨Function.update_of_ne h .., Function.update_of_ne h ..,
    fun _ => Function.update_of_ne (by simp [h]) ..⟩

theorem Follows.brokerOpened {tgt : Bytes} (hI : Sound cfg w) (hM : Matches cfg sid target w p)
    (ht : w.broker.threads t = .openSession k sid tgt :: rest)
    (hpub : ∀ k, t = .loop k → k < published w.sidecar)
    (hallow : cfg.broker.allowTarget tgt = true)
    (hnone : w.broker.sessions (cfg.key sid) = none)
    (hpush : push = [.act ⟨cfg.key sid, w.broker.made (cfg.key sid)⟩ (.bind k),
      .startDial ⟨cfg.key sid, w.broker.made (cfg.key sid)⟩])
    (h : HDoes cfg.broker w.broker (.openSession k sid tgt)
      (w.broker.make cfg.broker (cfg.key sid) tgt) push) :
    Follows cfg sid target p (w.withBroker
      ((w.broker.make cfg.broker (cfg.key sid) tgt).setThread t (push ++ rest)) w.up) := by
  obtain ⟨order, hF⟩ := hM.far
  have hcreated : p.core.created = w.broker.made (cfg.key sid) := hF.created
  have hsessions : p.core.sessions = none := hF.sessions.trans hnone
  obtain ⟨hmade, hsess, hnew, hold⟩ := make_self cfg.broker w.broker (cfg.key sid) tgt
  have hbexec : Pair.bexec (cfg.pair sid target) p.core (.openSession k tgt) .ok =
      some ({ p.core with
        created := p.core.created + 1
        objs := Function.update p.core.objs p.core.created ((cfg.pair sid target).newObj tgt)
        sessions := some p.core.created },
        [.act p.core.created (.bind k), .startDial p.core.created], []) := by
    simp [Pair.bexec, Config.pair, hallow, hsessions]
  have hacts : push.flatMap (brokerActs (cfg.key sid)) =
      [.act p.core.created (.bind k), .startDial p.core.created] := by
    simp [hpush, brokerActs, hcreated]
  refine Follows.brokerAct .ok hI hM ht hpub h (by simp [brokerActs, Config.key]) hbexec ?_ (by simp)
    ?_ ⟨?_, ?_, fun o ho => ?_⟩ (hmade ▸ Nat.le_succ _) (fun o ho => ?_) rfl
    (hM.lines_of_conns rfl)
  · intro l hl
    rw [← hl, hacts]
    rfl
  · intro o ho
    rw [hacts] at ho
    simp only [List.mem_cons, reduceCtorEq, Pair.BAct.startDial.injEq, List.not_mem_nil,
      or_false, false_or] at ho
    rw [ho, hcreated]
  · exact (congrArg (· + 1) hcreated).trans hmade.symm
  · exact (congrArg some hcreated).trans hsess.symm
  · have ho : o < w.broker.made (cfg.key sid) + 1 := ho.trans_eq hmade
    by_cases heq : o = w.broker.made (cfg.key sid)
    · subst heq
      simp only [far, hcreated, Function.update_self, hnew]
      rfl
    · simp only [far, hold o heq, hcreated, Function.update_of_ne heq]
      exact hF.objs o (by show o < w.broker.made (cfg.key sid); omega)
  · rw [hold o ho.ne]

theorem Follows.brokerOpen {s' : UInt64} {tgt : Bytes} {ch : HChoice} (hI : Sound cfg w)
    (hM : Matches cfg sid target w p) (ht : w.broker.threads t = .openSession k s' tgt :: rest)
    (hpub : ∀ k, t = .loop k → k < published w.sidecar)
    (hex : hexec cfg.broker w.broker (.openSession k s' tgt) ch = some (s₁, push)) :
    Follows cfg sid target p (w.withBroker (s₁.setThread t (push ++ rest)) w.up) := by
  have h := hexec_does hex
  obtain ⟨tc, htc, hopen⟩ := opens_of_hexec hex
  rw [hI.solo.conns k tc htc] at hopen
  have hopen : Opens cfg.broker w.broker k (cfg.key s') tgt s₁ push := hopen
  obtain ⟨order, hF⟩ := hM.far
  by_cases hs : s' = sid
  · subst hs
    have hacts : brokerActs (cfg.key s') (.openSession k s' tgt) = [.openSession k tgt] := by
      simp [brokerActs, Config.key]
    cases hopen with
    | refused hallow =>
      have hbexec : Pair.bexec (cfg.pair s' target) p.core (.openSession k tgt) .ok =
          some (p.core, [.reply k (.close s' dirDown Pair.targetNotAllowed)], []) := by
        simp [Pair.bexec, Config.pair, hallow]
      have hreply : [HAct.reply k (Msg.close (cfg.key s').sessionID dirDown
          targetNotAllowed).frame].flatMap (brokerActs (cfg.key s')) =
          [.reply k (.close s' dirDown Pair.targetNotAllowed)] :=
        (List.flatMap_singleton ..).trans (acts_reply_own cfg k s' targetNotAllowed)
      exact Follows.handled .ok hI hM ht hpub h hacts hbexec hreply (by simp) (by simp) (by simp)
    | again hallow g hg =>
      have hbexec : Pair.bexec (cfg.pair s' target) p.core (.openSession k tgt) .ok =
          some (p.core, [.attachSession k 0 tgt], []) := by
        simp [Pair.bexec, Config.pair, hallow,
          show p.core.sessions = some g from hF.sessions.trans hg]
      exact Follows.handled .ok hI hM ht hpub h hacts hbexec (by simp [brokerActs, Config.key])
        (by simp) (by simp) (by simp)
    | opened hallow hnone => exact Follows.brokerOpened hI hM ht hpub hallow hnone rfl h
  · have hkey : cfg.key sid ≠ cfg.key s' := by simpa [Config.key] using Ne.symm hs
    have hacts : brokerActs (cfg.key sid) (.openSession k s' tgt) = [] := by
      simp [brokerActs, Config.key, hs]
    cases hopen with
    | refused hallow =>
      refine Follows.brokerSkip hI hM ht h ?_ (by simp)
      rw [hacts, List.flatMap_singleton]
      exact acts_reply_other hs targetNotAllowed
    | again hallow g hg =>
      exact Follows.brokerSkip hI hM ht h (by simp [brokerActs, Config.key, hs]) (by simp)
    | opened hallow hnone =>
      obtain ⟨hmade, hsess, hobjs⟩ := make_other cfg.broker w.broker hkey tgt
      refine Follows.brokerQuiet hI hM ht h (.inr ?_) (by simp) hmade hsess hobjs
        fun j _ => line_same rfl rfl
      simp [brokerActs, Config.key, hs]

/-! ### Attaching -/

theorem Follows.brokerAttach {s' : UInt64} {offset : ℕ} {tgt : Bytes} {ch : HChoice}
    (hI : Sound cfg w) (hM : Matches cfg sid target w p)
    (ht : w.broker.threads t = .attachSession k s' offset tgt :: rest)
    (hpub : ∀ k, t = .loop k → k < published w.sidecar)
    (hex : hexec cfg.broker w.broker (.attachSession k s' offset tgt) ch = some (s₁, push)) :
    Follows cfg sid target p (w.withBroker (s₁.setThread t (push ++ rest)) w.up) := by
  have h := hexec_does hex
  simp only [hexec, Option.map_eq_some_iff] at hex
  obtain ⟨tc, htc, hex⟩ := hex
  rw [hI.solo.conns k tc htc] at hex
  obtain ⟨order, hF⟩ := hM.far
  have hlookup : w.broker.lookup cfg.actorID s' =
      (w.broker.sessions (cfg.key s')).map (Ptr.mk (cfg.key s')) := rfl
  rw [hlookup] at hex
  by_cases hs : s' = sid
  · subst hs
    have hacts : brokerActs (cfg.key s') (.attachSession k s' offset tgt) =
        [.attachSession k offset tgt] := by
      simp [brokerActs, Config.key]
    have hsessions : p.core.sessions = w.broker.sessions (cfg.key s') := hF.sessions
    cases hg : w.broker.sessions (cfg.key s') with
    | some g =>
      rw [hg] at hex hsessions
      cases hex
      have hbexec : Pair.bexec (cfg.pair s' target) p.core (.attachSession k offset tgt) .ok =
          some (p.core, [.act g (.bind k), .act g (.onSidecarAttach offset)], []) := by
        simp [Pair.bexec, hsessions]
      exact Follows.handled .ok hI hM ht hpub h hacts hbexec (by simp [brokerActs]) (by simp)
        (by simp) (by simp)
    | none =>
      rw [hg] at hex hsessions
      simp only [Option.map_none] at hex
      split_ifs at hex with hoff
      · cases hex
        have hbexec : Pair.bexec (cfg.pair s' target) p.core (.attachSession k offset tgt) .ok =
            some (p.core, [.openSession k tgt, .reattach offset], []) := by
          simp [Pair.bexec, hsessions, hoff]
        exact Follows.handled .ok hI hM ht hpub h hacts hbexec (by simp [brokerActs, Config.key])
          (by simp) (by simp) (by simp)
      · cases hex
        have hbexec : Pair.bexec (cfg.pair s' target) p.core (.attachSession k offset tgt) .ok =
            some (p.core, [.reply k (.close s' dirDown Pair.sessionLost)], []) := by
          simp only [Pair.bexec, hsessions, if_neg hoff]
          rfl
        refine Follows.handled .ok hI hM ht hpub h hacts hbexec ?_ (by simp) (by simp) (by simp)
        rw [List.flatMap_singleton, acts_reply_own]
        rfl
  · have hacts : push.flatMap (brokerActs (cfg.key sid)) = [] ∧ s₁ = w.broker := by
      cases hg : w.broker.sessions (cfg.key s') with
      | some g =>
        rw [hg] at hex
        cases hex
        simp [brokerActs, Config.key, hs]
      | none =>
        rw [hg] at hex
        simp only [Option.map_none] at hex
        split_ifs at hex <;> cases hex
        · simp [brokerActs, Config.key, hs]
        · simp [acts_reply_other hs]
    obtain ⟨hacts, rfl⟩ := hacts
    refine Follows.brokerSkip hI hM ht h ?_ (by simp)
    rw [hacts]
    simp [brokerActs, Config.key, hs]

theorem Follows.brokerReattach {s' : UInt64} {offset : ℕ} {ch : HChoice} (hI : Sound cfg w)
    (hM : Matches cfg sid target w p) (ht : w.broker.threads t = .reattach k s' offset :: rest)
    (hpub : ∀ k, t = .loop k → k < published w.sidecar)
    (hex : hexec cfg.broker w.broker (.reattach k s' offset) ch = some (s₁, push)) :
    Follows cfg sid target p (w.withBroker (s₁.setThread t (push ++ rest)) w.up) := by
  have h := hexec_does hex
  simp only [hexec, Option.map_eq_some_iff] at hex
  obtain ⟨tc, htc, hex⟩ := hex
  rw [hI.solo.conns k tc htc] at hex
  have hlookup : w.broker.lookup cfg.actorID s' =
      (w.broker.sessions (cfg.key s')).map (Ptr.mk (cfg.key s')) := rfl
  rw [hlookup] at hex
  obtain ⟨order, hF⟩ := hM.far
  cases hex
  by_cases hs : s' = sid
  · subst hs
    have hbexec : Pair.bexec (cfg.pair s' target) p.core (.reattach offset) .ok =
        some (p.core, ((w.broker.sessions (cfg.key s')).map fun g =>
          .act g (.onSidecarAttach offset)).toList, []) := by
      rw [← show p.core.sessions = w.broker.sessions (cfg.key s') from hF.sessions]
      cases hg : p.core.sessions <;> simp [Pair.bexec, hg]
    refine Follows.handled .ok hI hM ht hpub h (by simp [brokerActs, Config.key]) hbexec ?_ (by simp)
      (by simp) (by simp)
    cases w.broker.sessions (cfg.key s') <;> simp [brokerActs]
  · refine Follows.brokerSkip hI hM ht h ?_ (by simp)
    cases w.broker.sessions (cfg.key s') <;> simp [brokerActs, Config.key, hs]

end Run

end SubstratePoc.Deployment
