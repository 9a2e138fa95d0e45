import SubstratePoc.Deployment.SidecarSteps

namespace SubstratePoc.Deployment
open Lib Tunnel Broker Server

/-! ## The broker's half -/

section Far
variable {key : Server.Key} {cfg : Server.Config} {s s₁ : Server.World} {a : HAct}
  {push rest : List HAct} {t : Server.Thread} {k : ConnId}

theorem loops_of_conn (h : ∀ k, t = .loop k → (s.conns k).isSome = true) :
    loops key s t = (s.threads t).flatMap (brokerActs key) := by
  cases t with
  | loop k => simp [loops, h k rfl]
  | _ => rfl

theorem conn_of_mem (hO : Owned s) (ha : a ∈ s.threads t) (k : ConnId) (ht : t = .loop k) :
    (s.conns k).isSome = true := by
  subst ht
  cases hc : s.conns k with
  | none =>
    rw [hO.idle k hc] at ha
    cases ha
  | some tc => rfl

theorem HDoes.isSome (h : HDoes cfg s a s₁ push) (k : ConnId) :
    (s₁.conns k).isSome = (s.conns k).isSome := by
  have := congrArg Option.isSome (congrFun h.actor k)
  simpa [World.actor] using this

theorem loops_head (hO : Owned s) (ht : s.threads t = a :: rest) :
    loops key s t = brokerActs key a ++ rest.flatMap (brokerActs key) := by
  rw [loops_of_conn (conn_of_mem hO (by rw [ht]; exact List.mem_cons_self)), ht, List.flatMap_cons]

/-- What the goroutines of the broker have to do for a session, after an action of one of them. -/
theorem loops_run (key : Server.Key) (hO : Owned s) (ht : s.threads t = a :: rest)
    (h : HDoes cfg s a s₁ push) (u : Server.Thread) :
    (u = t ∧ loops key (s₁.setThread t (push ++ rest)) u =
      push.flatMap (brokerActs key) ++ rest.flatMap (brokerActs key)) ∨
    (u ≠ t ∧ loops key (s₁.setThread t (push ++ rest)) u = loops key s u) ∨
    ∃ p, a = .startDial p ∧ u = .reader p ∧ u ≠ t ∧
      loops key (s₁.setThread t (push ++ rest)) u = brokerActs key (.act p .dial) := by
  rcases Server.threads_run h ht u with ⟨rfl, heq⟩ | ⟨hu, heq⟩ | ⟨p, ha, hu, rfl, heq⟩
  · refine .inl ⟨rfl, ?_⟩
    rw [loops_of_conn, heq, List.flatMap_append]
    intro k hk
    exact (HDoes.isSome h k).trans (conn_of_mem hO (by rw [ht]; exact List.mem_cons_self) k hk)
  · refine .inr (.inl ⟨hu, ?_⟩)
    have hconns : ∀ k, ((s₁.setThread t (push ++ rest)).conns k).isSome = (s.conns k).isSome := by
      intro k
      show (s₁.conns k).isSome = _
      exact HDoes.isSome h k
    cases u <;> simp only [loops, heq, hconns]
  · refine .inr (.inr ⟨p, ha, rfl, hu, ?_⟩)
    rw [loops, heq, List.flatMap_cons, List.flatMap_nil, List.append_nil]
    simp

end Far

/-! ## The connections -/

section Lines
variable {cfg : Config} {sid : UInt64} {w : World} {s₁ : Server.World} {up : ConnId → List Frame}
  {l : List HAct} {t : Server.Thread} {k : ConnId}

theorem line_withBroker : line cfg sid (w.withBroker s₁ up) k =
    { line cfg sid w k with
      up := (up k).filterMap (Frame.own sid)
      down := (line cfg sid w k).down ++
        (w.carried k ((sent s₁ k).drop (sent w.broker k).length)).filterMap (Frame.own sid)
      closed := w.cut k || (w.sidecar.links k).closed || (s₁.conns k).any (·.closed)
      registered := registered (cfg.key sid) s₁ k } := by
  simp [line, World.withBroker, World.closed]

theorem line_same (hup : (up k).filterMap (Frame.own sid) = (w.up k).filterMap (Frame.own sid))
    (hconn : s₁.conns k = w.broker.conns k) :
    line cfg sid (w.withBroker s₁ up) k = line cfg sid w k := by
  have hsent : sent s₁ k = sent w.broker k := by
    rw [sent, hconn]
    rfl
  rw [line_withBroker, hsent, List.drop_length, hup]
  simp [line, registered, hconn, World.closed, World.carried]

/-- The broker's record of a connection changes, but for the frames that it has written. -/
theorem line_setConn {tc : Conn} (tc' : Conn) (hk : w.broker.conns k = some tc)
    (hs : s₁.conns k = some tc') (hsent : tc'.sent = tc.sent) :
    line cfg sid (w.withBroker s₁ w.up) k = { line cfg sid w k with
      closed := w.cut k || (w.sidecar.links k).closed || tc'.closed
      registered := (tc'.sessions.filter (·.key = cfg.key sid)).map (·.gen) } := by
  rw [line_withBroker]
  simp [line, World.carried, sent, registered, hk, hs, hsent]

theorem line_write {f : Frame} {tc : Conn} (hk : w.broker.conns k = some tc)
    (hs : s₁.conns k = (w.broker.write k f).conns k) :
    line cfg sid (w.withBroker s₁ w.up) k = { line cfg sid w k with
      down := (line cfg sid w k).down ++ (w.carried k [f]).filterMap (Frame.own sid) } := by
  by_cases hc : tc.closed = true
  · -- the broker has closed the connection, so the frame does not get far
    have hsame : s₁.conns k = w.broker.conns k := by
      simp [hs, Server.World.write, hk, hc]
    have hclosed : w.closed k = true := by simp [World.closed, hk, hc]
    rw [line_same rfl hsame, World.carried, if_pos hclosed, List.filterMap_nil, List.append_nil]
  · have hnew : s₁.conns k = some { tc with sent := tc.sent ++ [f] } := by
      simp [hs, Server.World.write, hk, hc, Server.World.setConn]
    rw [line_withBroker]
    simp [sent, hnew, hk, registered, line, World.closed]

end Lines

/-! ## Steps -/

section Steps
variable {cfg : Config} {sid : UInt64} {target : Bytes} {w : World} {p p' : Pair.System}
  {s s₁ : Server.World} {up : ConnId → List Frame} {a : HAct} {push rest : List HAct}
  {t : Server.Thread} {k : ConnId}

theorem Matches.of_broker (hM : Matches cfg sid target w p) (hside : sideOf p' = sideOf p)
    (hlines : ∀ k < p.core.conns,
      lineOf (p'.core.links k) = line cfg sid (w.withBroker s up) k)
    (hfar : ∃ order, FarMatches (cfg.key sid) (Deployment.far (cfg.key sid) s) p'.core p'.threads
      order) : Matches cfg sid target (w.withBroker s up) p' := by
  have hconns : p'.core.conns = p.core.conns := congrArg Side.conns hside
  exact ⟨hside.trans hM.side, fun k hk => hlines k (hconns ▸ hk), hfar⟩

theorem Matches.lines_of_conns (hM : Matches cfg sid target w p) (hs : s.conns = w.broker.conns)
    (k : ConnId) (hk : k < p.core.conns) :
    lineOf (p.core.links k) = line cfg sid (w.withBroker s w.up) k :=
  (hM.lines k hk).trans (line_same rfl (congrFun hs k)).symm

/-- The session does not see that the broker has moved. -/
theorem Follows.brokerSilent (hM : Matches cfg sid target w p)
    (hthreads : ∀ u, (∀ k, u = .loop k → k < published w.sidecar) →
      loops (cfg.key sid) s u = loops (cfg.key sid) w.broker u)
    (hmade : s.made (cfg.key sid) = w.broker.made (cfg.key sid))
    (hsessions : s.sessions (cfg.key sid) = w.broker.sessions (cfg.key sid))
    (hobjs : ∀ o, s.objs ⟨cfg.key sid, o⟩ = w.broker.objs ⟨cfg.key sid, o⟩)
    (hlines : ∀ k < published w.sidecar,
      line cfg sid (w.withBroker s up) k = line cfg sid w k) :
    Follows cfg sid target p (w.withBroker s up) := by
  obtain ⟨order, hF⟩ := hM.far
  refine .refl (hM.of_broker rfl (fun k hk => ?_) ⟨order, ?_⟩)
  · rw [hlines k (hM.conns ▸ hk)]
    exact hM.lines k hk
  · refine hF.congr (fun u hu => hthreads u fun k hk => ?_) ⟨?_, ?_, ?_⟩ rfl ?_ ?_
    · exact hM.conns ▸ hu k hk
    · exact hF.created.trans hmade.symm
    · exact hF.sessions.trans hsessions.symm
    · intro o ho
      refine (hF.objs o (ho.trans_eq hmade)).trans ?_
      simp only [far, hobjs]
    · exact hmade.ge
    · intro o _
      simp only [far, hobjs]
      exact le_rfl

theorem Follows.brokerQuiet (hI : Sound cfg w) (hM : Matches cfg sid target w p)
    (ht : w.broker.threads t = a :: rest) (h : HDoes cfg.broker w.broker a s₁ push)
    (hacts : (∃ k, t = .loop k ∧ published w.sidecar ≤ k) ∨
      push.flatMap (brokerActs (cfg.key sid)) = brokerActs (cfg.key sid) a)
    (hdial : ∀ q, a = .startDial q → q.key ≠ cfg.key sid)
    (hmade : s₁.made (cfg.key sid) = w.broker.made (cfg.key sid))
    (hsessions : s₁.sessions (cfg.key sid) = w.broker.sessions (cfg.key sid))
    (hobjs : ∀ o, s₁.objs ⟨cfg.key sid, o⟩ = w.broker.objs ⟨cfg.key sid, o⟩)
    (hlines : ∀ k < published w.sidecar,
      line cfg sid (w.withBroker (s₁.setThread t (push ++ rest)) up) k = line cfg sid w k) :
    Follows cfg sid target p (w.withBroker (s₁.setThread t (push ++ rest)) up) := by
  refine Follows.brokerSilent hM (fun u hu => ?_) hmade hsessions hobjs hlines
  rcases loops_run (cfg.key sid) hI.owned ht h u with ⟨rfl, heq⟩ | ⟨-, heq⟩ |
    ⟨q, rfl, rfl, -, heq⟩
  · rcases hacts with ⟨k, rfl, hk⟩ | hacts
    · exact absurd (hu k rfl) (Nat.not_lt.mpr hk)
    · rw [heq, hacts, loops_head hI.owned ht]
  · exact heq
  · have hidle := hI.spawned.undialed t q (by rw [ht]; exact List.mem_cons_self)
    rw [heq, brokerActs, if_neg (hdial q rfl), loops, hidle]
    · rfl
    · simp

theorem Follows.brokerSkip (hI : Sound cfg w) (hM : Matches cfg sid target w p)
    (ht : w.broker.threads t = a :: rest) (h : HDoes cfg.broker w.broker a w.broker push)
    (hacts : push.flatMap (brokerActs (cfg.key sid)) = brokerActs (cfg.key sid) a)
    (hdial : ∀ q, a ≠ .startDial q) :
    Follows cfg sid target p (w.withBroker (w.broker.setThread t (push ++ rest)) w.up) :=
  Follows.brokerQuiet hI hM ht h (.inr hacts) (fun q hq => absurd hq (hdial q)) rfl rfl
    (fun _ => rfl) fun _ _ => line_same rfl rfl

/-- A goroutine that has something to do for the session has a number. -/
theorem FarMatches.mem {key : Server.Key} {F : Far} {core : Pair.Core} {ts : List (List Pair.BAct)}
    {order : List Server.Thread} (hF : FarMatches key F core ts order)
    (hloop : ∀ k, t = .loop k → k < core.conns) (hne : F.threads t ≠ []) : t ∈ order := by
  by_contra hnot
  cases t with
  | loop k => exact hnot ((hF.loops k).mpr (hloop k rfl))
  | reader q => exact hne (hF.cover _ (by simp) hnot)
  | timer q n => exact hne (hF.cover _ (by simp) hnot)

theorem Follows.brokerAct {a' : Pair.BAct} {push' : List Pair.BAct} {core : Pair.Core} (c : Choice)
    (hI : Sound cfg w) (hM : Matches cfg sid target w p) (ht : w.broker.threads t = a :: rest)
    (hpub : ∀ k, t = .loop k → k < published w.sidecar)
    (h : HDoes cfg.broker w.broker a s₁ push) (hacts : brokerActs (cfg.key sid) a = [a'])
    (hex : Pair.bexec (cfg.pair sid target) p.core a' c = some (core, push', []))
    (hpush : ∀ l, (unfoldAll a').tail ++ l = rest.flatMap (brokerActs (cfg.key sid)) →
      push'.flatMap unfoldAll ++ l = push.flatMap (brokerActs (cfg.key sid)) ++
        rest.flatMap (brokerActs (cfg.key sid)))
    (hdial : ∀ q, a ≠ .startDial q)
    (hnew : ∀ o, .startDial o ∈ push.flatMap (brokerActs (cfg.key sid)) →
      w.broker.made (cfg.key sid) ≤ o)
    (hobjs : SameObjs (far (cfg.key sid) s₁) core)
    (hle : w.broker.made (cfg.key sid) ≤ s₁.made (cfg.key sid))
    (hfired : ∀ o < w.broker.made (cfg.key sid),
      (w.broker.objs ⟨cfg.key sid, o⟩).fired ≤ (s₁.objs ⟨cfg.key sid, o⟩).fired)
    (hside : (sideOf p).withCore core = sideOf p)
    (hlines : ∀ k < p.core.conns, lineOf (core.links k) =
      line cfg sid (w.withBroker (s₁.setThread t (push ++ rest)) up) k) :
    Follows cfg sid target p (w.withBroker (s₁.setThread t (push ++ rest)) up) := by
  obtain ⟨order, hF⟩ := hM.far
  have hhead : (far (cfg.key sid) w.broker).threads t =
      a' :: rest.flatMap (brokerActs (cfg.key sid)) := by
    refine (loops_head hI.owned ht).trans ?_
    rw [hacts, List.singleton_append]
  have hmem : t ∈ order := by
    refine hF.mem (fun k hk => hM.conns ▸ hpub k hk) ?_
    simp [hhead]
  obtain ⟨i, l, ts, hl, hstep, hts⟩ := hF.step hmem hhead hex
  rw [List.append_nil] at hstep
  refine Follows.step hstep (hM.of_broker hside hlines ⟨order, ?_⟩)
  refine hF.moved hts hmem ?_ (fun u hu _ => ?_) ⟨hobjs.created, hobjs.sessions, hobjs.objs⟩
    (congrArg Side.conns hside) hle hfired ?_
  · rcases loops_run (cfg.key sid) hI.owned ht h t with ⟨-, heq⟩ | ⟨hne, -⟩ |
      ⟨q, ha, -⟩
    · exact heq.trans (hpush l hl).symm
    · exact absurd rfl hne
    · exact absurd ha (hdial q)
  · rcases loops_run (cfg.key sid) hI.owned ht h u with ⟨heq, -⟩ | ⟨-, heq⟩ | ⟨q, ha, -⟩
    · exact absurd heq hu
    · exact heq
    · exact absurd ha (hdial q)
  · intro o ho
    rw [hpush l hl] at ho
    rcases List.mem_append.mp ho with ho | ho
    · exact .inr (hnew o ho)
    · exact .inl (by rw [hhead]; exact List.mem_cons_of_mem _ ho)

end Steps

end SubstratePoc.Deployment
