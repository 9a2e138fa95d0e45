import SubstratePoc.Deployment.BrokerRun

namespace SubstratePoc.Deployment
open Lib Tunnel Broker Server

theorem refusal_of_msg {f : Frame} {m : Msg} (h : f.msg = some m) : refusal m.frame = refusal f := by
  unfold Frame.msg at h
  split at h <;> cases h <;> simp_all [refusal, Msg.frame, FrameType.ofByte_byte]

theorem of_mem {s : Server.World} {t : Server.Thread} {a : HAct} (hO : Owned s)
    (ha : a ∈ s.threads t) : ∃ A, a.Of s.actor A := by
  have howner : ∃ A, s.owner t = some A := by
    cases t with
    | loop k =>
      have hsome := conn_of_mem hO ha k rfl
      obtain ⟨tc, htc⟩ := Option.isSome_iff_exists.mp hsome
      exact ⟨tc.actorID, by simp [World.owner, ownerOf, World.actor, htc]⟩
    | reader q => exact ⟨_, rfl⟩
    | timer q n => exact ⟨_, rfl⟩
  obtain ⟨A, hA⟩ := howner
  exact ⟨A, hO.acts t A hA a ha⟩

theorem conn_of_actor {s : Server.World} {k : ConnId} {A : Bytes} (h : s.actor k = some A) :
    ∃ tc, s.conns k = some tc := by
  obtain ⟨tc, htc, -⟩ := Option.map_eq_some_iff.mp h
  exact ⟨tc, htc⟩

theorem startDial_of_acts {key : Server.Key} {a : HAct} {o : ℕ}
    (h : .startDial o ∈ brokerActs key a) : a = .startDial ⟨key, o⟩ := by
  cases a with
  | startDial q =>
    simp only [brokerActs] at h
    split_ifs at h with hq
    · rw [List.mem_singleton, Pair.BAct.startDial.injEq] at h
      rw [h, ← hq]
    · cases h
  | handleFrame j f | reply j f =>
    simp only [brokerActs] at h
    cases hf : f.own key.sessionID <;> simp [hf] at h
  | openSession | attachSession | reattach | act =>
    simp only [brokerActs] at h
    split_ifs at h <;> simp at h
  | readFrame | detachAll | detaching | closeConn => simp [brokerActs] at h

theorem mem_of_acts {key : Server.Key} {l : List HAct} {o : ℕ}
    (h : .startDial o ∈ l.flatMap (brokerActs key)) : .startDial ⟨key, o⟩ ∈ l := by
  obtain ⟨a, ha, hstart⟩ := List.mem_flatMap.mp h
  exact startDial_of_acts hstart ▸ ha

theorem mem_of_loops {key : Server.Key} {s : Server.World} {t : Server.Thread} {o : ℕ}
    (h : .startDial o ∈ loops key s t) : .startDial ⟨key, o⟩ ∈ s.threads t := by
  apply mem_of_acts
  cases t with
  | loop k =>
    simp only [loops] at h
    split_ifs at h
    · exact h
    · simp at h
  | reader q => exact h
  | timer q n => exact h

section Acts
variable {cfg : Config} {sid : UInt64} {target : Bytes} {w : World} {p : Pair.System}
  {s₁ : Server.World} {up : ConnId → List Frame} {a : HAct} {push rest : List HAct}
  {t : Server.Thread} {k : ConnId}

theorem Follows.brokerDial {q : Ptr} (hI : Sound cfg w) (hM : Matches cfg sid target w p)
    (ht : w.broker.threads t = .startDial q :: rest)
    (hpub : ∀ k, t = .loop k → k < published w.sidecar) (hq : q.key = cfg.key sid) :
    Follows cfg sid target p (w.withBroker
      ((w.broker.setThread (.reader q) [.act q .dial]).setThread t ([] ++ rest)) w.up) := by
  have hmem : HAct.startDial q ∈ w.broker.threads t := by simp [ht]
  have h : HDoes cfg.broker w.broker (.startDial q) _ [] := .startDial q
  obtain ⟨key, o⟩ := q
  subst hq
  obtain ⟨order, hF⟩ := hM.far
  have hhead : (far (cfg.key sid) w.broker).threads t =
      .startDial o :: rest.flatMap (brokerActs (cfg.key sid)) := by
    refine (loops_head hI.owned ht).trans ?_
    simp [brokerActs]
  have hord : t ∈ order := hF.mem (fun k hk => hM.conns ▸ hpub k hk) (by simp [hhead])
  have hex : Pair.bexec (cfg.pair sid target) p.core (.startDial o) .ok =
      some (p.core, [], [[.act o .dial]]) := rfl
  obtain ⟨i, l, ts, hl, hstep, hts⟩ := hF.step hord hhead hex
  have hl : l = rest.flatMap (brokerActs (cfg.key sid)) := hl
  have hnot : .reader ⟨cfg.key sid, o⟩ ∉ order := by
    intro hr
    exact (hF.readers _ hr).2.2 t hord (by rw [hhead]; exact List.mem_cons_self)
  have hrest : HAct.startDial ⟨cfg.key sid, o⟩ ∉ rest := by
    have hcount := hI.spawned.count t ⟨cfg.key sid, o⟩
    rw [ht, List.count_cons_self] at hcount
    exact List.count_eq_zero.mp (by omega)
  -- first the entry of the goroutine that starts it, then its own
  have hmoved : FarMatches (cfg.key sid) { far (cfg.key sid) w.broker with
      threads := Function.update (far (cfg.key sid) w.broker).threads t l } p.core ts order := by
    refine hF.moved hts hord ?_ (fun u hu _ => ?_) ⟨hF.created, hF.sessions, hF.objs⟩ rfl le_rfl
      (fun _ _ => le_rfl) fun i hi => .inl ?_
    · simp
    · exact Function.update_of_ne hu ..
    · rw [hhead, ← hl]
      exact List.mem_cons_of_mem _ hi
  have hreader : loops (cfg.key sid) ((w.broker.setThread (.reader ⟨cfg.key sid, o⟩)
      [.act ⟨cfg.key sid, o⟩ .dial]).setThread t ([] ++ rest)) (.reader ⟨cfg.key sid, o⟩) =
      [.act o .dial] := by
    have hne : .reader ⟨cfg.key sid, o⟩ ≠ t := by
      rintro rfl
      rw [hI.spawned.undialed _ _ hmem] at ht
      cases ht
    simp [loops, Server.World.setThread, Function.update_of_ne hne, brokerActs]
  refine Follows.step hstep (hM.of_broker rfl (fun j hj => ?_) ⟨order ++ [.reader ⟨cfg.key sid, o⟩],
    hmoved.spawn hnot (fun u hu _ => ?_) ?_ ⟨hF.created, hF.sessions, hF.objs⟩ rfl
      (fun _ _ => le_rfl) (by simp) ?_ ?_ (by simp)⟩)
  · exact hM.lines_of_conns rfl j hj
  · rcases loops_run (cfg.key sid) hI.owned ht h u with ⟨rfl, heq⟩ | ⟨hne, heq⟩ | ⟨q, hq, hr, -⟩
    · refine heq.trans ?_
      simp [hl]
    · exact heq.trans (Function.update_of_ne hne ..).symm
    · cases hq
      exact absurd hr hu
  · exact hreader
  · intro i hi
    have hi : Pair.BAct.startDial i ∈ [Pair.BAct.act o .dial] := hreader ▸ hi
    simp at hi
  · rintro q hq
    cases hq
    refine ⟨rfl, hI.keyed.named t _ hmem _ List.mem_cons_self, fun u hu hdial => ?_⟩
    by_cases hut : u = t
    · subst hut
      have hdial : Pair.BAct.startDial o ∈ l := by simpa using hdial
      exact hrest (mem_of_acts (hl ▸ hdial))
    · have hdial : Pair.BAct.startDial o ∈ (far (cfg.key sid) w.broker).threads u := by
        simpa [Function.update_of_ne hut] using hdial
      exact hut (hI.spawned.single u t _ (mem_of_loops hdial) hmem)

/-! ### Frames of the broker -/

theorem toSidecar_eq (core : Pair.Core) (k : ConnId) (m : Msg) :
    core.toSidecar k m = { core with links := (core.toSidecar k m).links } := by
  unfold Pair.Core.toSidecar
  split_ifs <;> rfl

theorem lines_toSidecar {f : Frame} {m : Msg} {tc : Conn} (hM : Matches cfg sid target w p)
    (hk : w.broker.conns k = some tc) (hs : s₁.conns = (w.broker.write k f).conns)
    (hown : f.own sid = some m) (j : ConnId) (hj : j < p.core.conns) :
    lineOf ((p.core.toSidecar k m).links j) = line cfg sid (w.withBroker s₁ w.up) j := by
  have hline := hM.lines j hj
  by_cases hjk : j = k
  · subst hjk
    have hclosed : (p.core.links j).closed = w.closed j := congrArg Line.closed hline
    rw [line_write hk (congrFun hs j), ← hline]
    unfold Pair.Core.toSidecar World.carried
    rw [hclosed]
    split_ifs
    · simp
    · simp [Pair.Core.setLink, lineOf, hown]
  · rw [line_same rfl ((congrFun hs j).trans (conns_write_of_ne (Ne.symm hjk) f)), ← hline]
    unfold Pair.Core.toSidecar
    split_ifs
    · rfl
    · simp [Pair.Core.setLink, hjk]

theorem line_write_other {f : Frame} {tc : Conn} (hk : w.broker.conns k = some tc)
    (hs : s₁.conns = (w.broker.write k f).conns) (hown : f.own sid = none) (j : ConnId) :
    line cfg sid (w.withBroker s₁ w.up) j = line cfg sid w j := by
  by_cases hjk : j = k
  · subst hjk
    have hnil : (w.carried j [f]).filterMap (Frame.own sid) = [] := by
      unfold World.carried
      split_ifs <;> simp [hown]
    rw [line_write hk (congrFun hs j), hnil, List.append_nil]
  · exact line_same rfl ((congrFun hs j).trans (conns_write_of_ne (Ne.symm hjk) f))

theorem Follows.brokerReply {f : Frame} {ch : HChoice} (hI : Sound cfg w)
    (hM : Matches cfg sid target w p) (ht : w.broker.threads t = .reply k f :: rest)
    (hpub : ∀ k, t = .loop k → k < published w.sidecar)
    (hex : hexec cfg.broker w.broker (.reply k f) ch = some (s₁, push)) :
    Follows cfg sid target p (w.withBroker (s₁.setThread t (push ++ rest)) w.up) := by
  obtain ⟨A, hA⟩ := of_mem hI.owned (show HAct.reply k f ∈ w.broker.threads t by simp [ht])
  obtain ⟨tc, htc⟩ := conn_of_actor hA
  obtain ⟨hmade, hobjs, hsessions, -⟩ := write_frame w.broker k f
  have h := hexec_does hex
  simp only [hexec] at hex
  split at hex
  · split_ifs at hex with hr
    cases hex
    cases hown : f.own sid with
    | none =>
      refine Follows.brokerQuiet hI hM ht h (.inr ?_) (by simp) (by rw [hmade]) (by rw [hsessions])
        (fun o => by rw [hobjs]) fun j _ => line_write_other htc rfl hown j
      simp [brokerActs, Config.key, hown]
    | some m =>
      have hmsg : f.msg = some m := by
        unfold Frame.own at hown
        split_ifs at hown
        exact hown
      have hbexec : Pair.bexec (cfg.pair sid target) p.core (.reply k m) .ok =
          some ({ p.core with links := (p.core.toSidecar k m).links }, [], []) := by
        have hsend : m.Sendable := (refusal_of_msg hmsg).trans hr
        simp only [Pair.bexec, if_pos hsend]
        rw [← toSidecar_eq]
      refine Follows.plain .ok hI hM ht hpub h (by simp [brokerActs, Config.key, hown]) hbexec ?_
        (by simp) (by simp) ⟨hmade, hobjs, hsessions⟩ fun j hj => lines_toSidecar hM htc rfl hown j hj
      intro l hl
      rw [← hl]
      rfl
  · cases hex
    cases hown : f.own sid with
    | none =>
      exact Follows.brokerSkip hI hM ht h (by simp [brokerActs, Config.key, hown]) (by simp)
    | some m =>
      have hbexec : Pair.bexec (cfg.pair sid target) p.core (.reply k m) (.fail 0 []) =
          some (p.core, [], []) := rfl
      exact Follows.handled (.fail 0 []) hI hM ht hpub h (by simp [brokerActs, Config.key, hown])
        hbexec rfl (by simp) (by simp) (by simp)
  · cases hex

/-! ### The end of a connection -/

theorem Follows.brokerDetachAll {tc : Conn} (hI : Sound cfg w) (hM : Matches cfg sid target w p)
    (ht : w.broker.threads t = .detachAll k :: rest)
    (hpub : ∀ k, t = .loop k → k < published w.sidecar) (hk : w.broker.conns k = some tc) :
    Follows cfg sid target p (w.withBroker ((w.broker.setConn k { tc with sessions := [] }).setThread
      t ([.detaching k tc.sessions] ++ rest)) w.up) := by
  have h : HDoes cfg.broker w.broker (.detachAll k) _ [.detaching k tc.sessions] :=
    .detachAll k tc hk
  obtain rfl := hI.bound.home t (.detachAll k) (by simp [ht]) k rfl
  have hlt : k < p.core.conns := hM.conns ▸ hpub k rfl
  have hreg : (p.core.links k).registered.toList =
      (tc.sessions.filter (·.key = cfg.key sid)).map (·.gen) := by
    refine (congrArg Line.registered (hM.lines k hlt)).trans ?_
    simp [line, registered, hk]
  have hacts : [HAct.detaching k tc.sessions].flatMap (brokerActs (cfg.key sid)) =
      (p.core.links k).registered.toList.map fun o => .act o (.detach k) := by
    rw [hreg]
    simp [brokerActs]
  -- the one-session model has the session that is registered, if there is one
  have hbexec : Pair.bexec (cfg.pair sid target) p.core (.detachAll k) .ok =
      some ({ p.core with
        links := Function.update p.core.links k { p.core.links k with registered := none } },
        ((p.core.links k).registered.toList.map fun o => .act o (.detach k)) ++ [.closeConn k],
        []) := by
    cases hr : (p.core.links k).registered with
    | none =>
      have heq : Function.update p.core.links k { p.core.links k with registered := none } =
          p.core.links := by
        rw [← hr]
        simp
      simp [Pair.bexec, hr, heq]
    | some o => simp [Pair.bexec, hr, Pair.Core.setLink]
  refine Follows.plain .ok hI hM ht hpub h rfl hbexec ?_ (by simp) ?_ ⟨rfl, rfl, rfl⟩
    fun j hj => ?_
  · intro l hl
    rw [← hl, hacts, flatMap_unfoldAll (by simp)]
    simp [unfoldAll]
  · rw [hacts]
    simp
  · by_cases hjk : j = k
    · subst hjk
      rw [line_setConn { tc with sessions := [] } hk (Function.update_self ..) rfl, ← hM.lines j hj,
        Function.update_self]
      have hclosed : (p.core.links j).closed = w.closed j := congrArg Line.closed (hM.lines j hj)
      simp [lineOf, hclosed, World.closed, hk]
    · rw [line_same rfl (Function.update_of_ne hjk ..), ← hM.lines j hj]
      simp [hjk]

theorem filter_eraseIdx (key : Server.Key) {q : Ptr} {ps : List Ptr} {i : ℕ}
    (hnd : (ps.map Ptr.key).Nodup) (hq : ps[i]? = some q) :
    (if q.key = key then [q] else []) ++ (ps.eraseIdx i).filter (·.key = key) =
      ps.filter (·.key = key) := by
  -- at most one of the sessions has the key, so it does not matter when it is its turn
  induction ps generalizing i with
  | nil => cases hq
  | cons x ps ih =>
    obtain ⟨hx, hnd⟩ := List.nodup_cons.mp (List.map_cons ▸ hnd)
    cases i with
    | zero =>
      cases hq
      by_cases hk : q.key = key <;> simp [hk]
    | succ i =>
      have hq : ps[i]? = some q := by simpa using hq
      have ih := ih hnd hq
      by_cases hk : x.key = key
      · have hne : q.key ≠ key := by
          rintro rfl
          exact hx (hk ▸ List.mem_map_of_mem (List.mem_of_getElem? hq))
        rw [if_neg hne, List.nil_append] at ih ⊢
        simp [hk, ih]
      · simpa [hk] using ih

theorem Follows.brokerDetaching {ps : List Ptr} (hI : Sound cfg w) (hM : Matches cfg sid target w p)
    (ht : w.broker.threads t = .detaching k ps :: rest)
    (h : HDoes cfg.broker w.broker (.detaching k ps) s₁ push) :
    Follows cfg sid target p (w.withBroker (s₁.setThread t (push ++ rest)) w.up) := by
  have hnd := hI.solo.detaching t k ps (by simp [ht])
  cases h with
  | detaching _ _ i q hq =>
    refine Follows.brokerSkip hI hM ht (.detaching k ps i q hq) ?_ (by simp)
    have hfilter := congrArg (List.map fun q : Ptr => Pair.BAct.act q.gen (.detach k))
      (filter_eraseIdx (cfg.key sid) hnd hq)
    simp only [List.map_append] at hfilter
    simp only [brokerActs, List.flatMap_cons, List.flatMap_nil, List.append_nil]
    rw [← hfilter]
    split_ifs <;> rfl
  | detached => exact Follows.brokerSkip hI hM ht (.detached k) rfl (by simp)

theorem Follows.brokerClose {tc : Conn} (hI : Sound cfg w) (hM : Matches cfg sid target w p)
    (ht : w.broker.threads t = .closeConn k :: rest)
    (hpub : ∀ k, t = .loop k → k < published w.sidecar) (hk : w.broker.conns k = some tc) :
    Follows cfg sid target p (w.withBroker
      ((w.broker.setConn k { tc with closed := true }).setThread t ([] ++ rest)) w.up) := by
  have h : HDoes cfg.broker w.broker (.closeConn k) _ [] := .closeConn k tc hk
  have hbexec : Pair.bexec (cfg.pair sid target) p.core (.closeConn k) .ok =
      some (p.core.closeConn k, [], []) := rfl
  refine Follows.plain .ok hI hM ht hpub h rfl hbexec ?_ (by simp) (by simp) ⟨rfl, rfl, rfl⟩
    fun j hj => ?_
  · intro l hl
    rw [← hl]
    rfl
  · by_cases hjk : j = k
    · subst hjk
      have hreg : (line cfg sid w j).registered =
          (tc.sessions.filter (·.key = cfg.key sid)).map (·.gen) := by
        simp [line, registered, hk]
      rw [line_setConn { tc with closed := true } hk (Function.update_self ..) rfl, ← hreg,
        ← hM.lines j hj]
      simp [lineOf]
    · rw [line_same rfl (Function.update_of_ne hjk ..), ← hM.lines j hj]
      simp [hjk]

end Acts

end SubstratePoc.Deployment
