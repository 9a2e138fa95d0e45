import SubstratePoc.Deployment.BrokerActs

namespace SubstratePoc.Deployment
open Lib Tunnel Broker Server

section Core
variable {core : Pair.Core} {s : Session} {b : Act} {ch : Choice} {r : Result}

theorem conn_effect (o : ℕ) (core : Pair.Core) (e : Effect) : (core.effect o e).conn = core.conn := by
  cases e with
  | frame k m =>
    simp only [Pair.Core.effect, Pair.Core.toSidecar]
    split_ifs <;> rfl
  | _ => rfl

theorem conn_objAct (h : Does s b ch r) (core : Pair.Core) (o : ℕ) :
    (core.objAct o b ch r).conn = core.conn := by
  obtain he | ⟨e, he⟩ := eff_cases h <;> rw [Pair.Core.objAct, he]
  · rfl
  · exact conn_effect o _ e

theorem links_objAct (h : Does s b ch r) (hframe : ∀ k m, .frame k m ∉ r.eff)
    (hreg : ∀ k, .register k ∉ r.eff) (core : Pair.Core) (o : ℕ) :
    (core.objAct o b ch r).links = core.links := by
  obtain he | ⟨e, he⟩ := eff_cases h <;> rw [Pair.Core.objAct, he]
  · rfl
  · rw [he] at hframe hreg
    cases e with
    | frame k m => exact absurd List.mem_cons_self (hframe k m)
    | register k => exact absurd List.mem_cons_self (hreg k)
    | _ => rfl

theorem links_frame {k : ConnId} {m : Msg} (he : r.eff = [.frame k m]) (core : Pair.Core) (o : ℕ) :
    (core.objAct o b ch r).links = (core.toSidecar k m).links := by
  simp only [Pair.Core.objAct, he, List.foldl_cons, List.foldl_nil, Pair.Core.effect,
    Pair.Core.toSidecar]
  split_ifs <;> rfl

theorem links_register {k : ConnId} (he : r.eff = [.register k]) (core : Pair.Core) (o : ℕ) :
    (core.objAct o b ch r).links =
      Function.update core.links k { core.links k with registered := some o } := by
  simp only [Pair.Core.objAct, he, List.foldl_cons, List.foldl_nil]
  rfl

end Core

section Acts
variable {cfg : Config} {sid : UInt64} {target : Bytes} {w : World} {p : Pair.System}
  {s₁ : Server.World} {rest : List HAct} {t : Server.Thread} {k : ConnId} {q : Ptr} {b : Act}
  {ch : Choice} {r : Result}

/-- What a session does to its surroundings in the broker. -/
theorem conns_actOn (h : Does (w.broker.objs q).s b ch r) :
    (∀ k m, .frame k m ∉ r.eff) ∧ (∀ k, .register k ∉ r.eff) ∧
      (w.broker.actOn q r).conns = w.broker.conns ∨
    (∃ k m, r.eff = [.frame k m] ∧
      (w.broker.actOn q r).conns = (w.broker.write k m.frame).conns) ∨
    ∃ k, r.eff = [.register k] ∧ ∀ tc, w.broker.conns k = some tc →
      (w.broker.actOn q r).conns = Function.update w.broker.conns k (some (tc.register q)) := by
  obtain ⟨he, hw⟩ | ⟨e, he, hw⟩ := actOn_eq h <;> rw [hw]
  · exact .inl ⟨by simp [he], by simp [he], rfl⟩
  · cases e with
    | frame k m =>
      refine .inr (.inl ⟨k, m, he, ?_⟩)
      simp only [World.effect, World.write]
      have hconns : (w.broker.setObj q ((w.broker.objs q).after r)).conns = w.broker.conns := rfl
      rw [hconns]
      split
      · split_ifs <;> rfl
      · rfl
    | register k =>
      refine .inr (.inr ⟨k, he, fun tc htc => ?_⟩)
      have htc : (w.broker.setObj q ((w.broker.objs q).after r)).conns k = some tc := htc
      simp only [World.effect, htc]
      rfl
    | wake =>
      refine .inl ⟨by simp [he], by simp [he], ?_⟩
      exact (resume_frame ..).1
    | removeSession | upstream | closeWrite => exact .inl ⟨by simp [he], by simp [he], rfl⟩

theorem conn_of_effect (hI : Sound cfg w) (ha : .act q b ∈ w.broker.threads t)
    (h : Does (w.broker.objs q).s b ch r) {e : Effect} (he : e ∈ r.eff)
    (hk : effectConn e = some k) : ∃ tc, w.broker.conns k = some tc := by
  rcases (conns_of_does h).2.2.2.2 e he k hk with hc | hc
  · exact conn_of_actor (hI.owned.bound q k hc)
  · obtain ⟨A, hA⟩ := of_mem hI.owned ha
    exact conn_of_actor (hA.2 k hc)

theorem sid_of_effect {m : Msg} (hI : Sound cfg w) (ha : .act q b ∈ w.broker.threads t)
    (h : Does (w.broker.objs q).s b ch r) (hm : .frame k m ∈ r.eff) :
    m.sid = q.key.sessionID := by
  have hname := (hI.owned.named q).2
  rw [← hname]
  refine (sid_of_does h fun m' hm' => ?_).2 k m hm
  rw [hname]
  exact hI.solo.sids t q b ha m' hm'

theorem key_of_does (hI : Sound cfg w) (h : Does (w.broker.objs q).s b ch r) :
    (⟨r.s.actorID, r.s.sessionID⟩ : Server.Key) = q.key := by
  obtain ⟨hA, hS, -⟩ := conns_of_does h
  rw [hA, hS, (hI.owned.named q).1, (hI.owned.named q).2]

theorem line_register {tc : Conn} (hk : w.broker.conns k = some tc)
    (hs : s₁.conns = Function.update w.broker.conns k (some (tc.register q))) :
    line cfg sid (w.withBroker s₁ w.up) k = { line cfg sid w k with
      registered := ((tc.register q).sessions.filter (·.key = cfg.key sid)).map (·.gen) } := by
  have hk₁ : s₁.conns k = some (tc.register q) := by rw [hs, Function.update_self]
  rw [line_setConn _ hk hk₁ rfl]
  simp [line, World.closed, hk, Conn.register]

/-! ## Another session -/

theorem sid_ne_of_key (hI : Sound cfg w) (hgen : q.gen < w.broker.made q.key)
    (hq : q.key ≠ cfg.key sid) : q.key.sessionID ≠ sid := by
  have hA : q.key.actorID = cfg.actorID := by
    by_contra hne
    rw [hI.solo.made q.key hne] at hgen
    cases hgen
  intro hs
  exact hq (by ext1 <;> simp [Config.key, hA, hs])

theorem filter_register_other {tc : Conn} (hq : q.key ≠ cfg.key sid)
    (hsid : q.key.sessionID ≠ sid) : (tc.register q).sessions.filter (·.key = cfg.key sid) =
      tc.sessions.filter (·.key = cfg.key sid) := by
  have hlast : [q].filter (·.key = cfg.key sid) = [] := by simp [hq]
  rw [Conn.register, List.filter_append, List.filter_filter, hlast, List.append_nil]
  refine List.filter_congr fun x _ => ?_
  by_cases hx : x.key = cfg.key sid
  · simp [hx, Config.key, Ne.symm hsid]
  · simp [hx]

theorem line_act_other (hI : Sound cfg w) (ha : .act q b ∈ w.broker.threads t)
    (hq : q.key ≠ cfg.key sid) (hsid : q.key.sessionID ≠ sid)
    (h : Does (w.broker.objs q).s b ch r) (hs : s₁.conns = (w.broker.actOn q r).conns)
    (j : ConnId) : line cfg sid (w.withBroker s₁ w.up) j = line cfg sid w j := by
  rcases conns_actOn h with ⟨-, -, hc⟩ | ⟨k, m, he, hc⟩ | ⟨k, he, hc⟩
  · exact line_same rfl (congrFun (hs.trans hc) j)
  · have hmem : Effect.frame k m ∈ r.eff := by simp [he]
    obtain ⟨tc, htc⟩ := conn_of_effect hI ha h hmem rfl
    refine line_write_other htc (hs.trans hc) (Msg.own_frame_of_ne ?_) j
    rwa [sid_of_effect hI ha h hmem]
  · obtain ⟨tc, htc⟩ := conn_of_effect hI ha h (show Effect.register k ∈ r.eff by simp [he]) rfl
    have hs := hs.trans (hc tc htc)
    by_cases hjk : j = k
    · subst hjk
      rw [line_register htc hs, filter_register_other hq hsid]
      simp [line, registered, htc]
    · exact line_same rfl (by rw [hs, Function.update_of_ne hjk])

theorem Follows.brokerOther (hI : Sound cfg w) (hM : Matches cfg sid target w p)
    (ht : w.broker.threads t = .act q b :: rest) (hq : q.key ≠ cfg.key sid)
    (hr : exec (w.broker.objs q).s b ch = some r) :
    Follows cfg sid target p (w.withBroker
      ((w.broker.actOn q r).setThread t (r.push.map (.act q) ++ rest)) w.up) := by
  have ha : HAct.act q b ∈ w.broker.threads t := by simp [ht]
  have h := exec_does hr
  obtain ⟨hmade, hobjs, -, hsessions⟩ := actOn_frame h
  have hsid := sid_ne_of_key hI (hI.keyed.named t _ ha q List.mem_cons_self) hq
  have hacts : (r.push.map (HAct.act q)).flatMap (brokerActs (cfg.key sid)) = [] := by
    simp [List.flatMap_eq_nil_iff, brokerActs, hq]
  refine Follows.brokerQuiet hI hM ht (.act q b ch r h) (.inr ?_) (by simp) (by rw [hmade]) ?_ ?_
    fun j _ => line_act_other hI ha hq hsid h rfl j
  · rw [hacts]
    simp [brokerActs, hq]
  · rw [hsessions, key_of_does hI h]
    split_ifs
    · exact Function.update_of_ne (Ne.symm hq) ..
    · rfl
  · intro o
    rw [hobjs]
    refine Function.update_of_ne ?_ ..
    rintro rfl
    exact hq rfl

/-! ## The session -/

section Session
variable {o : ℕ}

theorem sameObjs_act {core : Pair.Core} (hI : Sound cfg w)
    (hF : SameObjs (far (cfg.key sid) w.broker) core) (ho : o < w.broker.made (cfg.key sid))
    (h : Does (w.broker.objs ⟨cfg.key sid, o⟩).s b ch r) :
    SameObjs (far (cfg.key sid) (w.broker.actOn ⟨cfg.key sid, o⟩ r)) (core.objAct o b ch r) := by
  obtain ⟨hmade, hobjs, -, hsessions⟩ := actOn_frame h
  have haff := core.objAct_affects o b ch r
  have hobj := hF.objs o ho
  simp only [far, Prod.mk.injEq] at hobj
  refine ⟨?_, ?_, fun i hi => ?_⟩
  · rw [haff.created]
    exact hF.created.trans (congrFun hmade _).symm
  · rw [haff.sessions]
    show _ = (w.broker.actOn ⟨cfg.key sid, o⟩ r).sessions (cfg.key sid)
    rw [hsessions, key_of_does hI h]
    split_ifs
    · rw [Function.update_self]
    · exact hF.sessions
  · have hi : i < w.broker.made (cfg.key sid) := hi.trans_eq (congrFun hmade _)
    rw [Pair.Core.objs_objAct]
    simp only [far, hobjs]
    by_cases hio : i = o
    · subst hio
      simp [Pair.Obj.after, Obj.after, hobj.2]
    · rw [Function.update_of_ne hio, Function.update_of_ne (by simpa using hio)]
      exact hF.objs i hi

theorem filter_register_own (tc : Conn) :
    (tc.register ⟨cfg.key sid, o⟩).sessions.filter (·.key = cfg.key sid) = [⟨cfg.key sid, o⟩] := by
  rw [Conn.register, List.filter_append, List.filter_filter]
  simpa using fun x _ hx => congrArg Server.Key.sessionID hx

/-- A session writes its frames and registers the same way in both models. -/
theorem lines_act (hI : Sound cfg w) (hM : Matches cfg sid target w p)
    (ha : .act ⟨cfg.key sid, o⟩ b ∈ w.broker.threads t)
    (h : Does (w.broker.objs ⟨cfg.key sid, o⟩).s b ch r)
    (hsmall : ∀ k m, .frame k m ∈ r.eff → m.small = true)
    (hs : s₁.conns = (w.broker.actOn ⟨cfg.key sid, o⟩ r).conns) (j : ConnId)
    (hj : j < p.core.conns) :
    lineOf ((p.core.objAct o b ch r).links j) = line cfg sid (w.withBroker s₁ w.up) j := by
  rcases conns_actOn h with ⟨hframe, hreg, hc⟩ | ⟨k, m, he, hc⟩ | ⟨k, he, hc⟩
  · rw [links_objAct h hframe hreg]
    exact hM.lines_of_conns (hs.trans hc) j hj
  · have hmem : Effect.frame k m ∈ r.eff := by simp [he]
    obtain ⟨tc, htc⟩ := conn_of_effect hI ha h hmem rfl
    rw [links_frame he]
    refine lines_toSidecar hM htc (hs.trans hc) (Msg.own_frame ?_ (hsmall k m hmem)) j hj
    exact sid_of_effect hI ha h hmem
  · obtain ⟨tc, htc⟩ := conn_of_effect hI ha h (show Effect.register k ∈ r.eff by simp [he]) rfl
    have hs := hs.trans (hc tc htc)
    rw [links_register he]
    by_cases hjk : j = k
    · subst hjk
      rw [line_register htc hs, filter_register_own, ← hM.lines j hj, Function.update_self]
      rfl
    · rw [Function.update_of_ne hjk, hM.lines j hj]
      exact (line_same rfl (by rw [hs, Function.update_of_ne hjk])).symm

theorem Follows.brokerSess (hI : Sound cfg w) (hM : Matches cfg sid target w p)
    (ht : w.broker.threads t = .act q b :: rest)
    (hpub : ∀ k, t = .loop k → k < published w.sidecar) (hq : q.key = cfg.key sid)
    (hr : exec (w.broker.objs q).s b ch = some r)
    (hsmall : ∀ k m, .frame k m ∈ r.eff → m.small = true) :
    Follows cfg sid target p (w.withBroker
      ((w.broker.actOn q r).setThread t (r.push.map (.act q) ++ rest)) w.up) := by
  have ha : HAct.act q b ∈ w.broker.threads t := by simp [ht]
  have h := exec_does hr
  obtain ⟨hmade, hobjs, -⟩ := actOn_frame h
  have hgen := hI.keyed.named t _ ha q List.mem_cons_self
  obtain ⟨key, o⟩ := q
  subst hq
  obtain ⟨order, hF⟩ := hM.far
  have hobj : (p.core.objs o).s = (w.broker.objs ⟨cfg.key sid, o⟩).s :=
    congrArg Prod.fst (hF.objs o hgen)
  have haff := p.core.objAct_affects o b ch r
  have hbexec : Pair.bexec (cfg.pair sid target) p.core (.act o b) ch =
      some (p.core.objAct o b ch r, r.push.map (.act o), []) := by
    simp [Pair.bexec, hobj, hr]
  have hacts : (r.push.map (HAct.act ⟨cfg.key sid, o⟩)).flatMap (brokerActs (cfg.key sid)) =
      r.push.map (.act o) := by
    induction r.push with
    | nil => rfl
    | cons x l ih => simp [brokerActs, ih]
  refine Follows.brokerAct ch hI hM ht hpub (.act _ b ch r h) (by simp [brokerActs]) hbexec ?_
    (by simp) ?_ (sameObjs_act hI hF.toSameObjs hgen h) (by rw [hmade]) (fun i hi => ?_) ?_
    (lines_act hI hM ha h hsmall rfl)
  · intro l hl
    rw [← hl, hacts, flatMap_unfoldAll (by simp)]
    rfl
  · rw [hacts]
    simp
  · rw [hobjs]
    by_cases hio : i = o
    · subst hio
      simp [Obj.after]
    · rw [Function.update_of_ne (by simpa using hio)]
  · simp [Side.withCore, sideOf, haff.cs, haff.listed, haff.agent, haff.conns, conn_objAct h]

end Session

end Acts

end SubstratePoc.Deployment
