import SubstratePoc.Deployment.Invariant

namespace SubstratePoc.Deployment
open Lib Tunnel Broker Sidecar Client

section Parts
variable {cfg : Config} {sid : UInt64} {target A : Bytes} {c c₁ : Client.World} {a : CAct}
  {push rest : List CAct} {t : Client.Thread} {k : ConnId}

/-! ## The sidecar's half -/

theorem published_le_conns (hI : Tidy A c) : published c ≤ c.conns := by
  unfold published publishedOf
  split
  · rename_i k rest hk
    exact (Nat.le_succ k).trans (hI.newest k (.inl (by simp [hk]))).le
  · rename_i k rest hk
    exact (Nat.le_succ k).trans (hI.newest k (.inr (by simp [hk]))).le
  · exact le_rfl

theorem links_setThread (c : Client.World) (t : Client.Thread) (l : List CAct) :
    (c.setThread t l).links = c.links := rfl

theorem threads_self (c : Client.World) (t : Client.Thread) (l : List CAct) :
    (c.setThread t l).threads t = l := by
  simp [Client.World.setThread]

theorem threads_other (h : CDoes c a c₁ push) {u : Client.Thread} (hu : u ≠ t)
    (hping : ∀ k, u ≠ .ping k) (l : List CAct) : (c₁.setThread t l).threads u = c.threads u := by
  simp only [Client.World.setThread, Function.update_of_ne hu]
  obtain heq | ⟨k, -, heq⟩ := h.threads <;> rw [heq]
  exact Function.update_of_ne (hping k) ..

/-- What a goroutine has to do after an action that leaves the same to do. -/
theorem acts_run {β : Type*} {f : CAct → List β} (h : CDoes c a c₁ push)
    (ht : c.threads t = a :: rest) (hf : push.flatMap f = f a) {u : Client.Thread}
    (hu : ∀ k, u ≠ .ping k) :
    ((c₁.setThread t (push ++ rest)).threads u).flatMap f = (c.threads u).flatMap f := by
  rcases Client.threads_run h t rest u with ⟨rfl, heq⟩ | ⟨-, heq⟩ | ⟨k, -, rfl, -⟩
  · rw [heq, ht, List.flatMap_append, hf, List.flatMap_cons]
  · rw [heq]
  · exact absurd rfl (hu k)

theorem side_silent (h : CDoes c a c₁ push) (ht : c.threads t = a :: rest)
    (hacts : (∃ k, t = .ping k) ∨ push.flatMap (sidecarActs sid) = sidecarActs sid a)
    (hobj : c₁.objs sid = c.objs sid) (hconn : c₁.conn = c.conn)
    (hpub : published (c₁.setThread t (push ++ rest)) = published c) :
    side cfg sid target (c₁.setThread t (push ++ rest)) = side cfg sid target c := by
  have hids : (c₁.setThread t (push ++ rest)).ids = c.ids := h.ids
  have hobj : (c₁.setThread t (push ++ rest)).objs sid = c.objs sid := hobj
  have hconn : (c₁.setThread t (push ++ rest)).conn = c.conn := hconn
  have hsame : ∀ u : Client.Thread, (∀ k, u ≠ .ping k) →
      ((c₁.setThread t (push ++ rest)).threads u).flatMap (sidecarActs sid) =
        (c.threads u).flatMap (sidecarActs sid) := by
    intro u hu
    rcases hacts with ⟨k, rfl⟩ | hacts
    · rw [threads_other h (hu k) hu]
    · exact acts_run h ht hacts hu
  unfold side
  rw [hids, hobj, hconn, hpub, hsame .tunnel (by simp), hsame (.proxy sid) (by simp)]

theorem side_tunnel (cfg : Config) (target : Bytes) (h : CDoes c a c₁ push)
    (hobj : c₁.objs sid = c.objs sid) :
    side cfg sid target (c₁.setThread .tunnel (push ++ rest)) =
      { side cfg sid target c with
        conn := c₁.conn
        conns := published (c₁.setThread .tunnel (push ++ rest))
        tunnel := push.flatMap (sidecarActs sid) ++ rest.flatMap (sidecarActs sid) } := by
  have hids : (c₁.setThread .tunnel (push ++ rest)).ids = c.ids := h.ids
  have hobj : (c₁.setThread .tunnel (push ++ rest)).objs sid = c.objs sid := hobj
  unfold side
  rw [hids, hobj, threads_self, threads_other h (u := .proxy sid) (by simp) (by simp),
    List.flatMap_append]
  rfl

theorem side_sess {b : SAct} (hI : Opened c) (htidy : Tidy A c)
    (ht : c.threads t = .sess sid b :: rest)
    (h : CDoes c (.sess sid b) c₁ push)
    (hpub : published (c₁.setThread t (push ++ rest)) = published c) :
    side cfg sid target (c₁.setThread t (push ++ rest)) =
      (⟨(c₁.objs sid).cs, (c₁.objs sid).listed, (c₁.objs sid).agent, c₁.conn, published c,
        (side cfg sid target c).tunnel, (side cfg sid target c).proxy⟩ : Side).setAt sid t
        (push.flatMap (sidecarActs sid) ++ rest.flatMap (sidecarActs sid)) := by
  have hmem : CAct.sess sid b ∈ c.threads t := by simp [ht]
  have hsid : sid ∈ c.ids := hI.about t _ hmem sid rfl
  have hids : (c₁.setThread t (push ++ rest)).ids = c.ids := h.ids
  have hhome := htidy.home t _ hmem
  cases t with
  | tunnel =>
    unfold side
    rw [hids, hpub, threads_self, threads_other h (u := .proxy sid) (by simp) (by simp),
      List.flatMap_append]
    simp only [hsid, if_true, Side.setAt]
    rfl
  | proxy s =>
    obtain ⟨b', hb'⟩ := hhome
    cases hb'
    unfold side
    rw [hids, hpub, threads_self, threads_other h (u := .tunnel) (by simp) (by simp),
      List.flatMap_append]
    simp only [hsid, if_true, Side.setAt]
    rfl
  | ping k => simp [Home] at hhome

end Parts

/-! ## The connections -/

section Lines
variable {cfg : Config} {sid : UInt64} {w : World} {c₁ : Client.World}
  {down : ConnId → List Frame} {a : CAct} {push rest : List CAct} {t : Client.Thread} {k : ConnId}

theorem closed_keep {c : Client.World} (h : CDoes c a c₁ push) (hk : k < c.conns)
    (ha : a ≠ .closeConn k) : (c₁.links k).closed = (c.links k).closed := by
  have hset : ∀ (j : ConnId) (l : Client.Link), l.closed = (c.links j).closed ∨ j ≠ k →
      ((c.setLink j l).links k).closed = (c.links k).closed := by
    intro j l hl
    show (Function.update c.links j l k).closed = (c.links k).closed
    obtain ⟨rfl, heq⟩ | ⟨-, heq⟩ := update_cases c.links j l k <;> rw [heq]
    exact hl.resolve_right (· rfl)
  have hwrites : ∀ {j : ConnId} {f : Frame}, Client.Writes c j f c₁ →
      (c₁.links k).closed = (c.links k).closed := by
    intro j f hw
    cases hw <;> exact hset j _ (.inl rfl)
  cases h with
  | dial => exact congrArg Client.Link.closed (Function.update_of_ne hk.ne ..)
  | hello j id w' hw => exact hwrites (Client.write_writes hw)
  | pong j nonce w' hw | ping j nonce w' hw | write sid j m w' hw => exact hwrites hw
  | closeConn j => exact hset j _ (.inr fun hj => ha (hj ▸ rfl))
  | cancelPing j => exact hset j _ (.inl rfl)
  | _ => rfl

/-- What the sidecar has not looked at is the first thing that `Run` has to do. -/
theorem unseen_rest {A : Bytes} {c : Client.World} (hI : Tidy A c)
    (ht : c.threads .tunnel = a :: rest) (k : ConnId) : rest.flatMap (unseen k) = [] := by
  rw [List.flatMap_eq_nil_iff]
  intro x hx
  have := hI.heads x (by rw [ht]; exact hx)
  cases x <;> first | rfl | cases this

theorem unseen_of_home (h : Home t a) (ht : t ≠ .tunnel) (k : ConnId) : unseen k a = [] := by
  cases t with
  | tunnel => exact absurd rfl ht
  | ping j => obtain rfl | ⟨nonce, rfl | rfl⟩ := h <;> rfl
  | proxy s =>
    obtain ⟨b, rfl⟩ := h
    rfl

/-- The frames that the sidecar has not looked at, after an action of one of its goroutines. -/
theorem unseen_run {A : Bytes} {c : Client.World} (hI : Tidy A c) (h : CDoes c a c₁ push)
    (ht : c.threads t = a :: rest) (k : ConnId) :
    (t = .tunnel ∧ (c.threads .tunnel).flatMap (unseen k) = unseen k a ∧
      ((c₁.setThread t (push ++ rest)).threads .tunnel).flatMap (unseen k) =
        push.flatMap (unseen k)) ∨
    (unseen k a = [] ∧ push.flatMap (unseen k) = [] ∧
      (c₁.setThread t (push ++ rest)).threads .tunnel = c.threads .tunnel) := by
  by_cases htun : t = .tunnel
  · subst htun
    have hrest := unseen_rest hI ht k
    refine .inl ⟨rfl, ?_, ?_⟩
    · rw [ht, List.flatMap_cons, hrest, List.append_nil]
    · rw [threads_self, List.flatMap_append, hrest, List.append_nil]
  · have hhome := hI.home t a (by simp [ht])
    refine .inr ⟨unseen_of_home hhome htun k, ?_, ?_⟩
    · rw [List.flatMap_eq_nil_iff]
      exact fun x hx => unseen_of_home (home_push h hhome x hx) htun k
    · exact threads_other h (Ne.symm htun) (by simp) _

/-- What the broker will read of the session after an action of the sidecar. -/
theorem up_run (sid : UInt64) (h : CDoes w.sidecar a c₁ push) (hk : k < w.sidecar.conns)
    (hputs : ∀ f, a.Puts k f → f.own sid = none) :
    (w.carried k ((c₁.links k).sent.drop (w.sidecar.links k).sent.length)).filterMap
      (Frame.own sid) = [] := by
  have hlink := h.links k
  have hsent : ∀ f ∈ (c₁.links k).sent.drop (w.sidecar.links k).sent.length,
      f.own sid = none := by
    generalize hl₁ : c₁.links k = l₁ at hlink ⊢
    cases hlink with
    | same | flagged | lost => simp
    | made ha hkc => exact absurd hkc hk.ne
    | sent f hf => simpa using hputs f hf
  unfold World.carried
  split_ifs
  · rfl
  · exact List.filterMap_eq_nil_iff.mpr hsent

theorem line_of_up (hI : Sound cfg w) (h : CDoes w.sidecar a c₁ push)
    (ht : w.sidecar.threads t = a :: rest) (hk : k < w.sidecar.conns) (hclose : a ≠ .closeConn k)
    (hup : (w.carried k ((c₁.links k).sent.drop (w.sidecar.links k).sent.length)).filterMap
      (Frame.own sid) = [])
    (hdown : (push.flatMap (unseen k) ++ down k).filterMap (Frame.own sid) =
      (unseen k a ++ w.down k).filterMap (Frame.own sid)) :
    line cfg sid (w.withSidecar (c₁.setThread t (push ++ rest)) down) k = line cfg sid w k := by
  have hclosed := closed_keep h hk hclose
  have hseen : ((((c₁.setThread t (push ++ rest)).threads .tunnel).flatMap (unseen k) ++
      down k).filterMap (Frame.own sid)) =
      ((w.sidecar.threads .tunnel).flatMap (unseen k) ++ w.down k).filterMap (Frame.own sid) := by
    rcases unseen_run hI.tidy h ht k with ⟨-, hold, hnew⟩ | ⟨hold, hnew, hsame⟩
    · rw [hold, hnew, hdown]
    · rw [hold, hnew, List.nil_append, List.nil_append] at hdown
      rw [hsame, List.filterMap_append, List.filterMap_append, hdown]
  unfold line
  simp only [World.withSidecar, World.closed, links_setThread, List.filterMap_append, hup,
    List.append_nil, hclosed] at hseen ⊢
  rw [hseen]

theorem line_keep (hI : Sound cfg w) (h : CDoes w.sidecar a c₁ push)
    (ht : w.sidecar.threads t = a :: rest) (hk : k < w.sidecar.conns)
    (hputs : ∀ f, a.Puts k f → f.own sid = none) (hclose : a ≠ .closeConn k)
    (hdown : (push.flatMap (unseen k) ++ down k).filterMap (Frame.own sid) =
      (unseen k a ++ w.down k).filterMap (Frame.own sid)) :
    line cfg sid (w.withSidecar (c₁.setThread t (push ++ rest)) down) k = line cfg sid w k :=
  line_of_up hI h ht hk hclose (up_run sid h hk hputs) hdown

end Lines

/-! ## Steps -/

section Steps
variable {cfg : Config} {sid : UInt64} {target : Bytes} {w w' : World} {p p' : Pair.System}
  {c c₁ : Client.World} {down : ConnId → List Frame} {a : CAct} {push rest : List CAct}
  {t : Client.Thread} {k : ConnId}

theorem Matches.conns (hM : Matches cfg sid target w p) : p.core.conns = published w.sidecar :=
  congrArg Side.conns hM.side

theorem Matches.conn (hM : Matches cfg sid target w p) : p.core.conn = w.sidecar.conn :=
  congrArg Side.conn hM.side

theorem Matches.listed (hM : Matches cfg sid target w p) :
    p.core.listed = (w.sidecar.objs sid).listed := congrArg Side.listed hM.side

theorem Matches.cs (hM : Matches cfg sid target w p) (hsid : sid ∈ w.sidecar.ids) :
    p.core.cs = (w.sidecar.objs sid).cs := (congrArg Side.cs hM.side).trans (if_pos hsid)

theorem Matches.agent (hM : Matches cfg sid target w p) (hsid : sid ∈ w.sidecar.ids) :
    p.core.agent = (w.sidecar.objs sid).agent := (congrArg Side.agent hM.side).trans (if_pos hsid)

theorem Matches.dialed (hM : Matches cfg sid target w p) (hI : Sound cfg w) (hk : k < p.core.conns) :
    k < w.sidecar.conns := (hM.conns ▸ hk).trans_le (published_le_conns hI.tidy)

theorem published_keep (hI : Sound cfg w) (ht : w.sidecar.threads t = a :: rest)
    (h : CDoes w.sidecar a c₁ push) (hp : ∀ k, a ≠ .publish k) (hh : ∀ k, a ≠ .hello k) :
    published (c₁.setThread t (push ++ rest)) = published w.sidecar :=
  (published_run hI.tidy hI.steered ht h).2.2 hp fun k hk => absurd hk (hh k)

theorem Matches.of_sidecar (hM : Matches cfg sid target w p)
    (hside : sideOf p' = Deployment.side cfg sid target c) (hts : p'.threads = p.threads)
    (hcreated : p'.core.created = p.core.created) (hsessions : p'.core.sessions = p.core.sessions)
    (hobjs : p'.core.objs = p.core.objs) (hconns : p'.core.conns = p.core.conns)
    (hlines : ∀ k < p.core.conns,
      lineOf (p'.core.links k) = line cfg sid (w.withSidecar c down) k) :
    Matches cfg sid target (w.withSidecar c down) p' := by
  obtain ⟨order, hF⟩ := hM.far
  refine ⟨hside, fun k hk => hlines k (hconns ▸ hk), order, ?_⟩
  rw [hts]
  refine hF.congr (fun _ _ => rfl) ⟨?_, ?_, ?_⟩ hconns le_rfl fun _ _ => le_rfl
  · rw [hcreated]
    exact hF.created
  · rw [hsessions]
    exact hF.sessions
  · rw [hobjs]
    exact hF.objs

/-- The session does not see that the sidecar has moved. -/
theorem Matches.silent (hM : Matches cfg sid target w p) (hI : Sound cfg w)
    (h : CDoes w.sidecar a c₁ push) (ht : w.sidecar.threads t = a :: rest)
    (hacts : (∃ k, t = .ping k) ∨ push.flatMap (sidecarActs sid) = sidecarActs sid a)
    (hobj : c₁.objs sid = w.sidecar.objs sid) (hconn : c₁.conn = w.sidecar.conn)
    (hpub : published (c₁.setThread t (push ++ rest)) = published w.sidecar)
    (hputs : ∀ k f, a.Puts k f → f.own sid = none) (hclose : ∀ k, a ≠ .closeConn k)
    (hdown : ∀ k, (push.flatMap (unseen k) ++ down k).filterMap (Frame.own sid) =
      (unseen k a ++ w.down k).filterMap (Frame.own sid)) :
    Matches cfg sid target (w.withSidecar (c₁.setThread t (push ++ rest)) down) p :=
  hM.of_sidecar (hM.side.trans (side_silent h ht hacts hobj hconn hpub).symm) rfl rfl rfl rfl rfl
    fun k hk => (hM.lines k hk).trans
      (line_keep hI h ht (hM.dialed hI hk) (hputs k) (hclose k) (hdown k)).symm

/-! ### Actions of the session -/

theorem unfold_sessionAct (b : SAct) : unfold (sessionAct b) = [sessionAct b] := by
  cases b <;> rfl

theorem flatMap_unfold_sessionAct (l : List SAct) :
    (l.map sessionAct).flatMap unfold = l.map sessionAct := by
  induction l with
  | nil => rfl
  | cons b l ih => rw [List.map_cons, List.flatMap_cons, ih, unfold_sessionAct, List.singleton_append]

theorem flatMap_sess (l : List SAct) :
    (l.map (CAct.sess sid)).flatMap (sidecarActs sid) = l.map sessionAct := by
  induction l with
  | nil => rfl
  | cons b l ih => simp [sidecarActs, ih]

theorem side_at {b : SAct} (target : Bytes) (hI : Sound cfg w)
    (ht : w.sidecar.threads t = .sess sid b :: rest) :
    (side cfg sid target w.sidecar).at sid t = sessionAct b :: rest.flatMap (sidecarActs sid) := by
  have hmem : CAct.sess sid b ∈ w.sidecar.threads t := by simp [ht]
  have hsid : sid ∈ w.sidecar.ids := hI.opened.about t _ hmem sid rfl
  have hhome := hI.tidy.home t _ hmem
  cases t with
  | tunnel => simp [Side.at, side, ht, sidecarActs]
  | proxy s =>
    obtain ⟨b', hb'⟩ := hhome
    cases hb'
    simp [Side.at, side, ht, sidecarActs, hsid]
  | ping k => simp [Home] at hhome

theorem Follows.own {b : SAct} (push : List SAct) (ch : Choice) (ok : Bool)
    (links : ConnId → Pair.Link) (hI : Sound cfg w) (hM : Matches cfg sid target w p)
    (ht : w.sidecar.threads t = .sess sid b :: rest)
    (h : CDoes w.sidecar (.sess sid b) c₁ (push.map (.sess sid))) (hconn : c₁.conn = w.sidecar.conn)
    (hex : Pair.sexec p.core (sessionAct b) ch =
      some ({ showing p.core (c₁.objs sid) ok with links }, push.map sessionAct, []))
    (hlines : ∀ k < p.core.conns, lineOf (links k) = line cfg sid
      (w.withSidecar (c₁.setThread t (push.map (.sess sid) ++ rest)) w.down) k) :
    Follows cfg sid target p
      (w.withSidecar (c₁.setThread t (push.map (.sess sid) ++ rest)) w.down) := by
  have hat := side_at target hI ht
  rw [← hM.side] at hat
  obtain ⟨e, p', l, hl, hstep, hcore, hts, hS⟩ := side_step (cfg.pair sid target) hat hex
    fun _ _ => ⟨unfold_sessionAct b, flatMap_unfold_sessionAct push⟩
  rw [unfold_sessionAct, List.tail_cons, List.nil_append] at hl
  subst hl
  refine Follows.step hstep (hM.of_sidecar ?_ hts ?_ ?_ ?_ ?_ ?_)
  · rw [hS, side_sess hI.opened hI.tidy ht h (published_keep hI ht h (by simp) (by simp)), flatMap_sess,
      flatMap_unfold_sessionAct, hM.side]
    simp [Side.withCore, showing, hconn, hM.conn, hM.conns]
  all_goals rw [hcore]
  · rfl
  · rfl
  · rfl
  · rfl
  · exact hlines

theorem Follows.sess {b : SAct} {ch : Choice} {ob : Client.Obj} {push : List SAct}
    (hI : Sound cfg w) (hM : Matches cfg sid target w p)
    (ht : w.sidecar.threads t = .sess sid b :: rest)
    (hb : sexec w.sidecar.conn (w.sidecar.objs sid) b ch = some (ob, push)) :
    Follows cfg sid target p (w.withSidecar
      ((w.sidecar.setObj sid ob).setThread t (push.map (.sess sid) ++ rest)) w.down) := by
  have hsid : sid ∈ w.sidecar.ids := hI.opened.about t (.sess sid b) (by simp [ht]) sid rfl
  have h : CDoes w.sidecar (.sess sid b) (w.sidecar.setObj sid ob) (push.map (.sess sid)) :=
    .sess sid b ob push (sexec_does hb)
  have hob : (w.sidecar.setObj sid ob).objs sid = ob := by simp
  rw [← hM.conn] at hb
  obtain ⟨ok, hex⟩ := sexec_own (hM.cs hsid) hM.listed (hM.agent hsid) hb
  refine Follows.own push ch ok p.core.links hI hM ht h rfl (by rw [hob]; exact hex) fun k hk => ?_
  rw [line_keep hI h ht (hM.dialed hI hk)]
  · exact hM.lines k hk
  · intro f hf
    cases b <;> cases hf
    cases hb
  · simp
  · simp [unseen]

theorem Truthful.sid_eq {ob : Client.Obj} {m : Msg} (h : Truthful sid ob m) : m.sid = sid := by
  cases m <;> first | exact h.1 | exact h.elim

theorem line_sent {f : Frame} {b : SAct} (ht : w.sidecar.threads t = .sess sid b :: rest) :
    line cfg sid (w.withSidecar ((w.sidecar.setLink k { w.sidecar.links k with
      sent := (w.sidecar.links k).sent ++ [f] }).setThread t rest) w.down) k =
      { line cfg sid w k with
        up := (line cfg sid w k).up ++ (w.carried k [f]).filterMap (Frame.own sid) } := by
  have hseen : (Function.update w.sidecar.threads t rest .tunnel).flatMap (unseen k) =
      (w.sidecar.threads .tunnel).flatMap (unseen k) := by
    obtain ⟨rfl, heq⟩ | ⟨-, heq⟩ := update_cases w.sidecar.threads t rest .tunnel <;> rw [heq]
    rw [ht]
    rfl
  unfold line
  simp [World.withSidecar, World.closed, hseen, Client.World.setThread, Client.World.setLink]

theorem toBroker_eq (core : Pair.Core) (k : ConnId) (m : Msg) :
    core.toBroker k m = { core with links := (core.toBroker k m).links } := by
  unfold Pair.Core.toBroker
  split_ifs <;> rfl

theorem Follows.write {m : Msg} {ch : Choice} (hI : Sound cfg w) (hM : Matches cfg sid target w p)
    (ht : w.sidecar.threads t = .sess sid (.write k m) :: rest) (hsmall : m.small = true)
    (hw : w.sidecar.write k m.frame ch = some c₁) :
    Follows cfg sid target p (w.withSidecar (c₁.setThread t rest) w.down) := by
  have hmem : CAct.sess sid (.write k m) ∈ w.sidecar.threads t := by simp [ht]
  have hsid : sid ∈ w.sidecar.ids := hI.opened.about t _ hmem sid rfl
  have hm : m.sid = sid := Truthful.sid_eq (hI.truthful.pending t sid _ m hmem rfl)
  have hshow : ∀ links : ConnId → Pair.Link, ({ p.core with links } : Pair.Core) =
      { showing p.core (w.sidecar.objs sid) p.core.agentOK with links } := by
    intro links
    simp [showing, ← hM.cs hsid, ← hM.agent hsid, ← hM.listed]
  have h : CDoes w.sidecar (.sess sid (.write k m)) c₁ [] := .write sid k m c₁ (write_writes hw)
  have hother : ∀ j < p.core.conns, j ≠ k →
      line cfg sid (w.withSidecar (c₁.setThread t ([] ++ rest)) w.down) j = line cfg sid w j := by
    intro j hj hjk
    refine line_keep hI h ht (hM.dialed hI hj) ?_ (by simp) (by simp [unseen])
    rintro f ⟨rfl, -⟩
    exact absurd rfl hjk
  cases ch with
  | ok =>
    simp only [Client.World.write] at hw
    split_ifs at hw with hs
    cases hw
    have hsend : m.Sendable := not_not.mp (not_or.mp hs).1
    refine Follows.own [] .ok p.core.agentOK (p.core.toBroker k m).links hI hM ht h rfl ?_
      fun j hj => ?_
    · simp only [sessionAct, Pair.sexec, if_pos hsend, List.map_nil]
      exact congrArg (fun core => some (core, [], [])) ((toBroker_eq _ k m).trans (hshow _))
    · by_cases hjk : j = k
      · subst hjk
        have hline := hM.lines j hj
        have hclosed : (p.core.links j).closed = w.closed j := congrArg Line.closed hline
        rw [List.map_nil, List.nil_append, line_sent ht, ← hline]
        unfold Pair.Core.toBroker World.carried
        rw [hclosed]
        split_ifs
        · simp
        · simp [Pair.Core.setLink, lineOf, Msg.own_frame hm hsmall]
      · rw [List.map_nil, hother j hj hjk, ← hM.lines j hj]
        unfold Pair.Core.toBroker
        split_ifs
        · rfl
        · simp [Pair.Core.setLink, hjk]
  | fail n text =>
    cases hw
    refine Follows.own [] (.fail n text) p.core.agentOK p.core.links hI hM ht h rfl ?_
      fun j hj => ?_
    · simp only [sessionAct, Pair.sexec, List.map_nil]
      exact congrArg (fun core => some (core, [], [])) (hshow _)
    · rw [List.map_nil]
      by_cases hjk : j = k
      · subst hjk
        rw [line_of_up hI h ht (hM.dialed hI hj) (by simp) _ (by simp [unseen])]
        · exact hM.lines j hj
        · simp [Client.World.setLink, World.carried]
      · rw [hother j hj hjk]
        exact hM.lines j hj
  | read q err => cases hw

/-! ### Actions of `Run` -/

theorem Follows.tunnel {a' : Pair.SAct} {r' push' : List Pair.SAct} {core : Pair.Core} (ch : Choice)
    (hM : Matches cfg sid target w p) (ht : w.sidecar.threads .tunnel = a :: rest)
    (h : CDoes w.sidecar a c₁ push) (hobj : c₁.objs sid = w.sidecar.objs sid)
    (hpub : published (c₁.setThread .tunnel (push ++ rest)) = published w.sidecar)
    (hat : (a :: rest).flatMap (sidecarActs sid) = a' :: r')
    (hex : Pair.sexec p.core a' ch = some (core, push', []))
    (hacts : ∀ l, (unfold a').tail ++ l = r' → push'.flatMap unfold ++ l =
      push.flatMap (sidecarActs sid) ++ rest.flatMap (sidecarActs sid))
    (hcore : ∃ conn links, core = { p.core with conn, links } ∧ conn = c₁.conn)
    (hlines : ∀ k < p.core.conns, lineOf (core.links k) =
      line cfg sid (w.withSidecar (c₁.setThread .tunnel (push ++ rest)) down) k) :
    Follows cfg sid target p (w.withSidecar (c₁.setThread .tunnel (push ++ rest)) down) := by
  have hat' : (sideOf p).at sid .tunnel = a' :: r' := by
    rw [hM.side, ← hat, ← ht]
    rfl
  obtain ⟨e, p', l, hl, hstep, hp, hts, hS⟩ := side_step (cfg.pair sid target) hat' hex
    fun _ h => by cases h
  obtain ⟨conn, links, rfl, rfl⟩ := hcore
  refine Follows.step hstep (hM.of_sidecar ?_ hts ?_ ?_ ?_ ?_ ?_)
  · rw [hS, side_tunnel cfg target h hobj, hacts l hl, hpub, ← hM.side, ← hM.conns]
    rfl
  all_goals rw [hp]
  exact hlines

theorem Follows.readFail (hI : Sound cfg w) (hM : Matches cfg sid target w p)
    (ht : w.sidecar.threads .tunnel = .readFrame k :: rest) :
    Follows cfg sid target p (w.withSidecar (w.sidecar.setThread .tunnel
      ([.disconnect k, .closeConn k, .cancelPing k, .dial] ++ rest)) w.down) := by
  have h := CDoes.readFail (w := w.sidecar) k
  refine Follows.tunnel (.fail 0 []) hM ht h rfl
    (published_keep hI ht h (by simp) (by simp))
    (by simp [sidecarActs]; exact ⟨rfl, rfl⟩) rfl ?_ ⟨_, _, rfl, hM.conn⟩ fun j hj => ?_
  · intro l hl
    rw [← hl]
    simp [unfold, sidecarActs]
  · rw [line_keep hI h ht (hM.dialed hI hj) (by simp [CAct.Puts]) (by simp) (by simp [unseen])]
    exact hM.lines j hj

theorem Follows.disconnect (hI : Sound cfg w) (hM : Matches cfg sid target w p)
    (ht : w.sidecar.threads .tunnel = .disconnect k :: rest) :
    Follows cfg sid target p (w.withSidecar
      ({ w.sidecar with conn := if w.sidecar.conn = some k then none else w.sidecar.conn }.setThread
        .tunnel ([] ++ rest)) w.down) := by
  have h := CDoes.disconnect (w := w.sidecar) k
  refine Follows.tunnel .ok hM ht h rfl
    (published_keep hI ht h (by simp) (by simp))
    (by simp [sidecarActs]; exact ⟨rfl, rfl⟩) rfl ?_ ⟨_, _, rfl, by rw [hM.conn]⟩ fun j hj => ?_
  · intro l hl
    rw [← hl]
    simp [unfold]
  · rw [line_keep hI h ht (hM.dialed hI hj) (by simp [CAct.Puts]) (by simp) (by simp [unseen])]
    exact hM.lines j hj

theorem line_closeConn (hI : Sound cfg w) (ht : w.sidecar.threads t = .closeConn k :: rest)
    (hk : k < w.sidecar.conns) :
    line cfg sid (w.withSidecar ((w.sidecar.closeConn k).setThread t ([] ++ rest)) w.down) k =
      { line cfg sid w k with closed := true } := by
  have h := CDoes.closeConn (w := w.sidecar) k
  have hup := up_run sid h hk (by simp [CAct.Puts])
  have hseen : ((((w.sidecar.closeConn k).setThread t ([] ++ rest)).threads .tunnel).flatMap
      (unseen k)) = (w.sidecar.threads .tunnel).flatMap (unseen k) := by
    rcases unseen_run hI.tidy h ht k with ⟨-, hold, hnew⟩ | ⟨-, -, hsame⟩
    · rw [hold, hnew]
      rfl
    · rw [hsame]
  have hclosed : ((w.sidecar.closeConn k).links k).closed = true := by
    simp [Client.World.closeConn, Client.World.setLink]
  unfold line
  simp only [World.withSidecar, World.closed, links_setThread, List.filterMap_append, hup,
    List.append_nil, hseen, hclosed, Bool.or_true, Bool.true_or]

theorem Follows.closeConn (hI : Sound cfg w) (hM : Matches cfg sid target w p)
    (ht : w.sidecar.threads .tunnel = .closeConn k :: rest) :
    Follows cfg sid target p
      (w.withSidecar ((w.sidecar.closeConn k).setThread .tunnel ([] ++ rest)) w.down) := by
  have h := CDoes.closeConn (w := w.sidecar) k
  refine Follows.tunnel .ok hM ht h rfl
    (published_keep hI ht h (by simp) (by simp))
    (by simp [sidecarActs]; exact ⟨rfl, rfl⟩) rfl ?_ ⟨_, _, rfl, hM.conn⟩ fun j hj => ?_
  · intro l hl
    rw [← hl]
    simp [unfold]
  · by_cases hjk : j = k
    · subst hjk
      rw [line_closeConn hI ht (hM.dialed hI hj), ← hM.lines j hj]
      simp [lineOf]
    · rw [line_keep hI h ht (hM.dialed hI hj) (by simp [CAct.Puts]) (by simpa using Ne.symm hjk)
        (by simp [unseen])]
      simpa [Pair.Core.closeConn, Pair.Core.setLink, hjk] using hM.lines j hj

theorem cexec_handleFrame {ccfg : Client.Config} {f : Frame} {m : Msg} (hf : f.own sid = some m)
    (ch : CChoice) : cexec ccfg c (.handleFrame k f) ch =
      some (c, if (c.objs sid).listed then (dispatch f).map (.sess sid) else []) := by
  unfold Frame.own at hf
  split_ifs at hf with hsid
  subst hsid
  unfold Frame.msg at hf
  simp only [cexec]
  split at hf <;> cases hf <;> simp_all

theorem Follows.handleFrame {f : Frame} {m : Msg} (hI : Sound cfg w)
    (hM : Matches cfg sid target w p) (hf : f.own sid = some m)
    (ht : w.sidecar.threads .tunnel = .handleFrame k f :: rest) {ch : CChoice}
    (hex : cexec cfg.sidecar w.sidecar (.handleFrame k f) ch = some (c₁, push)) :
    Follows cfg sid target p (w.withSidecar (c₁.setThread .tunnel (push ++ rest)) w.down) := by
  have h := cexec_does hex
  obtain rfl := hI.tidy.reads k f rest ht
  obtain ⟨rfl, rfl⟩ := Prod.mk.inj (Option.some.inj (hex.symm.trans (cexec_handleFrame hf ch)))
  have hmsg : f.msg = some m := by
    unfold Frame.own at hf
    split_ifs at hf
    exact hf
  have hk : k < p.core.conns := by
    rw [hM.conns]
    exact (hI.tidy.known .tunnel (.handleFrame k f) (by simp [ht]) k rfl).resolve_left (by simp)
  have hold : (line cfg sid w k).down = m :: (w.down k).filterMap (Frame.own sid) := by
    simp [line, ht, unseen, hf]
  have hdown : (p.core.links k).down = m :: (w.down k).filterMap (Frame.own sid) :=
    (congrArg Line.down (hM.lines k hk)).trans hold
  have hnone : ∀ j, (if (w.sidecar.objs sid).listed = true then
      (dispatch f).map (CAct.sess sid) else []).flatMap (unseen j) = [] := by
    intro j
    split_ifs <;> simp [List.flatMap_eq_nil_iff, unseen]
  have hacts : (if (w.sidecar.objs sid).listed = true then
      (dispatch f).map (CAct.sess sid) else []).flatMap (sidecarActs sid) =
      if p.core.listed = true then Pair.dispatch m else [] := by
    rw [hM.listed]
    split_ifs
    · rw [flatMap_sess, dispatch_own hmsg]
    · rfl
  have hunfold : (if p.core.listed = true then Pair.dispatch m else []).flatMap unfold =
      if p.core.listed = true then Pair.dispatch m else [] := by
    split_ifs
    · rw [← dispatch_own hmsg, flatMap_unfold_sessionAct]
    · rfl
  -- the one-session model reads the frame only now
  have hread : Pair.sexec p.core (.readFrame k) .ok = some
      (p.core.setLink k { p.core.links k with down := (w.down k).filterMap (Frame.own sid) },
        (if p.core.listed then Pair.dispatch m else []) ++ [.readFrame k], []) := by
    simp only [Pair.sexec, hdown]
  refine Follows.tunnel .ok hM ht h rfl
    (published_keep hI ht h (by simp) (by simp))
    (show _ = [.readFrame k] by simp [sidecarActs]) hread ?_ ⟨_, _, rfl, hM.conn⟩ fun j hj => ?_
  · intro l hl
    obtain rfl : l = [] := by simpa [unfold] using hl
    simp [hacts, hunfold, unfold, sidecarActs]
  · by_cases hjk : j = k
    · subst hjk
      have hup := up_run sid h (hM.dialed hI hj) (by simp [CAct.Puts])
      have hl := hM.lines j hj
      simp only [lineOf, line, Line.mk.injEq] at hl
      simp only [Pair.Core.setLink, Function.update_self, lineOf, line, World.withSidecar,
        World.closed, threads_self, links_setThread, List.flatMap_append, hnone,
        List.filterMap_append, hup]
      simp [unseen, hl, World.closed]
    · rw [line_keep hI h ht (hM.dialed hI hj) (by simp [CAct.Puts]) (by simp)
        (by simp [hnone, unseen, Ne.symm hjk])]
      simpa [Pair.Core.setLink, hjk] using hM.lines j hj

end Steps

end SubstratePoc.Deployment
