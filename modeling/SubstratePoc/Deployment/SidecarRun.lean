import SubstratePoc.Deployment.Connecting

namespace SubstratePoc.Deployment
open Lib Tunnel Broker Sidecar Client

section Run
variable {cfg : Config} {sid : UInt64} {target : Bytes} {w w' : World} {p : Pair.System}
  {c c₁ : Client.World} {down : ConnId → List Frame} {a : CAct} {push rest : List CAct}
  {t : Client.Thread} {k : ConnId}

theorem Follows.cut (k : ConnId) (m n : ℕ) (hM : Matches cfg sid target w p)
    (hside : side cfg sid target w'.sidecar = side cfg sid target w.sidecar)
    (hbroker : w'.broker = w.broker)
    (hline : k < p.core.conns → line cfg sid w' k = { line cfg sid w k with
      up := (line cfg sid w k).up.take m
      down := (line cfg sid w k).down.take n
      closed := true })
    (hother : ∀ j < p.core.conns, j ≠ k → line cfg sid w' j = line cfg sid w j) :
    Follows cfg sid target p w' := by
  obtain ⟨order, hF⟩ := hM.far
  refine Follows.step (e := .cut k m n) rfl ⟨hM.side.trans hside.symm, fun j hj => ?_, order, ?_⟩
  · have hj : j < p.core.conns := hj
    by_cases hjk : j = k
    · subst hjk
      rw [hline hj, ← hM.lines j hj]
      simp [Pair.Core.setLink, lineOf]
    · rw [hother j hj hjk, ← hM.lines j hj]
      simp [Pair.Core.setLink, hjk]
  · rw [hbroker]
    exact hF.congr (fun _ _ => rfl) ⟨hF.created, hF.sessions, hF.objs⟩ rfl le_rfl fun _ _ => le_rfl

/-- The session does not see the action, unless a frame of it is written or HELLO fails. -/
def apart (sid : UInt64) : CAct → Bool
  | .sess s _ => s ≠ sid
  | .publish _ | .disconnect _ | .closeConn _ => false
  | _ => true

theorem CDoes.conn_of_apart (h : CDoes c a c₁ push) (ha : apart sid a = true) :
    c₁.conn = c.conn := by
  cases h with
  | publish | disconnect => cases ha
  | hello j id w' hw => cases write_writes hw <;> rfl
  | pong j nonce w' hw | ping j nonce w' hw => cases hw <;> rfl
  | write sid j m w' hw => cases hw <;> rfl
  | _ => rfl

theorem CDoes.objs_of_apart (h : CDoes c a c₁ push) (ha : apart sid a = true) :
    c₁.objs sid = c.objs sid := by
  obtain heq | ⟨s, b, ob, p, rfl, -, -, rfl⟩ := h.objs
  · rw [heq]
  · refine Function.update_of_ne ?_ ..
    rintro rfl
    simp [apart] at ha

theorem tunnel_of_home (h : Home t a) (hc : ∀ k, a ≠ .closeConn k)
    (htick : ∀ k nonce, a ≠ .tick k nonce ∧ a ≠ .ping k nonce) (hs : ∀ s b, a ≠ .sess s b) :
    t = .tunnel := by
  cases t with
  | tunnel => rfl
  | ping k =>
    obtain h | ⟨nonce, h | h⟩ := h
    · exact absurd h (hc k)
    · exact absurd h (htick k nonce).1
    · exact absurd h (htick k nonce).2
  | proxy s =>
    obtain ⟨b, h⟩ := h
    exact absurd h (hs s b)

theorem ping_of_home {nonce : UInt64} (h : Home t a) (ha : a = .tick k nonce ∨ a = .ping k nonce) :
    ∃ j, t = .ping j := by
  cases t with
  | tunnel => exact absurd ha (not_or.mpr (h k nonce))
  | ping j => exact ⟨j, rfl⟩
  | proxy s =>
    obtain ⟨b, rfl⟩ := h
    simp at ha

theorem Follows.silent (hI : Sound cfg w) (hM : Matches cfg sid target w p)
    (ht : w.sidecar.threads t = a :: rest) (h : CDoes w.sidecar a c₁ push)
    (hacts : (∃ k, t = .ping k) ∨ push.flatMap (sidecarActs sid) = sidecarActs sid a)
    (ha : apart sid a = true) (hf : ∀ k, a = .hello k → push ≠ [.closeConn k, .dial])
    (hputs : ∀ k f, a.Puts k f → f.own sid = none)
    (hdown : ∀ k, (push.flatMap (unseen k) ++ down k).filterMap (Frame.own sid) =
      (unseen k a ++ w.down k).filterMap (Frame.own sid)) :
    Follows cfg sid target p (w.withSidecar (c₁.setThread t (push ++ rest)) down) := by
  have hp : ∀ k, a ≠ .publish k := by
    rintro k rfl
    cases ha
  have hc : ∀ k, a ≠ .closeConn k := by
    rintro k rfl
    cases ha
  exact .refl (hM.silent hI h ht hacts (CDoes.objs_of_apart h ha) (CDoes.conn_of_apart h ha)
    ((published_run hI.tidy hI.steered ht h).2.2 hp hf) hputs hc hdown)

theorem Follows.pingClose {j : ConnId} (hI : Sound cfg w) (hM : Matches cfg sid target w p)
    (ht : w.sidecar.threads (.ping j) = .closeConn k :: rest) :
    Follows cfg sid target p
      (w.withSidecar ((w.sidecar.closeConn k).setThread (.ping j) ([] ++ rest)) w.down) := by
  -- to the one-session model the connection is cut, and nothing in flight is lost
  have h := CDoes.closeConn (w := w.sidecar) k
  refine Follows.cut k (line cfg sid w k).up.length (line cfg sid w k).down.length hM
    (side_silent h ht (.inl ⟨j, rfl⟩) rfl rfl
      (published_keep hI ht h (by simp) (by simp))) rfl (fun hk => ?_)
    fun i hi hik => ?_
  · rw [line_closeConn hI ht (hM.dialed hI hk), List.take_length, List.take_length]
  · exact line_keep hI h ht (hM.dialed hI hi) (by simp [CAct.Puts]) (by simpa using Ne.symm hik)
      (by simp [unseen])

/-- The session that comes next when the sessions are attached. -/
theorem acts_attaching {sids : List UInt64} {s : UInt64} (hs : s ∈ sids) (hnd : sids.Nodup) :
    sidecarActs sid (.sess s (.attachFrame k)) ++ sidecarActs sid (.attaching k (sids.erase s)) =
      sidecarActs sid (.attaching k sids) := by
  simp only [sidecarActs]
  by_cases hsid : s = sid
  · subst hsid
    rw [if_pos rfl, if_pos hs, if_neg hnd.not_mem_erase]
    rfl
  · simp [hsid, List.mem_erase_of_ne (Ne.symm hsid)]

theorem acts_sess_of_ne {s : UInt64} (hs : s ≠ sid) (l : List SAct) :
    (l.map (CAct.sess s)).flatMap (sidecarActs sid) = [] := by
  simp [List.flatMap_eq_nil_iff, sidecarActs, hs]

theorem unseen_sess {s : UInt64} (l : List SAct) (k : ConnId) :
    (l.map (CAct.sess s)).flatMap (unseen k) = [] := by
  simp [List.flatMap_eq_nil_iff, unseen]

theorem Follows.handleOther {f : Frame} (hI : Sound cfg w) (hM : Matches cfg sid target w p)
    (hf : f.own sid = none) (ht : w.sidecar.threads t = .handleFrame k f :: rest)
    (h : CDoes w.sidecar (.handleFrame k f) c₁ push) :
    Follows cfg sid target p (w.withSidecar (c₁.setThread t (push ++ rest)) w.down) := by
  have hsess : ((dispatch f).map (CAct.sess f.sessionID)).flatMap (sidecarActs sid) = [] := by
    by_cases hsid : f.sessionID = sid
    · rw [dispatch_of_msg (by simpa [Frame.own, hsid] using hf)]
      rfl
    · exact acts_sess_of_ne hsid _
  have hacts : push.flatMap (sidecarActs sid) = [] ∧ ∀ j, push.flatMap (unseen j) = [] := by
    cases h with
    | handleSession k f hl => exact ⟨hsess, unseen_sess _⟩
    | _ => exact ⟨rfl, fun _ => rfl⟩
  refine Follows.silent hI hM ht h (.inr hacts.1) rfl (by simp) (by simp [CAct.Puts]) fun j => ?_
  rw [hacts.2]
  simp only [unseen]
  split_ifs <;> simp [hf]

theorem Follows.other {s : UInt64} {b : SAct} (hI : Sound cfg w) (hM : Matches cfg sid target w p)
    (hs : s ≠ sid) (ht : w.sidecar.threads t = .sess s b :: rest)
    (h : CDoes w.sidecar (.sess s b) c₁ push) :
    Follows cfg sid target p (w.withSidecar (c₁.setThread t (push ++ rest)) w.down) := by
  have hacts : push.flatMap (sidecarActs sid) = [] ∧ ∀ j, push.flatMap (unseen j) = [] := by
    cases h with
    | write => exact ⟨rfl, fun _ => rfl⟩
    | sess _ _ ob l hb => exact ⟨acts_sess_of_ne hs l, unseen_sess l⟩
  refine Follows.silent hI hM ht h (.inr ?_) (by simp [apart, hs]) (by simp) ?_ fun j => ?_
  · rw [hacts.1]
    simp [sidecarActs, hs]
  · intro k f hf
    cases b with
    | write j m =>
      obtain ⟨rfl, rfl⟩ := hf
      have hm := Truthful.sid_eq (hI.truthful.pending t s (.write j m) m (by simp [ht]) rfl)
      exact Msg.own_frame_of_ne (by rwa [hm])
    | _ => cases hf
  · rw [hacts.2]
    rfl

theorem Follows.session {b : SAct} {ch : CChoice} (hI : Sound cfg w)
    (hM : Matches cfg sid target w p) (ht : w.sidecar.threads t = .sess sid b :: rest)
    (hsmall : ∀ k m, b = .write k m → m.small = true)
    (hex : cexec cfg.sidecar w.sidecar (.sess sid b) ch = some (c₁, push)) :
    Follows cfg sid target p (w.withSidecar (c₁.setThread t (push ++ rest)) w.down) := by
  simp only [cexec] at hex
  split at hex
  · rename_i k m ch
    obtain ⟨c', hw, heq⟩ := Option.map_eq_some_iff.mp hex
    cases heq
    exact Follows.write hI hM ht (hsmall k m rfl) hw
  · obtain ⟨⟨ob, l⟩, hb, heq⟩ := Option.map_eq_some_iff.mp hex
    cases heq
    exact Follows.sess hI hM ht hb
  · cases hex

theorem Follows.sidecarAct {ch : CChoice} (hI : Sound cfg w) (hM : Matches cfg sid target w p)
    (ht : w.sidecar.threads t = a :: rest)
    (hsmall : ∀ k m, a = .sess sid (.write k m) → m.small = true)
    (hex : cexec cfg.sidecar w.sidecar a ch = some (c₁, push)) (hch : ∀ f, ch ≠ .frame f) :
    Follows cfg sid target p (w.withSidecar (c₁.setThread t (push ++ rest)) w.down) := by
  have h := cexec_does hex
  have hhome := hI.tidy.home t a (by simp [ht])
  have hnone : ∀ (f : Frame), f.msg = none → f.own sid = none :=
    fun f hf => Frame.own_of_msg hf sid
  cases a with
  | dial =>
    cases h <;> exact Follows.silent hI hM ht (by constructor) (.inr rfl) rfl (by simp)
      (by simp [CAct.Puts]) (by simp [unseen])
  | hello k =>
    obtain rfl := tunnel_of_home hhome (by simp) (by simp) (by simp)
    cases h with
    | helloFail => exact Follows.helloFail hI hM ht
    | hello _ id _ hw =>
      refine Follows.silent hI hM ht (.hello k id c₁ hw) (.inr rfl) rfl (by simp) ?_
        (by simp [unseen])
      rintro j f ⟨-, id', rfl⟩
      exact hnone _ rfl
  | publish k =>
    obtain rfl := tunnel_of_home hhome (by simp) (by simp) (by simp)
    cases h
    exact Follows.publish hI hM ht
  | setLastPong | startPing | cancelPing =>
    cases h
    exact Follows.silent hI hM ht (by constructor) (.inr rfl) rfl (by simp) (by simp [CAct.Puts])
      (by simp [unseen])
  | attaching k sids =>
    obtain rfl := tunnel_of_home hhome (by simp) (by simp) (by simp)
    cases h with
    | attached =>
      exact Follows.silent hI hM ht (.attached k) (.inr (by simp [sidecarActs])) rfl (by simp)
        (by simp [CAct.Puts]) (by simp [unseen])
    | attach _ _ s hs =>
      refine Follows.silent hI hM ht (.attach k sids s hs) (.inr ?_) rfl (by simp)
        (by simp [CAct.Puts]) (by simp [unseen])
      rw [← acts_attaching hs (hI.tidy.attaching k sids (by simp [ht]))]
      simp
  | readFrame k =>
    obtain rfl := tunnel_of_home hhome (by simp) (by simp) (by simp)
    cases h with
    | readFrame _ f =>
      simp only [cexec] at hex
      split at hex <;> cases hex
      exact absurd rfl (hch f)
    | readFail => exact Follows.readFail hI hM ht
  | handleFrame k f =>
    cases hf : f.own sid with
    | none => exact Follows.handleOther hI hM hf ht h
    | some m =>
      obtain rfl := tunnel_of_home hhome (by simp) (by simp) (by simp)
      exact Follows.handleFrame hI hM hf ht hex
  | pong k nonce =>
    cases h with
    | pong _ _ _ hw =>
      refine Follows.silent hI hM ht (.pong k nonce c₁ hw) (.inr rfl) rfl (by simp) ?_
        (by simp [unseen])
      rintro j f ⟨-, rfl⟩
      exact hnone _ rfl
  | disconnect k =>
    obtain rfl := tunnel_of_home hhome (by simp) (by simp) (by simp)
    cases h
    exact Follows.disconnect hI hM ht
  | closeConn k =>
    cases h
    cases t with
    | tunnel => exact Follows.closeConn hI hM ht
    | ping j => exact Follows.pingClose hI hM ht
    | proxy s =>
      obtain ⟨b, hb⟩ := hhome
      cases hb
  | tick k nonce =>
    have hping := ping_of_home hhome (.inl rfl)
    cases h <;> exact Follows.silent hI hM ht (by constructor) (.inl hping) rfl (by simp)
      (by simp [CAct.Puts]) (by simp [unseen])
  | ping k nonce =>
    have hping := ping_of_home hhome (.inr rfl)
    cases h with
    | ping _ _ _ hw next hn =>
      refine Follows.silent hI hM ht (.ping k nonce c₁ hw next hn) (.inl hping) rfl (by simp) ?_ ?_
      · rintro j f ⟨-, rfl⟩
        exact hnone _ rfl
      · rcases hn with rfl | rfl <;> simp [unseen]
  | sess s b =>
    by_cases hs : s = sid
    · subst hs
      exact Follows.session hI hM ht (fun k m hb => hsmall k m (by rw [hb])) hex
    · exact Follows.other hI hM hs ht h

theorem Follows.readFrame {f : Frame} {fs : List Frame} (hI : Sound cfg w)
    (hM : Matches cfg sid target w p) (ht : w.sidecar.threads t = .readFrame k :: rest)
    (hf : w.down k = f :: fs) :
    Follows cfg sid target p (w.withSidecar
      (w.sidecar.setThread t ([.handleFrame k f, .readFrame k] ++ rest))
      (Function.update w.down k fs)) := by
  refine Follows.silent hI hM ht (.readFrame k f) (.inr rfl) rfl (by simp) (by simp [CAct.Puts])
    fun j => ?_
  obtain ⟨rfl, heq⟩ | ⟨hne, heq⟩ := update_cases w.down k fs j <;> rw [heq]
  · simp [unseen, hf]
  · simp [unseen, Ne.symm hne]

theorem Follows.accept {s : UInt64} {tgt : Bytes} (hI : Sound cfg w)
    (hM : Matches cfg sid target w p) (hs : s ∉ w.sidecar.ids) (htgt : s = sid → tgt = target) :
    Follows cfg sid target p
      (w.withSidecar (w.sidecar.accept cfg.sidecar s tgt) w.down) := by
  have htun : (w.sidecar.accept cfg.sidecar s tgt).threads .tunnel = w.sidecar.threads .tunnel := by
    rw [Client.World.accept_threads, Function.update_of_ne (by simp)]
  have hpub : published (w.sidecar.accept cfg.sidecar s tgt) = published w.sidecar := by
    rw [published, published, htun]
    rfl
  refine .refl (hM.of_sidecar (hM.side.trans ?_) rfl rfl rfl rfl rfl fun k hk => ?_)
  · unfold side
    rw [htun, hpub]
    by_cases hsid : s = sid
    · subst hsid
      have hl : (w.sidecar.objs s).listed = false := by
        by_contra hl
        exact hs (hI.opened.listed s (by simpa using hl))
      simp [hs, hl, htgt rfl, Client.World.accept, Client.World.setObj, Client.World.setThread,
        Client.Config.newObj, sidecarActs, sessionAct]
    · simp [Client.World.accept, Client.World.setObj, Client.World.setThread, Ne.symm hsid]
  · rw [hM.lines k hk]
    unfold line
    have hlinks : (w.sidecar.accept cfg.sidecar s tgt).links = w.sidecar.links := rfl
    simp [World.withSidecar, World.closed, htun, hlinks, World.carried]

end Run

end SubstratePoc.Deployment
