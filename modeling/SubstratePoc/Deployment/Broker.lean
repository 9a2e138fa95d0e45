import SubstratePoc.Deployment.Projection
import SubstratePoc.Broker.Attach

namespace SubstratePoc.Deployment
open Lib Tunnel Broker Server

/-! ## Sessions and their names -/

theorem sid_onSidecarAttach (s : Session) (offset : ℕ) :
    ∀ m ∈ s.onSidecarAttach offset, m.sid = s.sessionID := by
  intro m hm
  simp only [Session.onSidecarAttach, List.mem_append] at hm
  rcases hm with (hm | hm) | hm
  · rw [List.mem_singleton.mp hm]
    rfl
  · split_ifs at hm
    · rw [List.mem_singleton.mp hm]
      rfl
    · cases hm
  · split_ifs at hm
    · rw [List.mem_singleton.mp hm]
      rfl
    · cases hm

/-- The messages of a session name it. -/
theorem sid_of_does {s : Session} {a : Act} {c : Choice} {r : Result} (h : Does s a c r)
    (ha : ∀ m, a.msg = some m → m.sid = s.sessionID) :
    (∀ b ∈ r.push, ∀ m, b.msg = some m → m.sid = s.sessionID) ∧
      ∀ k m, .frame k m ∈ r.eff → m.sid = s.sessionID := by
  cases h with
  | produceDone after => cases after <;> simp [After.acts, Act.msg]
  | produceDetached | produceLost =>
    dsimp only
    split_ifs <;> simp [Act.msg]
  | attach offset =>
    refine ⟨fun b hb m hm => ?_, by simp⟩
    obtain ⟨m', hm', rfl⟩ := List.mem_map.mp hb
    cases hm
    exact sid_onSidecarAttach s offset _ hm'
  | writeOk k m hm =>
    refine ⟨by simp, fun j m' hm' => ?_⟩
    cases List.mem_singleton.mp hm'
    exact ha m rfl
  | sendSome m c tc ht => simpa [Act.msg] using ha m rfl
  | _ => simp [Act.msg, Msg.sid]

/-- The broker has one actor, and no connection has two sessions at one key. -/
structure Solo (A : Bytes) (s : Server.World) : Prop where
  conns : ∀ k t, s.conns k = some t → t.actorID = A
  made : ∀ key, key.actorID ≠ A → s.made key = 0
  sids : ∀ u p b, .act p b ∈ s.threads u → ∀ m, b.msg = some m → m.sid = p.key.sessionID
  distinct : ∀ k t, s.conns k = some t → (t.sessions.map Ptr.key).Nodup
  detaching : ∀ u k ps, .detaching k ps ∈ s.threads u → (ps.map Ptr.key).Nodup

theorem Solo.start (A : Bytes) (cfg : Server.Config) : Solo A (Server.start cfg) where
  conns k t h := by cases h
  made key _ := rfl
  sids u p b h := by cases h
  distinct k t h := by cases h
  detaching u k ps h := by cases h

section Step
variable {A : Bytes} {cfg : Server.Config} {s s₁ : Server.World} {a : HAct}
  {push rest : List HAct} {t : Server.Thread}

theorem nodup_register {t : Conn} {p : Ptr} (h : (t.sessions.map Ptr.key).Nodup) :
    ((t.register p).sessions.map Ptr.key).Nodup := by
  rw [Conn.register, List.map_append, List.nodup_append]
  refine ⟨h.sublist (List.filter_sublist.map _), by simp, ?_⟩
  intro x hx y hy
  obtain ⟨q, hq, rfl⟩ := List.mem_map.mp hx
  rw [List.map_singleton, List.mem_singleton] at hy
  subst hy
  rintro heq
  have := (List.mem_filter.mp hq).2
  rw [heq] at this
  simp at this

theorem Solo.sids_push (hI : Solo A s) (hO : Owned s) (ha : a ∈ s.threads t)
    (h : HDoes cfg s a s₁ push) {p : Ptr} {b : Act} {m : Msg} (hb : .act p b ∈ push)
    (hm : b.msg = some m) : m.sid = p.key.sessionID := by
  cases h with
  | handleFrame => cases mem_handleFrame hb <;> cases hm
  | act q b' c r hr =>
    obtain ⟨x, hx, heq⟩ := List.mem_map.mp hb
    cases heq
    have hname := (hO.named p).2
    rw [← hname]
    refine (sid_of_does hr fun m' hm' => ?_).1 b hx m hm
    rw [hname]
    exact hI.sids t p b' ha m' hm'
  | attach =>
    simp only [List.mem_cons, HAct.act.injEq, List.not_mem_nil, or_false] at hb
    rcases hb with ⟨-, rfl⟩ | ⟨-, rfl⟩ <;> cases hm
  | openSession | reattach | detaching =>
    simp only [List.mem_cons, HAct.act.injEq, reduceCtorEq, List.not_mem_nil, or_false] at hb
    obtain ⟨-, rfl⟩ := hb
    cases hm
  | _ => simp at hb

theorem Solo.run (hI : Solo A s) (hO : Owned s) (ht : s.threads t = a :: rest)
    (h : HDoes cfg s a s₁ push) : Solo A (s₁.setThread t (push ++ rest)) := by
  have ha : a ∈ s.threads t := by simp [ht]
  constructor
  case conns =>
    intro k tc hk
    have hturn := h.turns k
    rw [show s₁.conns k = some tc from hk] at hturn
    generalize hold : s.conns k = o at hturn
    cases hturn with
    | same => exact hI.conns k tc hold
    | wrote t' | emptied t' | registered t' => exact hI.conns k t' hold
  case made =>
    intro key hkey
    show s₁.made key = 0
    obtain ⟨k, sid, target, tc, -, hk, -, rfl, -⟩ | ⟨p, b, c, r, -, hr, rfl, -⟩ | ⟨-, -, hm, -⟩ := h.objs
    · have hne : key ≠ ⟨tc.actorID, sid⟩ := by
        rintro rfl
        exact hkey (hI.conns k tc hk)
      simp only [World.make, Function.update_of_ne hne]
      exact hI.made key hkey
    · rw [(actOn_frame hr).1]
      exact hI.made key hkey
    · rw [hm]
      exact hI.made key hkey
  case sids =>
    intro u p b hmem m hm
    obtain ⟨hb, -⟩ | ⟨rfl, hb⟩ | ⟨q, -, -, hb⟩ := mem_threads_run h ht hmem
    · exact hI.sids u p b hb m hm
    · exact hI.sids_push hO ha h hb hm
    · cases hb
      cases hm
  case distinct =>
    intro k tc hk
    have hturn := h.turns k
    rw [show s₁.conns k = some tc from hk] at hturn
    generalize hold : s.conns k = o at hturn
    cases hturn with
    | same => exact hI.distinct k tc hold
    | wrote t' => exact hI.distinct k t' hold
    | emptied t' => exact List.nodup_nil
    | registered t' p => exact nodup_register (hI.distinct k t' hold)
  case detaching =>
    intro u k ps hmem
    obtain ⟨hk, -⟩ | ⟨rfl, hk⟩ | ⟨q, -, -, hk⟩ := mem_threads_run h ht hmem
    · exact hI.detaching u k ps hk
    · cases h with
      | handleFrame => cases mem_handleFrame hk
      | detachAll j tc htc =>
        cases List.mem_singleton.mp hk
        exact hI.distinct _ tc htc
      | detaching j qs i p hp =>
        simp only [List.mem_cons, reduceCtorEq, HAct.detaching.injEq, false_or, List.not_mem_nil,
          or_false] at hk
        rw [hk.2]
        exact (hI.detaching u j qs ha).sublist ((List.eraseIdx_sublist qs i).map _)
      | _ => simp at hk
    · cases hk

theorem Solo.step {s' : Server.World} {e : Server.Event} (hI : Solo A s) (hO : Owned s)
    (hname : ∀ k f, e = .accept k f → f.actorID = A) (h : Server.step cfg s e = some s') :
    Solo A s' := by
  cases step_steps h with
  | hello k first hk hf =>
    constructor
    · intro j tc hj
      obtain ⟨-, rfl⟩ | ⟨-, hj⟩ := conns_setConn hj
      · exact hname k first rfl
      · exact hI.conns j tc hj
    · exact hI.made
    · intro u p b hb
      obtain ⟨-, heq⟩ | hb := mem_started hb
      · cases heq
      · exact hI.sids u p b hb
    · intro j tc hj
      obtain ⟨-, rfl⟩ | ⟨-, hj⟩ := conns_setConn hj
      · exact List.nodup_nil
      · exact hI.distinct j tc hj
    · intro u j ps hj
      obtain ⟨-, heq⟩ | hj := mem_started hj
      · cases heq
      · exact hI.detaching u j ps hj
  | refused => exact hI
  | run t c a rest push s₁ ht hdo => exact hI.run hO ht hdo
  | fire p hp =>
    constructor
    · exact hI.conns
    · exact hI.made
    · intro u q b hb m hm
      obtain ⟨-, heq⟩ | hb := mem_started hb
      · cases heq
        cases hm
      · exact hI.sids u q b hb m hm
    · exact hI.distinct
    · intro u j ps hj
      obtain ⟨-, heq⟩ | hj := mem_started hj
      · cases heq
      · exact hI.detaching u j ps hj
  | resumer | exit => exact ⟨hI.conns, hI.made, hI.sids, hI.distinct, hI.detaching⟩

end Step

/-! ## Connections without a session -/

/-- How far a frame loop can have come without a frame. -/
inductive Idle (k : ConnId) : List HAct → Prop
  | waiting : Idle k [.readFrame k]
  | leaving : Idle k [.detachAll k, .closeConn k]
  | detaching : Idle k [.detaching k [], .closeConn k]
  | closing : Idle k [.closeConn k]
  | ended : Idle k []

/-- No session has used the connection. -/
structure Unused (s : Server.World) (k : ConnId) : Prop where
  loop : Idle k (s.threads (.loop k))
  conn : ∀ t, s.conns k = some t → t.sessions = [] ∧ t.sent = []
  ended : ∀ t, s.conns k = some t → s.threads (.loop k) = [] → t.closed = true
  tconn : ∀ p, (s.objs p).s.tconn ≠ some k
  acts : ∀ u p b, .act p b ∈ s.threads u → actConn b ≠ some k
  replies : ∀ u f, .reply k f ∉ s.threads u

theorem Unused.start (cfg : Server.Config) (k : ConnId) : Unused (Server.start cfg) k where
  loop := .ended
  conn t h := by cases h
  ended t h := by cases h
  tconn p h := by cases h
  acts u p b h := by cases h
  replies u f h := by cases h

section Unused
variable {cfg : Server.Config} {s s₁ : Server.World} {a : HAct} {push rest : List HAct}
  {t : Server.Thread} {k : ConnId}

theorem conns_write_of_ne {j : ConnId} (h : j ≠ k) (f : Frame) : (s.write j f).conns k = s.conns k := by
  unfold World.write
  split
  · split_ifs
    · rfl
    · exact Function.update_of_ne h.symm ..
  · rfl

theorem conns_actOn_of_ne {p : Ptr} {b : Act} {c : Choice} {r : Result}
    (h : Does (s.objs p).s b c r) (ht : (s.objs p).s.tconn ≠ some k) (hb : actConn b ≠ some k) :
    (s.actOn p r).conns k = s.conns k := by
  have hne : ∀ e ∈ r.eff, effectConn e ≠ some k := by
    intro e he hk
    rcases (conns_of_does h).2.2.2.2 e he k hk with h | h
    · exact ht h
    · exact hb h
  obtain ⟨-, hw⟩ | ⟨e, he, hw⟩ := actOn_eq h <;> rw [hw]
  · rfl
  · have hne := hne e (by simp [he])
    cases e with
    | frame j m => exact conns_write_of_ne (s := s.setObj p _) (by simpa [effectConn] using hne) _
    | register j =>
      have hj : j ≠ k := by simpa [effectConn] using hne
      simp only [World.effect]
      split
      · exact Function.update_of_ne hj.symm ..
      · rfl
    | wake => exact congrFun (resume_frame ..).1 k
    | removeSession | upstream | closeWrite => rfl

theorem Idle.mem {l : List HAct} (h : Idle k l) (ha : a ∈ l) :
    a = .readFrame k ∨ a = .detachAll k ∨ a = .detaching k [] ∨ a = .closeConn k := by
  cases h <;> simp at ha <;> tauto

/-- Only the frame loop of the connection could use it, and it has no frame to handle. -/
theorem Unused.home (hI : Unused s k) (hB : Bound s) (ha : a ∈ s.threads t)
    (hk : a.home = some k) :
    a = .readFrame k ∨ a = .detachAll k ∨ a = .detaching k [] ∨ a = .closeConn k := by
  obtain rfl := hB.home t a ha k hk
  exact hI.loop.mem ha

theorem Unused.conns_run (hI : Unused s k) (ha : a ∈ s.threads t)
    (h : HDoes cfg s a s₁ push) : s₁.conns k = s.conns k ∨
      ∃ tc closed, s.conns k = some tc ∧ s₁.conns k = some { tc with sessions := [], closed } ∧
        (tc.closed = true → closed = true) := by
  cases h with
  | act p b c r hr => exact .inl (conns_actOn_of_ne hr (hI.tconn p) (hI.acts t p b ha))
  | reply j f =>
    refine .inl (conns_write_of_ne ?_ f)
    rintro rfl
    exact hI.replies t f ha
  | detachAll j tc hj =>
    by_cases hk : k = j
    · subst hk
      exact .inr ⟨tc, tc.closed, hj, Function.update_self .., id⟩
    · exact .inl (Function.update_of_ne hk ..)
  | closeConn j tc hj =>
    by_cases hk : k = j
    · subst hk
      refine .inr ⟨tc, true, hj, ?_, fun _ => rfl⟩
      rw [← (hI.conn tc hj).1]
      exact Function.update_self ..
    · exact .inl (Function.update_of_ne hk ..)
  | _ => exact .inl rfl

theorem Unused.loop_run (hI : Unused s k) (ht : s.threads (.loop k) = a :: rest)
    (h : HDoes cfg s a s₁ push) (hread : ∀ f, push ≠ [.handleFrame k f, .readFrame k]) :
    Idle k (push ++ rest) := by
  have hidle := hI.loop
  rw [ht] at hidle
  generalize hl : a :: rest = l at hidle
  cases hidle with
  | waiting =>
    cases hl
    cases h with
    | readFrame _ f => exact absurd rfl (hread f)
    | readFail => exact .leaving
  | leaving =>
    cases hl
    cases h with
    | detachAll _ tc htc =>
      rw [(hI.conn tc htc).1]
      exact .detaching
  | detaching =>
    cases hl
    cases h with
    | detaching _ _ i p hp => cases hp
    | detached => exact .closing
  | closing =>
    cases hl
    cases h
    exact .ended
  | ended => cases hl

theorem Unused.ended_run (hI : Unused s k) (ht : s.threads (.loop k) = a :: rest)
    (h : HDoes cfg s a s₁ push) {tc : Conn} (htc : s₁.conns k = some tc) (hnil : push ++ rest = []) :
    tc.closed = true := by
  obtain ⟨rfl, rfl⟩ := List.append_eq_nil_iff.mp hnil
  have hidle := hI.loop
  rw [ht] at hidle
  cases hidle with
  | waiting => cases h
  | closing =>
    cases h with
    | closeConn _ t' ht' =>
      cases (Function.update_self ..).symm.trans htc
      rfl

theorem Unused.tconn_run (hI : Unused s k) (ha : a ∈ s.threads t) (h : HDoes cfg s a s₁ push)
    (p : Ptr) : (s₁.objs p).s.tconn ≠ some k := by
  obtain ⟨j, sid, target, tc, -, -, -, rfl, -⟩ | ⟨q, b, c, r, rfl, hr, rfl, -⟩ | ⟨-, ho, -⟩ := h.objs
  · obtain ⟨-, heq⟩ | ⟨-, heq⟩ := update_cases s.objs ⟨⟨tc.actorID, sid⟩, s.made ⟨tc.actorID, sid⟩⟩
      ⟨newSession cfg.sessionBufferBytes tc.actorID sid target, [], false, 0⟩ p <;>
      simp only [World.make, heq]
    · simp [newSession]
    · exact hI.tconn p
  · rw [(actOn_frame hr).2.1]
    obtain ⟨rfl, heq⟩ | ⟨-, heq⟩ := update_cases s.objs q ((s.objs q).after r) p <;> rw [heq]
    · intro hk
      rcases (conns_of_does hr).2.2.1 k hk with h | h
      · exact hI.tconn p h
      · exact hI.acts t p b ha h
    · exact hI.tconn p
  · rw [ho]
    exact hI.tconn p

theorem Unused.acts_push (hI : Unused s k) (hB : Bound s) (ha : a ∈ s.threads t)
    (h : HDoes cfg s a s₁ push) {p : Ptr} {b : Act} (hb : .act p b ∈ push) :
    actConn b ≠ some k := by
  have hhome := hI.home hB ha
  intro hk
  cases h with
  | handleFrame => cases mem_handleFrame hb <;> cases hk
  | act q b' c r hr =>
    obtain ⟨x, hx, heq⟩ := List.mem_map.mp hb
    cases heq
    rcases (conns_of_does hr).2.2.2.1 b hx k hk with h | h
    · exact hI.tconn p h
    · exact hI.acts t p b' ha h
  | detaching j ps i q hq =>
    simp only [List.mem_cons, HAct.act.injEq, reduceCtorEq, List.not_mem_nil, or_false] at hb
    obtain ⟨-, rfl⟩ := hb
    cases hk
    obtain rfl : ps = [] := by simpa [HAct.home] using hhome
    cases hq
  | openSession | reattach =>
    simp only [List.mem_cons, HAct.act.injEq, reduceCtorEq, List.not_mem_nil, or_false] at hb
    obtain ⟨-, rfl⟩ := hb
    cases hk <;> simp [HAct.home] at hhome
  | attach =>
    simp only [List.mem_cons, HAct.act.injEq, List.not_mem_nil, or_false] at hb
    rcases hb with ⟨-, rfl⟩ | ⟨-, rfl⟩ <;> cases hk
    simp [HAct.home] at hhome
  | _ => simp at hb

theorem Unused.replies_push (hI : Unused s k) (hB : Bound s) (ha : a ∈ s.threads t)
    (h : HDoes cfg s a s₁ push) (f : Frame) : .reply k f ∉ push := by
  have hhome := hI.home hB ha
  intro hb
  cases h with
  | handleFrame j g tc htc =>
    cases mem_handleFrame hb
    simp [HAct.home] at hhome
  | openRefused j sid target g | lost j sid offset target g =>
    cases List.mem_singleton.mp hb
    simp [HAct.home] at hhome
  | act q b' c r hr => simp at hb
  | _ => simp at hb

theorem Unused.run (hI : Unused s k) (hB : Bound s) (ht : s.threads t = a :: rest)
    (h : HDoes cfg s a s₁ push) (hread : ∀ f, push ≠ [.handleFrame k f, .readFrame k]) :
    Unused (s₁.setThread t (push ++ rest)) k := by
  have ha : a ∈ s.threads t := by simp [ht]
  have hloop := threads_run h ht (.loop k)
  constructor
  case loop =>
    rcases hloop with ⟨rfl, heq⟩ | ⟨-, heq⟩ | ⟨p, -, -, hu, -⟩
    · rw [heq]
      exact hI.loop_run ht h hread
    · rw [heq]
      exact hI.loop
    · cases hu
  case conn =>
    intro tc htc
    have htc : s₁.conns k = some tc := htc
    rcases hI.conns_run ha h with heq | ⟨tc', closed, hold, heq, -⟩ <;> rw [heq] at htc
    · exact hI.conn tc htc
    · cases htc
      exact ⟨rfl, (hI.conn tc' hold).2⟩
  case ended =>
    intro tc htc hnil
    have htc : s₁.conns k = some tc := htc
    rcases hloop with ⟨rfl, heq⟩ | ⟨-, heq⟩ | ⟨p, -, -, hu, -⟩
    · exact hI.ended_run ht h htc (heq ▸ hnil)
    · rw [heq] at hnil
      rcases hI.conns_run ha h with hsame | ⟨tc', closed, hold, hnew, hcl⟩
      · exact hI.ended tc (hsame ▸ htc) hnil
      · cases hnew.symm.trans htc
        exact hcl (hI.ended tc' hold hnil)
    · cases hu
  case tconn => exact fun p => show (s₁.objs p).s.tconn ≠ some k from hI.tconn_run ha h p
  case acts =>
    intro u p b hmem
    obtain ⟨hb, -⟩ | ⟨rfl, hb⟩ | ⟨q, -, -, hb⟩ := mem_threads_run h ht hmem
    · exact hI.acts u p b hb
    · exact hI.acts_push hB ha h hb
    · cases hb
      simp [actConn]
  case replies =>
    intro u f hmem
    obtain ⟨hb, -⟩ | ⟨rfl, hb⟩ | ⟨q, -, -, hb⟩ := mem_threads_run h ht hmem
    · exact hI.replies u f hb
    · exact hI.replies_push hB ha h f hb
    · cases hb

theorem step_run {s' : Server.World} {c : HChoice} (h : Server.step cfg s (.run t c) = some s') :
    ∃ a rest, s.threads t = a :: rest ∧ ∃ push s₁, hexec cfg s a c = some (s₁, push) ∧
      s' = s₁.setThread t (push ++ rest) := by
  simp only [Server.step] at h
  split at h
  · cases h
  · rename_i a rest ht
    obtain ⟨⟨s₁, push⟩, hex, rfl⟩ := Option.map_eq_some_iff.mp h
    exact ⟨a, rest, ht, push, s₁, hex, rfl⟩

theorem readFrame_of_push {c : HChoice} {f : Frame}
    (h : hexec cfg s a c = some (s₁, [.handleFrame k f, .readFrame k])) :
    a = .readFrame k ∧ ∃ g, c = .frame g := by
  have hd := hexec_does h
  generalize hp : [HAct.handleFrame k f, HAct.readFrame k] = push at hd
  cases hd with
  | readFrame j g =>
    cases hp
    refine ⟨rfl, ?_⟩
    cases c with
    | frame g => exact ⟨g, rfl⟩
    | io c => cases c <;> cases h
    | pick i => cases h
  | handleFrame j g tc htc =>
    obtain heq | ⟨b, heq, -⟩ := handleFrame_handles j g (s.lookup tc.actorID g.sessionID) <;>
      rw [heq] at hp <;> cases hp
  | act p b c r hr =>
    rw [eq_comm, List.map_eq_cons_iff] at hp
    obtain ⟨x, -, -, hx, -⟩ := hp
    cases hx
  | _ => cases hp

theorem Unused.hello (hI : Unused s k) (j : ConnId) (A : Bytes) :
    Unused ((s.setConn j ⟨A, [], [], false⟩).setThread (.loop j) [.readFrame j]) k := by
  constructor
  · obtain ⟨heq, h⟩ | ⟨-, h⟩ := threads_setThread (s.setConn j ⟨A, [], [], false⟩) (.loop j)
      [.readFrame j] (.loop k) <;> rw [h]
    · cases heq
      exact .waiting
    · exact hI.loop
  · intro tc htc
    obtain ⟨-, rfl⟩ | ⟨-, htc⟩ := conns_setConn htc
    · exact ⟨rfl, rfl⟩
    · exact hI.conn tc htc
  · intro tc htc hnil
    obtain ⟨heq, h⟩ | ⟨hne, h⟩ := threads_setThread (s.setConn j ⟨A, [], [], false⟩) (.loop j)
      [.readFrame j] (.loop k) <;> rw [h] at hnil
    · cases hnil
    · obtain ⟨rfl, -⟩ | ⟨-, htc⟩ := conns_setConn htc
      · exact absurd rfl hne
      · exact hI.ended tc htc hnil
  · exact hI.tconn
  · intro u p b hmem
    obtain ⟨-, heq⟩ | hmem := mem_started hmem
    · cases heq
    · exact hI.acts u p b hmem
  · intro u f hmem
    obtain ⟨-, heq⟩ | hmem := mem_started hmem
    · cases heq
    · exact hI.replies u f hmem

theorem Unused.fire (hI : Unused s k) (p : Ptr) :
    Unused ((s.setObj p (s.objs p).fire).setThread (.timer p (s.objs p).fired) [.act p .watchdog])
      k := by
  constructor
  · obtain ⟨heq, -⟩ | ⟨-, h⟩ := threads_setThread (s.setObj p (s.objs p).fire)
      (.timer p (s.objs p).fired) [.act p .watchdog] (.loop k)
    · cases heq
    · rw [h]
      exact hI.loop
  · exact hI.conn
  · intro tc htc hnil
    obtain ⟨heq, -⟩ | ⟨-, h⟩ := threads_setThread (s.setObj p (s.objs p).fire)
      (.timer p (s.objs p).fired) [.act p .watchdog] (.loop k)
    · cases heq
    · exact hI.ended tc htc (h ▸ hnil)
  · intro q
    obtain ⟨wd, hwd⟩ := update_fire s p q
    show (Function.update s.objs p (s.objs p).fire q).s.tconn ≠ some k
    rw [hwd]
    exact hI.tconn q
  · intro u q b hmem hk
    obtain ⟨-, heq⟩ | hmem := mem_started hmem
    · cases heq
      cases hk
    · exact hI.acts u q b hmem hk
  · intro u f hmem
    obtain ⟨-, heq⟩ | hmem := mem_started hmem
    · cases heq
    · exact hI.replies u f hmem

theorem Unused.step {s' : Server.World} {e : Server.Event} (hI : Unused s k) (hB : Bound s)
    (hread : ∀ f, e ≠ .run (.loop k) (.frame f)) (h : Server.step cfg s e = some s') :
    Unused s' k := by
  cases e with
  | run t c =>
    obtain ⟨a, rest, ht, push, s₁, hex, rfl⟩ := step_run h
    refine hI.run hB ht (hexec_does hex) ?_
    rintro f rfl
    obtain ⟨rfl, g, rfl⟩ := readFrame_of_push hex
    have ha : HAct.readFrame k ∈ s.threads t := by simp [ht]
    obtain rfl := hB.home t _ ha k rfl
    exact hread g rfl
  | accept j first =>
    cases step_steps h with
    | hello => exact hI.hello j first.actorID
    | refused => exact hI
  | fire p =>
    cases step_steps h
    exact hI.fire p
  | resumer | exit =>
    cases step_steps h
    exact ⟨hI.loop, hI.conn, hI.ended, hI.tconn, hI.acts, hI.replies⟩

end Unused

end SubstratePoc.Deployment
