import SubstratePoc.Server.Sessions

namespace SubstratePoc.Server
open Lib Tunnel Broker Resumer

/-- The connection that an action of `bind` is about. -/
def bindConn : Act → Option ConnId
  | .bind k | .register k => some k
  | _ => none

/-- The connection whose frame loop alone does such an action. -/
def HAct.home : HAct → Option ConnId
  | .readFrame k | .handleFrame k _ | .openSession k _ _ | .attachSession k _ _ _
  | .reattach k _ _ | .detachAll k | .detaching k _ | .closeConn k => some k
  | .act _ a => bindConn a
  | .startDial _ | .reply _ _ => none

/-- An action of `bind`: the session is about to be registered. -/
def HAct.binds (k : ConnId) (p : Ptr) (a : HAct) : Prop :=
  a = .act p (.bind k) ∨ a = .act p (.register k)

/-- How far a frame loop has come, with the sessions of its connection. -/
inductive Loop (k : ConnId) : List HAct → List Ptr → Prop
  | serving (l : List HAct) (ps : List Ptr) : Loop k (l ++ [.readFrame k]) ps
  | leaving (ps : List Ptr) : Loop k [.detachAll k, .closeConn k] ps
  | detaching (l : List HAct) (qs : List Ptr)
    (h : ∀ a ∈ l, ∃ p, a = .act p (.detach k) ∨ a = .act p .wake) :
    Loop k (l ++ [.detaching k qs, .closeConn k]) []
  | closing : Loop k [.closeConn k] []
  | ended : Loop k [] []

theorem HDoes.sessions {cfg : Config} {w w₁ : World} {a : HAct} {push : List HAct} {k : ConnId}
    {t t₁ : Conn} (h : HDoes cfg w a w₁ push) (ht : w.conns k = some t) (ht₁ : w₁.conns k = some t₁)
    (hne : a ≠ .detachAll k) (hreg : ∀ p, a ≠ .act p (.register k)) : t₁.sessions = t.sessions := by
  have hturn := h.turns k
  rw [ht, ht₁] at hturn
  cases hturn with
  | same | wrote => rfl
  | emptied _ ha => exact absurd ha hne
  | registered _ p ha => exact absurd ha (hreg p)

theorem Loop.run {cfg : Config} {w w₁ : World} {k : ConnId} {a : HAct} {push rest : List HAct}
    {t t₁ : Conn} (h : Loop k (a :: rest) t.sessions) (hdo : HDoes cfg w a w₁ push)
    (ht : w.conns k = some t) (ht₁ : w₁.conns k = some t₁) : Loop k (push ++ rest) t₁.sessions := by
  have hsame := hdo.sessions ht ht₁
  generalize hl : a :: rest = l at h
  generalize hps : t.sessions = ps at h
  cases h with
  | serving l =>
    cases l with
    | nil =>
      obtain ⟨rfl, rfl⟩ := List.cons.inj hl
      cases hdo with
      | readFrame k f => exact .serving [.handleFrame k f] _
      | readFail k => exact .leaving _
    | cons x l =>
      rw [List.cons_append] at hl
      obtain ⟨rfl, rfl⟩ := List.cons.inj hl
      rw [← List.append_assoc]
      exact .serving _ _
  | leaving =>
    obtain ⟨rfl, rfl⟩ := List.cons.inj hl
    cases hdo with
    | detachAll k t' ht' =>
      simp only [World.setConn, Function.update_self, Option.some.injEq] at ht₁
      rw [← ht₁]
      exact .detaching [] _ (by simp)
  | detaching l qs hall =>
    cases l with
    | nil =>
      obtain ⟨rfl, rfl⟩ := List.cons.inj hl
      rw [hsame (by simp) (by simp), hps]
      cases hdo with
      | detaching k qs i p hp => exact .detaching [.act p (.detach k)] _ (by simp)
      | detached => exact .closing
    | cons x l =>
      rw [List.cons_append] at hl
      obtain ⟨rfl, rfl⟩ := List.cons.inj hl
      obtain ⟨⟨p, hx⟩, hrest⟩ := List.forall_mem_cons.mp hall
      rw [← List.append_assoc]
      rcases hx with rfl | rfl
      · rw [hsame (by simp) (by simp), hps]
        refine .detaching _ _ (List.forall_mem_append.mpr ⟨?_, hrest⟩)
        cases hdo with
        | act _ _ c r hr =>
          cases hr with
          | detachWake => simp
          | detachStale | detachQuiet => simp
      · rw [hsame (by simp) (by simp), hps]
        refine .detaching _ _ (List.forall_mem_append.mpr ⟨?_, hrest⟩)
        cases hdo with
        | act _ _ c r hr =>
          cases hr with
          | wake => simp
  | closing =>
    obtain ⟨rfl, rfl⟩ := List.cons.inj hl
    rw [hsame (by simp) (by simp), hps]
    cases hdo with
    | closeConn => exact .ended
  | ended => cases hl

theorem HDoes.home {cfg : Config} {w w₁ : World} {a : HAct} {push : List HAct}
    (h : HDoes cfg w a w₁ push) : ∀ b ∈ push, ∀ k, b.home = some k → a.home = some k := by
  -- only what a frame loop does leaves it more of its own to do
  cases h with
  | handleFrame k f t ht =>
    intro b hb j hj
    cases mem_handleFrame hb with
    | reply | onData | onDownstreamAck | onSidecarClose => cases hj
    | openSession | attachSession => exact hj
  | act p a c r hr =>
    intro b hb k hk
    obtain ⟨x, hx, rfl⟩ := List.mem_map.mp hb
    have hpush : ∀ x ∈ r.push, bindConn x = some k → bindConn a = some k := by
      cases hr with
      | produceDone after => cases after <;> simp [After.acts, bindConn]
      | attach => simp [bindConn]
      | _ => simp [bindConn]
    exact hpush x hx hk
  | _ => simp [HAct.home, bindConn]

/-- What has just been found in the map, or put there, is the latest session of its key. -/
theorem HDoes.binds {cfg : Config} {w w₁ : World} {a : HAct} {push : List HAct}
    (h : HDoes cfg w a w₁ push) (hI : Keyed w) {k : ConnId} {p : Ptr} :
    (∀ b ∈ push.tail, ¬b.binds k p) ∧ ∀ b ∈ push, b.binds k p → (∀ j, a ≠ .detachAll j) ∧
      (∀ q j, a ≠ .act q (.register j)) ∧ (a = .act p (.bind k) ∨
        ∀ q : Ptr, q.gen < w.made q.key → q.key = p.key → q.gen ≤ p.gen) := by
  cases h with
  | handleFrame k f t ht =>
    refine ⟨fun b hb => ?_, fun b hb hk => ?_⟩
    · obtain h | ⟨x, h, -⟩ := handleFrame_handles k f (w.lookup t.actorID f.sessionID) <;>
        rw [h] at hb <;> cases hb
    · cases mem_handleFrame hb <;> simp [HAct.binds] at hk
  | openSession j sid target t ht hs =>
    refine ⟨by simp [HAct.binds], fun b hb hk => ⟨by simp, by simp, .inr fun q hq hkey => ?_⟩⟩
    obtain rfl | rfl := by simpa using hb
    · obtain ⟨rfl, -⟩ : _ = p ∧ j = k := by simpa [HAct.binds] using hk
      rw [hkey] at hq
      exact hq.le
    · simp [HAct.binds] at hk
  | attach j sid offset target t ht g hs =>
    refine ⟨by simp [HAct.binds], fun b hb hk => ⟨by simp, by simp, .inr fun q hq hkey => ?_⟩⟩
    obtain rfl | rfl := by simpa using hb
    · obtain ⟨rfl, -⟩ : _ = p ∧ j = k := by simpa [HAct.binds] using hk
      rw [hkey, ← hI.latest _ g hs] at hq
      exact Nat.le_of_lt_succ hq
    · simp [HAct.binds] at hk
  | act q a c r hr =>
    have hpush : (∀ x ∈ r.push.tail, ¬(HAct.act q x).binds k p) ∧ ∀ x ∈ r.push,
        (HAct.act q x).binds k p → q = p ∧ a = .bind k := by
      cases hr with
      | produceDone after => cases after <;> simp [After.acts, HAct.binds]
      | attach =>
        simp only [← List.map_tail, List.forall_mem_map]
        simp [HAct.binds]
      | bind j => simp +contextual [HAct.binds]
      | _ => simp [HAct.binds]
    refine ⟨fun b hb => ?_, fun b hb hk => ?_⟩
    · rw [← List.map_tail] at hb
      obtain ⟨x, hx, rfl⟩ := List.mem_map.mp hb
      exact hpush.1 x hx
    · obtain ⟨x, hx, rfl⟩ := List.mem_map.mp hb
      obtain ⟨rfl, rfl⟩ := hpush.2 x hx hk
      exact ⟨by simp, by simp, .inl rfl⟩
  | _ => simp [HAct.binds]

theorem Does.tconn {s : Session} {a : Act} {c : Choice} {r : Result} (h : Does s a c r) {k : ConnId}
    (hk : r.s.tconn = some k) : a = .bind k ∧ r.push = [.register k] ∨
      s.tconn = some k ∧ a ≠ .detach k := by
  cases h with
  | bind j => simp_all
  | detachStale j _ h =>
    refine .inr ⟨hk, ?_⟩
    rintro ⟨⟩
    exact h hk
  | _ => simp_all

/-- The frame loop of a connection still knows of a session. -/
def Tracks (k : ConnId) (p : Ptr) (l : List HAct) (ps : List Ptr) : Prop :=
  p ∈ ps ∨ .act p (.register k) ∈ l ∨ .act p (.detach k) ∈ l ∨ ∃ qs, .detaching k qs ∈ l ∧ p ∈ qs

/-- How the bindings of the sessions and the connections' own lists stand to each other. -/
structure Bound (w : World) : Prop where
  home : ∀ u, ∀ a ∈ w.threads u, ∀ k, a.home = some k → u = .loop k
  loops : ∀ k t, w.conns k = some t → Loop k (w.threads (.loop k)) t.sessions
  atHead : ∀ u k p, ∀ a ∈ (w.threads u).tail, ¬a.binds k p
  newest : ∀ k t, w.conns k = some t → ∀ p, ∀ a ∈ w.threads (.loop k), a.binds k p →
    ∀ q ∈ t.sessions, q.key = p.key → q.gen ≤ p.gen
  tracked : ∀ p, p.gen < w.made p.key → (w.objs p).s.dead = false →
    ∀ k, (w.objs p).s.tconn = some k → ∀ t, w.conns k = some t →
      Tracks k p (w.threads (.loop k)) t.sessions

theorem Bound.start (cfg : Config) : Bound (start cfg) where
  home u a h := by cases h
  loops k t h := by cases h
  atHead u k p a h := by cases h
  newest k t h := by cases h
  tracked p h := absurd h (Nat.not_lt_zero _)

section Run
variable {cfg : Config} {w w₁ : World} {a : HAct} {push rest : List HAct} {u : Thread}

theorem mem_loop_run (hdo : HDoes cfg w a w₁ push) (hu : w.threads u = a :: rest) {k : ConnId}
    {x : HAct} (hx : x ∈ w.threads (.loop k)) : .loop k = u ∧ x = a ∨
      x ∈ (w₁.setThread u (push ++ rest)).threads (.loop k) := by
  refine (mem_run_of_mem hdo hu hx).imp id fun h => h.resolve_right ?_
  rintro ⟨p, -, ⟨⟩⟩

theorem Bound.home_run (hI : Bound w) (hu : w.threads u = a :: rest) {k : ConnId}
    (hk : a.home = some k) : u = .loop k :=
  hI.home u a (by simp [hu]) k hk

theorem Bound.mem_register (hI : Bound w) (hK : Keyed w) (hO : Owned w) {k : ConnId} {t : Conn}
    (ht : w.conns k = some t) {q : Ptr} (hq : .act q (.register k) ∈ w.threads (.loop k)) {p : Ptr}
    (hp : p ∈ t.sessions) (hd : (w.objs p).s.dead = false) : p ∈ (t.register q).sessions := by
  by_cases hsid : p.key.sessionID = q.key.sessionID
  · have hactor := hO.acts (.loop k) t.actorID (by simp [World.owner, ownerOf, World.actor, ht]) _ hq
    have hkey : p.key = q.key := Key.ext ((hO.registered k t ht p hp).trans hactor.1.symm) hsid
    have hle := hI.newest k t ht q _ hq (.inr rfl) p hp hkey
    have hlt := hK.named (.loop k) _ hq q (by simp [HAct.names])
    obtain hgen | hgen := Nat.lt_or_ge (p.gen + 1) (w.made p.key)
    · rw [hK.earlier p hgen] at hd
      cases hd
    · obtain rfl : p = q := by
        rw [← hkey] at hlt
        exact Ptr.ext hkey (by omega)
      simp [Conn.register]
  · simp [Conn.register, hp, hsid]

theorem Bound.tracks_run (hI : Bound w) (hK : Keyed w) (hO : Owned w) (hdo : HDoes cfg w a w₁ push)
    (hu : w.threads u = a :: rest) {p : Ptr} (hd : (w.objs p).s.dead = false) {k : ConnId}
    {t t₁ : Conn} (ht : w.conns k = some t) (ht₁ : w₁.conns k = some t₁)
    (hne : a ≠ .act p (.detach k)) (h : Tracks k p (w.threads (.loop k)) t.sessions) :
    Tracks k p ((w₁.setThread u (push ++ rest)).threads (.loop k)) t₁.sessions := by
  have hhome (hk : a.home = some k) : u = .loop k := hI.home_run hu hk
  have hpush (huk : u = .loop k) {x : HAct} (hx : x ∈ push) :
      x ∈ (w₁.setThread u (push ++ rest)).threads (.loop k) := by
    rw [huk]
    simp [World.setThread, hx]
  rcases h with h | h | h | ⟨qs, h, hp⟩
  · have hturn := hdo.turns k
    rw [ht, ht₁] at hturn
    cases hturn with
    | same | wrote => exact .inl h
    | emptied t ha =>
      subst ha
      refine .inr (.inr (.inr ⟨t.sessions, hpush (hhome rfl) ?_, h⟩))
      cases hdo with
      | detachAll k t' ht' =>
        cases ht.symm.trans ht'
        simp
    | registered t q ha =>
      subst ha
      have hq : .act q (.register k) ∈ w.threads (.loop k) := by
        rw [← hhome rfl, hu]
        simp
      exact .inl (hI.mem_register hK hO ht hq h hd)
  · obtain ⟨-, rfl⟩ | h := mem_loop_run hdo hu h
    · cases hdo with
      | act _ _ c r hr =>
        cases hr with
        | register =>
          simp only [World.actOn, World.effect, World.setObj, World.setConn, List.foldl_cons,
            List.foldl_nil, ht, Function.update_self, Option.some.injEq] at ht₁
          rw [← ht₁]
          exact .inl (by simp [Conn.register])
    · exact .inr (.inl h)
  · obtain ⟨-, rfl⟩ | h := mem_loop_run hdo hu h
    · exact absurd rfl hne
    · exact .inr (.inr (.inl h))
  · obtain ⟨huk, rfl⟩ | h := mem_loop_run hdo hu h
    · cases hdo with
      | detaching k qs i q hq =>
        obtain ⟨j, hj⟩ := List.mem_iff_getElem?.mp hp
        by_cases hij : j = i
        · subst hij
          cases hq.symm.trans hj
          exact .inr (.inr (.inl (hpush huk.symm (by simp))))
        · refine .inr (.inr (.inr ⟨qs.eraseIdx i, hpush huk.symm (by simp), ?_⟩))
          exact List.mem_eraseIdx_iff_getElem?.mpr ⟨j, hij, hj⟩
      | detached => cases hp
    · exact .inr (.inr (.inr ⟨qs, h, hp⟩))

theorem Bound.sessions_run (hI : Bound w) (hdo : HDoes cfg w a w₁ push)
    (hu : w.threads u = a :: rest) {k : ConnId} {t t₁ : Conn} (ht : w.conns k = some t)
    (ht₁ : w₁.conns k = some t₁) (hne : .loop k ≠ u) : t₁.sessions = t.sessions := by
  apply hdo.sessions ht ht₁
  · rintro rfl
    exact hne (hI.home_run hu rfl).symm
  · rintro p rfl
    exact hne (hI.home_run hu rfl).symm

theorem Bound.newest_run (hI : Bound w) (hK : Keyed w) (hdo : HDoes cfg w a w₁ push)
    (hu : w.threads u = a :: rest) {k : ConnId} {t t₁ : Conn} (ht : w.conns k = some t)
    (ht₁ : w₁.conns k = some t₁) {p q : Ptr} {x : HAct}
    (hx : x ∈ (w₁.setThread u (push ++ rest)).threads (.loop k)) (hb : x.binds k p)
    (hq : q ∈ t₁.sessions) (hkey : q.key = p.key) : q.gen ≤ p.gen := by
  obtain ⟨hx, hrest⟩ | ⟨-, hx⟩ | ⟨p, -, -, rfl⟩ := mem_threads_run hdo hu hx
  · have hne : Thread.loop k ≠ u := by
      intro h
      refine hI.atHead u k p x ?_ hb
      rw [hu]
      exact hrest h
    rw [hI.sessions_run hdo hu ht ht₁ hne] at hq
    exact hI.newest k t ht p x hx hb q hq hkey
  · obtain ⟨hall, hreg, h⟩ := (hdo.binds hK).2 x hx hb
    rw [hdo.sessions ht ht₁ (hall k) fun p => hreg p k] at hq
    rcases h with rfl | hnew
    · -- `bind` has left the session's lock and goes on to register it
      refine hI.newest k t ht p (.act p (.bind k)) ?_ (.inl rfl) q hq hkey
      rw [← hI.home_run hu rfl, hu]
      simp
    · exact hnew q (hK.registered k t ht q hq) hkey
  · simp [HAct.binds] at hb

theorem Bound.tracked_run (hI : Bound w) (hK : Keyed w) (hO : Owned w)
    (hdo : HDoes cfg w a w₁ push) (hu : w.threads u = a :: rest) {k : ConnId} {t t₁ : Conn}
    (ht : w.conns k = some t) (ht₁ : w₁.conns k = some t₁) {p : Ptr} (hp : p.gen < w₁.made p.key)
    (hd : (w₁.objs p).s.dead = false) (hk : (w₁.objs p).s.tconn = some k) :
    Tracks k p ((w₁.setThread u (push ++ rest)).threads (.loop k)) t₁.sessions := by
  have htracks (hp : p.gen < w.made p.key) (hd : (w.objs p).s.dead = false)
      (hk : (w.objs p).s.tconn = some k) (hne : a ≠ .act p (.detach k)) :
      Tracks k p ((w₁.setThread u (push ++ rest)).threads (.loop k)) t₁.sessions :=
    hI.tracks_run hK hO hdo hu hd ht ht₁ hne (hI.tracked p hp hd k hk t ht)
  obtain ⟨j, sid, target, c, rfl, -, hs, rfl, -⟩ | ⟨q, b, c, r, rfl, hr, rfl, rfl⟩ |
    ⟨hne, ho, hm, -⟩ := hdo.objs
  · -- a new session is bound to no connection
    have hnew : p ≠ ⟨⟨c.actorID, sid⟩, w.made ⟨c.actorID, sid⟩⟩ := by
      rintro rfl
      simp [World.make, newSession] at hk
    have hp' : p.gen < w.made p.key := by
      by_cases hkey : p.key = ⟨c.actorID, sid⟩
      · have hlt : p.gen < w.made p.key + 1 := by
          simpa [World.make, hkey] using hp
        have hgen : p.gen ≠ w.made p.key := fun h => hnew (Ptr.ext hkey (by rw [h, hkey]))
        omega
      · simpa [World.make, Function.update_of_ne hkey] using hp
    simp only [World.make, Function.update_of_ne hnew] at hd hk
    exact htracks hp' hd hk (by simp)
  · obtain ⟨hm, ho, -, -⟩ := actOn_frame hr
    rw [hm] at hp
    rw [ho] at hd hk
    by_cases hq : p = q
    · subst hq
      simp only [Function.update_self, Obj.after] at hd hk
      have hd' : (w.objs p).s.dead = false := by
        by_contra h
        rw [hr.dead_mono (by simpa using h)] at hd
        cases hd
      obtain ⟨rfl, hpush⟩ | ⟨hk, hb⟩ := Does.tconn hr hk
      · refine .inr (.inl ?_)
        rw [hI.home_run hu rfl]
        simp [World.setThread, hpush]
      · exact htracks hp hd' hk (by simpa using hb)
    · simp only [Function.update_of_ne hq] at hd hk
      refine htracks hp hd hk ?_
      rintro ⟨⟩
      exact hq rfl
  · rw [hm] at hp
    rw [ho] at hd hk
    exact htracks hp hd hk (hne p _)

theorem Bound.run (hI : Bound w) (hK : Keyed w) (hO : Owned w) (hdo : HDoes cfg w a w₁ push)
    (hu : w.threads u = a :: rest) : Bound (w₁.setThread u (push ++ rest)) := by
  refine ⟨fun v x hx k hk => ?_, fun k t₁ ht₁ => ?_, fun v k p x hx => ?_,
    fun k t₁ ht₁ p x hx hb q hq hkey => ?_, fun p hp hd k hk t₁ ht₁ => ?_⟩
  · obtain ⟨hx, -⟩ | ⟨hv, hx⟩ | ⟨p, -, -, rfl⟩ := mem_threads_run hdo hu hx
    · exact hI.home v x hx k hk
    · rw [hv]
      exact hI.home_run hu (hdo.home x hx k hk)
    · cases hk
  · obtain ⟨t, ht⟩ := hdo.conn_of_conn ht₁
    have hloop := hI.loops k t ht
    rcases threads_run hdo hu (.loop k) with ⟨rfl, h⟩ | ⟨hne, h⟩ | ⟨p, -, -, h, -⟩
    · rw [hu] at hloop
      rw [h]
      exact hloop.run hdo ht ht₁
    · rw [h, hI.sessions_run hdo hu ht ht₁ hne]
      exact hloop
    · cases h
  · refine (mem_tail_run hdo hu hx).elim (hI.atHead v k p x) fun hx => ?_
    exact (hdo.binds hK).1 x hx
  · obtain ⟨t, ht⟩ := hdo.conn_of_conn ht₁
    exact hI.newest_run hK hdo hu ht ht₁ hx hb hq hkey
  · obtain ⟨t, ht⟩ := hdo.conn_of_conn ht₁
    exact hI.tracked_run hK hO hdo hu ht ht₁ hp hd hk

end Run

theorem Bound.step {cfg : Config} {w w' : World} {e : Event} (hI : Bound w) (hK : Keyed w)
    (hO : Owned w) (h : step cfg w e = some w') : Bound w' := by
  cases step_steps h with
  | hello k first hk hf =>
    -- nothing has been bound to the connection before
    have hold {j : ConnId} (hj : j ≠ k) :
        ((w.setConn k ⟨first.actorID, [], [], false⟩).setThread (.loop k) [.readFrame k]).threads
          (.loop j) = w.threads (.loop j) :=
      Function.update_of_ne (by simpa using hj) ..
    refine ⟨fun u x hx j hj => ?_, fun j t ht => ?_, fun u j p x hx => ?_,
      fun j t ht p x hx hb q hq => ?_, fun p hp hd j hj t ht => ?_⟩
    · obtain ⟨rfl, rfl⟩ | hx := mem_started hx
      · rw [Option.some.inj hj]
      · exact hI.home u x hx j hj
    · obtain ⟨rfl, rfl⟩ | ⟨hne, ht⟩ := conns_setConn ht
      · simp only [World.setThread, Function.update_self]
        exact .serving [] _
      · rw [hold hne]
        exact hI.loops j t ht
    · exact hI.atHead u j p x (mem_tail_started hx)
    · obtain ⟨rfl, rfl⟩ | ⟨hne, ht⟩ := conns_setConn ht
      · cases hq
      · rw [hold hne] at hx
        exact hI.newest j t ht p x hx hb q hq
    · obtain ⟨rfl, rfl⟩ | ⟨hne, ht⟩ := conns_setConn ht
      · have := hO.bound p j hj
        rw [World.actor, hk] at this
        cases this
      · rw [hold hne]
        exact hI.tracked p hp hd j hj t ht
  | refused k first hf => exact hI
  | run t c a rest push w₁ ht hdo => exact hI.run hK hO hdo ht
  | fire p hp =>
    have hloop (j : ConnId) : ((w.setObj p (w.objs p).fire).setThread (.timer p (w.objs p).fired)
        [.act p .watchdog]).threads (.loop j) = w.threads (.loop j) := by
      simp [World.setThread, World.setObj]
    refine ⟨fun u x hx j hj => ?_, fun j t ht => ?_, fun u j q x hx => ?_, fun j t ht q x hx => ?_,
      fun q hq hd j hj t ht => ?_⟩
    · obtain ⟨-, rfl⟩ | hx := mem_started hx
      · cases hj
      · exact hI.home u x hx j hj
    · rw [hloop]
      exact hI.loops j t ht
    · exact hI.atHead u j q x (mem_tail_started hx)
    · rw [hloop] at hx
      exact hI.newest j t ht q x hx
    · obtain ⟨wd, hwd⟩ := update_fire w p q
      simp only [World.setThread, World.setObj, hwd] at hd hj
      rw [hloop]
      exact hI.tracked q hq hd j hj t ht
  | resumer A c st => exact { hI with }
  | exit A => exact { hI with }

theorem bound_run {cfg : Config} {es : List Event} {w : World}
    (hrun : run (step cfg) (start cfg) es = some w) : Owned w ∧ Keyed w ∧ Bound w := by
  refine run_preserves (I := fun w => Owned w ∧ Keyed w ∧ Bound w) ?_
    ⟨Owned.start cfg, Keyed.start cfg, Bound.start cfg⟩ hrun
  rintro s e s' ⟨hO, hK, hB⟩ h
  exact ⟨hO.step h, hK.step hO h, hB.step hK hO h⟩

/-- `detachAll` of the connection has completed. -/
def World.Left (w : World) (k : ConnId) : Prop :=
  (w.conns k).isSome = true ∧ ∀ a ∈ w.threads (.loop k), a = .closeConn k

instance (w : World) (k : ConnId) : Decidable (w.Left k) :=
  inferInstanceAs (Decidable (_ ∧ _))

theorem Bound.unbound {w : World} (hI : Bound w) {k : ConnId} (hk : w.Left k) {p : Ptr}
    (hp : p.gen < w.made p.key) (hd : (w.objs p).s.dead = false) : (w.objs p).s.tconn ≠ some k := by
  intro htc
  obtain ⟨hsome, hacts⟩ := hk
  obtain ⟨t, ht⟩ := Option.isSome_iff_exists.mp hsome
  have hnil : t.sessions = [] := by
    have hloop := hI.loops k t ht
    generalize w.threads (.loop k) = l at hloop hacts
    generalize t.sessions = ps at hloop
    cases hloop with
    | serving l => cases hacts (.readFrame k) (by simp)
    | leaving => cases hacts (.detachAll k) (by simp)
    | detaching | closing | ended => rfl
  rcases hI.tracked p hp hd k htc t ht with h | h | h | ⟨qs, h, -⟩
  · rw [hnil] at h
    cases h
  · cases hacts _ h
  · cases hacts _ h
  · cases hacts _ h

/-- No live session stays bound to a connection whose `detachAll` has completed, and a live session
is the one stored under its own key. -/
theorem live_unbound_and_stored {cfg : Config} {es : List Event} {w : World}
    (hrun : run (step cfg) (start cfg) es = some w) :
    (∀ k, w.Left k → ∀ p, p.gen < w.made p.key → (w.objs p).s.dead = false →
      (w.objs p).s.tconn ≠ some k) ∧
    ∀ p, p.gen < w.made p.key → (w.objs p).s.dead = false →
      w.lookup (w.objs p).s.actorID (w.objs p).s.sessionID = some p := by
  obtain ⟨hO, hK, hB⟩ := bound_run hrun
  refine ⟨fun k hk p hp hd => hB.unbound hk hp hd, fun p hp hd => ?_⟩
  obtain ⟨hactor, hsid⟩ := hO.named p
  rw [World.lookup, hactor, hsid, (hK.of_alive hp hd).1]
  rfl

def moved : List Event :=
  -- the session moves to another tunnel, is opened there once more, and the first tunnel ends
  openOn 0 [97] [120] ++
    [.accept 1 { type := FrameType.typeHello.byte, actorID := [97] },
      .run (.loop 1) (.frame (Msg.attach 1 0 [120]).frame)] ++
    List.replicate 7 (.run (.loop 1) (.io .ok)) ++
    [.run (.loop 1) (.frame (Msg.opn 1 [120]).frame)] ++
    List.replicate 4 (.run (.loop 1) (.io .ok)) ++
    [.run (.loop 0) (.io (.fail 0 [])), .run (.loop 0) (.io .ok), .run (.loop 0) (.pick 0),
      .run (.loop 0) (.io .ok), .run (.loop 0) (.io .ok)]

theorem unbound_moved : ∃ w, run (step demo) (start demo) moved = some w ∧ w.Left 0 ∧
    (w.objs ⟨⟨[97], 1⟩, 0⟩).s.dead = false ∧ (w.objs ⟨⟨[97], 1⟩, 0⟩).s.tconn = some 1 ∧
    (w.objs ⟨⟨[97], 1⟩, 0⟩).s.tconn ≠ some 0 ∧ w.lookup [97] 1 = some ⟨⟨[97], 1⟩, 0⟩ := by
  have hrun := (rfl : run (step demo) (start demo) moved = some _)
  obtain ⟨hleft, hstored⟩ := live_unbound_and_stored hrun
  exact ⟨_, hrun, by decide, rfl, rfl, hleft 0 (by decide) ⟨⟨[97], 1⟩, 0⟩ (by decide) rfl,
    hstored ⟨⟨[97], 1⟩, 0⟩ (by decide) rfl⟩

end SubstratePoc.Server
