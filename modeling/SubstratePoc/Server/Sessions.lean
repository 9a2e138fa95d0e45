import SubstratePoc.Server.Owned

namespace SubstratePoc.Server
open Lib Tunnel Broker Resumer

/-- The sessions that an action names. -/
def HAct.names : HAct → List Ptr
  | .act p _ | .startDial p => [p]
  | .detaching _ ps => ps
  | _ => []

/-- How the sessions made for the keys, the map and the goroutines that destroy a session stand
to each other. -/
structure Keyed (w : World) : Prop where
  earlier : ∀ p, p.gen + 1 < w.made p.key → (w.objs p).s.dead = true
  absent : ∀ key, w.sessions key = none → ∀ g < w.made key, (w.objs ⟨key, g⟩).s.dead = true
  latest : ∀ key g, w.sessions key = some g → g + 1 = w.made key
  named : ∀ t, ∀ a ∈ w.threads t, ∀ p ∈ a.names, p.gen < w.made p.key
  registered : ∀ k t, w.conns k = some t → ∀ p ∈ t.sessions, p.gen < w.made p.key
  atHead : ∀ t p, .act p .removeSession ∉ (w.threads t).tail
  removing : ∀ t p, .act p .removeSession ∈ w.threads t →
    w.sessions p.key = some p.gen ∧ (w.objs p).s.dead = true
  once : ∀ t u p, .act p .removeSession ∈ w.threads t → .act p .removeSession ∈ w.threads u → t = u

theorem Keyed.start (cfg : Config) : Keyed (start cfg) where
  earlier p h := absurd h (Nat.not_lt_zero _)
  absent key _ g h := absurd h (Nat.not_lt_zero _)
  latest key g h := by cases h
  named t a h := by cases h
  registered k t h := by cases h
  atHead t p h := by cases h
  removing t p h := by cases h
  once t u p h := by cases h

theorem Keyed.of_alive {w : World} (hI : Keyed w) {p : Ptr} (hp : p.gen < w.made p.key)
    (hd : (w.objs p).s.dead = false) : w.sessions p.key = some p.gen ∧ p.gen + 1 = w.made p.key := by
  have hlast : p.gen + 1 = w.made p.key := by
    by_contra hne
    rw [hI.earlier p (by omega)] at hd
    cases hd
  cases hs : w.sessions p.key with
  | none =>
    rw [hI.absent p.key hs p.gen hp] at hd
    cases hd
  | some g =>
    have hg := hI.latest p.key g hs
    rw [show g = p.gen by omega]
    exact ⟨rfl, hlast⟩

theorem HDoes.made_le {cfg : Config} {w w₁ : World} {a : HAct} {push : List HAct}
    (h : HDoes cfg w a w₁ push) (key : Key) : w.made key ≤ w₁.made key := by
  obtain ⟨k, sid, target, t, -, -, -, rfl, -⟩ | ⟨p, b, c, r, rfl, hr, rfl, -⟩ | ⟨-, -, hm, -⟩ := h.objs
  · by_cases hk : key = ⟨t.actorID, sid⟩
    · subst hk
      simp [World.make]
    · simp [World.make, Function.update_of_ne hk]
  · rw [(actOn_frame hr).1]
  · rw [hm]

theorem HDoes.named {cfg : Config} {w w₁ : World} {a : HAct} {push : List HAct}
    (h : HDoes cfg w a w₁ push) (hI : Keyed w) (ha : ∀ p ∈ a.names, p.gen < w.made p.key) :
    ∀ b ∈ push, ∀ p ∈ b.names, p.gen < w₁.made p.key := by
  -- what an action leaves to do names sessions that have been made
  have hlatest {key : Key} {g : ℕ} (hs : w.sessions key = some g) : g < w.made key :=
    (hI.latest key g hs) ▸ Nat.lt_succ_self g
  cases h with
  | readFrame | readFail | openRefused | openAgain | recreate | lost => simp [HAct.names]
  | handleFrame k f t ht =>
    intro b hb p hp
    cases mem_handleFrame hb with
    | reply | openSession | attachSession => cases hp
    | onData q hq | onDownstreamAck q hq | onSidecarClose q hq =>
      obtain ⟨g, hs, rfl⟩ := Option.map_eq_some_iff.mp hq
      rw [List.mem_singleton.mp hp]
      exact hlatest hs
  | openSession k sid target t ht hs => simp [HAct.names, World.make]
  | attach k sid offset target t ht g hs => simpa [HAct.names] using hlatest hs
  | reattach k sid offset t ht g hs => simpa [HAct.names] using hlatest hs
  | act p a c r hr =>
    intro b hb q hq
    obtain ⟨x, -, rfl⟩ := List.mem_map.mp hb
    rw [(actOn_frame hr).1]
    exact ha q hq
  | detachAll k t ht =>
    simp only [List.mem_singleton, forall_eq]
    exact hI.registered k t ht
  | detaching k ps i p hp =>
    simp only [List.mem_cons, List.not_mem_nil, or_false, forall_eq_or_imp, forall_eq]
    refine ⟨fun q hq => ?_, fun q hq => ha q (List.mem_of_mem_eraseIdx hq)⟩
    rw [List.mem_singleton.mp hq]
    exact ha p (List.mem_of_getElem? hp)
  | reattachGone | startDial | reply | replyFail | detached | closeConn => simp

theorem HDoes.removes {cfg : Config} {w w₁ : World} {a : HAct} {push : List HAct}
    (h : HDoes cfg w a w₁ push) : (∃ p, a = .act p .destroy ∧ (w.objs p).s.dead = false ∧
      push = [.act p .removeSession]) ∨ ∀ p, .act p .removeSession ∉ push := by
  -- only the first `destroy` of a session leaves its key to be removed, next and by its own
  -- goroutine
  cases h with
  | act p a c r hr =>
    by_cases hd : a = .destroy ∧ (w.objs p).s.dead = false
    · obtain ⟨rfl, hd⟩ := hd
      cases hr with
      | destroyAgain _ hd' =>
        rw [hd] at hd'
        cases hd'
      | destroy => exact .inl ⟨p, rfl, hd, rfl⟩
    · refine .inr fun q hq => ?_
      obtain ⟨x, hx, heq⟩ := List.mem_map.mp hq
      obtain ⟨-, rfl⟩ := HAct.act.inj heq
      exact (hr.dead_eq fun ha => by simpa [ha] using hd).2.1 hx
  | handleFrame k f t ht =>
    refine .inr fun p hp => ?_
    cases mem_handleFrame hp
  | _ => exact .inr (by simp)

theorem Keyed.threads_run {cfg : Config} {w w₁ : World} {a : HAct} {push rest : List HAct}
    {t : Thread} (hI : Keyed w) (hdo : HDoes cfg w a w₁ push) (ht : w.threads t = a :: rest) :
    (∀ u, ∀ x ∈ (w₁.setThread t (push ++ rest)).threads u, ∀ p ∈ x.names, p.gen < w₁.made p.key) ∧
    (∀ k c, w₁.conns k = some c → ∀ p ∈ c.sessions, p.gen < w₁.made p.key) ∧
    (∀ u p, .act p .removeSession ∉ ((w₁.setThread t (push ++ rest)).threads u).tail) ∧
    ∀ u p, .act p .removeSession ∈ (w₁.setThread t (push ++ rest)).threads u →
      .act p .removeSession ∈ w.threads u ∧ u ≠ t ∨ u = t ∧ .act p .removeSession ∈ push := by
  -- a run keeps what the goroutines know of the keys
  have hnames : ∀ p ∈ a.names, p.gen < w.made p.key := hI.named t a (by simp [ht])
  have hrest (p : Ptr) : .act p .removeSession ∉ rest := by
    have := hI.atHead t p
    rwa [ht] at this
  refine ⟨fun u x hx p hp => ?_, fun k c hc p hp => ?_, fun u p hp => ?_, fun u p hp => ?_⟩
  · obtain ⟨hx, -⟩ | ⟨-, hx⟩ | ⟨q, rfl, -, rfl⟩ := mem_threads_run hdo ht hx
    · exact (hI.named u x hx p hp).trans_le (hdo.made_le p.key)
    · exact hdo.named hI hnames x hx p hp
    · exact (hnames p hp).trans_le (hdo.made_le p.key)
  · have hturn := hdo.turns k
    generalize hk : w.conns k = c₀ at hturn
    rw [hc] at hturn
    refine lt_of_lt_of_le ?_ (hdo.made_le p.key)
    cases hturn with
    | same => exact hI.registered k c hk p hp
    | wrote c sent closed => exact hI.registered k c hk p hp
    | emptied c => cases hp
    | registered c q heq =>
      subst heq
      rcases List.mem_append.mp hp with hp | hp
      · exact hI.registered k c hk p (List.mem_filter.mp hp).1
      · rw [List.mem_singleton.mp hp]
        exact hnames q (by simp [HAct.names])
  · refine (mem_tail_run hdo ht hp).elim (hI.atHead u p) fun hp => ?_
    obtain ⟨q, rfl, -, rfl⟩ | hpush := hdo.removes
    · cases hp
    · exact hpush p (List.mem_of_mem_tail hp)
  · obtain ⟨hx, hxt⟩ | ⟨rfl, hx⟩ | ⟨q, -, -, hx⟩ := mem_threads_run hdo ht hp
    · exact .inl ⟨hx, fun hu => hrest p (hxt hu)⟩
    · exact .inr ⟨rfl, hx⟩
    · cases hx

section Step
variable {w w' : World}

theorem Keyed.of_quiet (hI : Keyed w) (hmade : w'.made = w.made) (hsessions : w'.sessions = w.sessions)
    (hdead : ∀ p, (w'.objs p).s.dead = (w.objs p).s.dead)
    (hnamed : ∀ t, ∀ a ∈ w'.threads t, ∀ p ∈ a.names, p.gen < w'.made p.key)
    (hreg : ∀ k t, w'.conns k = some t → ∀ p ∈ t.sessions, p.gen < w'.made p.key)
    (hhead : ∀ t p, .act p .removeSession ∉ (w'.threads t).tail)
    (hrem : ∀ t p, .act p .removeSession ∈ w'.threads t → .act p .removeSession ∈ w.threads t) :
    Keyed w' where
  earlier p h := by
  -- steps that make no session and destroy none
    rw [hdead]
    exact hI.earlier p (hmade ▸ h)
  absent key h g hg := by
    rw [hdead]
    exact hI.absent key (hsessions ▸ h) g (hmade ▸ hg)
  latest key g h := by
    rw [hmade]
    exact hI.latest key g (hsessions ▸ h)
  named := hnamed
  registered := hreg
  atHead := hhead
  removing t p h := by
    rw [hsessions, hdead]
    exact hI.removing t p (hrem t p h)
  once t u p ht hu := hI.once t u p (hrem t p ht) (hrem u p hu)

variable {cfg : Config} {w₁ : World} {a : HAct} {push rest : List HAct} {t : Thread}

theorem Keyed.of_make (hI : Keyed w) (ht : w.threads t = a :: rest) {k : ConnId} {c : Conn}
    {sid : UInt64} {target : Bytes} (hdo : HDoes cfg w a (w.make cfg ⟨c.actorID, sid⟩ target) push)
    (hs : w.sessions ⟨c.actorID, sid⟩ = none)
    (hpush : push = [.act ⟨⟨c.actorID, sid⟩, w.made ⟨c.actorID, sid⟩⟩ (.bind k),
      .startDial ⟨⟨c.actorID, sid⟩, w.made ⟨c.actorID, sid⟩⟩]) :
    Keyed ((w.make cfg ⟨c.actorID, sid⟩ target).setThread t (push ++ rest)) := by
  -- `openSession` finds the key absent
  obtain ⟨hnamed, hreg, hhead, hrem⟩ := hI.threads_run hdo ht
  have hold (p : Ptr) (hp : p.gen < w.made p.key) (hd : (w.objs p).s.dead = true) :
      ((w.make cfg ⟨c.actorID, sid⟩ target).objs p).s.dead = true := by
    have hne : p ≠ ⟨⟨c.actorID, sid⟩, w.made ⟨c.actorID, sid⟩⟩ := by
      rintro rfl
      exact lt_irrefl _ hp
    simpa only [World.make, Function.update_of_ne hne] using hd
  have hrem' (u : Thread) (p : Ptr) (hp : .act p .removeSession ∈
      ((w.make cfg ⟨c.actorID, sid⟩ target).setThread t (push ++ rest)).threads u) :
      .act p .removeSession ∈ w.threads u := by
    refine (hrem u p hp).elim (fun h => h.1) fun h => ?_
    rw [hpush] at h
    simp at h
  refine ⟨fun p hp => ?_, fun key hk g hg => ?_, fun key g hk => ?_, hnamed, hreg, hhead,
    fun u p hp => ?_, fun u v p hu hv => hI.once u v p (hrem' u p hu) (hrem' v p hv)⟩
  · -- every earlier session of this key is dead, as the key is absent
    by_cases hpk : p.key = ⟨c.actorID, sid⟩
    · have hlt : p.gen < w.made p.key := by
        simpa [World.setThread, World.make, hpk] using hp
      exact hold p hlt (hI.absent p.key (hpk ▸ hs) p.gen hlt)
    · have hlt : p.gen + 1 < w.made p.key := by
        simpa [World.setThread, World.make, Function.update_of_ne hpk] using hp
      exact hold p (by omega) (hI.earlier p hlt)
  · have hne : key ≠ ⟨c.actorID, sid⟩ := by
      rintro rfl
      simp [World.setThread, World.make] at hk
    simp only [World.setThread, World.make, Function.update_of_ne hne] at hk hg
    exact hold ⟨key, g⟩ hg (hI.absent key hk g hg)
  · by_cases hne : key = ⟨c.actorID, sid⟩
    · subst hne
      simp only [World.setThread, World.make, Function.update_self, Option.some.injEq] at hk ⊢
      omega
    · simp only [World.setThread, World.make, Function.update_of_ne hne] at hk ⊢
      exact hI.latest key g hk
  · obtain ⟨hsome, hdead⟩ := hI.removing u p (hrem' u p hp)
    have hne : p.key ≠ ⟨c.actorID, sid⟩ := by
      intro h
      rw [h, hs] at hsome
      cases hsome
    have hlt := hI.latest p.key p.gen hsome
    refine ⟨?_, hold p (by omega) hdead⟩
    simpa only [World.setThread, World.make, Function.update_of_ne hne] using hsome

theorem Keyed.of_destroy (hI : Keyed w) {p : Ptr} (ht : w.threads t = .act p .destroy :: rest)
    (hdo : HDoes cfg w (.act p .destroy) w₁ [.act p .removeSession])
    (hd : (w.objs p).s.dead = false) (hmade : w₁.made = w.made) (hsessions : w₁.sessions = w.sessions)
    (hself : (w₁.objs p).s.dead = true) (hother : ∀ q ≠ p, w₁.objs q = w.objs q) :
    Keyed (w₁.setThread t ([.act p .removeSession] ++ rest)) := by
  -- the first `destroy` of a session
  obtain ⟨hnamed, hreg, hhead, hrem⟩ := hI.threads_run hdo ht
  have hlive := hI.of_alive (hI.named t (.act p .destroy) (by simp [ht]) p (by simp [HAct.names])) hd
  have hmono (q : Ptr) (hq : (w.objs q).s.dead = true) : (w₁.objs q).s.dead = true := by
    by_cases hqp : q = p
    · rwa [hqp]
    · rwa [hother q hqp]
  -- nobody is removing a session that is alive
  have hnone (u : Thread) : .act p .removeSession ∉ w.threads u := by
    intro hu
    rw [(hI.removing u p hu).2] at hd
    cases hd
  have hrem' (u : Thread) (q : Ptr) (hq : .act q .removeSession ∈
      (w₁.setThread t ([.act p .removeSession] ++ rest)).threads u) :
      .act q .removeSession ∈ w.threads u ∧ q ≠ p ∨ u = t ∧ q = p := by
    refine (hrem u q hq).imp (fun h => ⟨h.1, ?_⟩) fun h => ⟨h.1, by simpa using h.2⟩
    rintro rfl
    exact hnone u h.1
  refine ⟨fun q hq => ?_, fun key hk g hg => ?_, fun key g hk => ?_, hnamed, hreg, hhead,
    fun u q hq => ?_, fun u v q hu hv => ?_⟩
  · exact hmono q (hI.earlier q (hmade ▸ hq))
  · exact hmono ⟨key, g⟩ (hI.absent key (hsessions ▸ hk) g (hmade ▸ hg))
  · exact (hI.latest key g (hsessions ▸ hk)).trans (congrFun hmade key).symm
  · rcases hrem' u q hq with ⟨hq, -⟩ | ⟨-, rfl⟩
    · obtain ⟨hsome, hdead⟩ := hI.removing u q hq
      exact ⟨(congrFun hsessions q.key).trans hsome, hmono q hdead⟩
    · exact ⟨(congrFun hsessions q.key).trans hlive.1, hself⟩
  · rcases hrem' u q hu with ⟨hu, hne⟩ | ⟨rfl, rfl⟩ <;> rcases hrem' v q hv with ⟨hv, hne'⟩ | ⟨rfl, h⟩
    · exact hI.once u v q hu hv
    · exact absurd h hne
    · exact absurd rfl hne'
    · rfl

theorem Keyed.of_remove (hI : Keyed w) {p : Ptr} (ht : w.threads t = .act p .removeSession :: rest)
    (hdo : HDoes cfg w (.act p .removeSession) w₁ []) (hmade : w₁.made = w.made)
    (hsessions : w₁.sessions = Function.update w.sessions p.key none)
    (hdead : ∀ q, (w₁.objs q).s.dead = (w.objs q).s.dead) :
    Keyed (w₁.setThread t ([] ++ rest)) := by
  -- the key of a dead session is removed
  obtain ⟨hnamed, hreg, hhead, hrem⟩ := hI.threads_run hdo ht
  have hmem : .act p .removeSession ∈ w.threads t := by simp [ht]
  obtain ⟨hsome, hp⟩ := hI.removing t p hmem
  have hrem' (u : Thread) (q : Ptr) (hq : .act q .removeSession ∈
      (w₁.setThread t ([] ++ rest)).threads u) : .act q .removeSession ∈ w.threads u ∧ u ≠ t :=
    (hrem u q hq).resolve_right fun h => by cases h.2
  refine ⟨fun q hq => ?_, fun key hk g hg => ?_, fun key g hk => ?_, hnamed, hreg, hhead,
    fun u q hq => ?_, fun u v q hu hv => hI.once u v q (hrem' u q hu).1 (hrem' v q hv).1⟩
  · exact (hdead q).trans (hI.earlier q (hmade ▸ hq))
  · have hg' : g < w.made key := hmade ▸ hg
    refine (hdead ⟨key, g⟩).trans ?_
    by_cases hkey : key = p.key
    · subst hkey
      have hlast := hI.latest p.key p.gen hsome
      by_cases hgen : g = p.gen
      · rw [hgen]
        exact hp
      · exact hI.earlier ⟨p.key, g⟩ (show g + 1 < w.made p.key by omega)
    · refine hI.absent key ?_ g hg'
      rwa [show (World.setThread w₁ t _).sessions key = w.sessions key by
        simp [World.setThread, hsessions, Function.update_of_ne hkey]] at hk
  · have hkey : key ≠ p.key := by
      rintro rfl
      simp [World.setThread, hsessions] at hk
    simp only [World.setThread, hsessions, Function.update_of_ne hkey] at hk
    exact (hI.latest key g hk).trans (congrFun hmade key).symm
  · obtain ⟨hq, hne⟩ := hrem' u q hq
    obtain ⟨hsome', hdead'⟩ := hI.removing u q hq
    have hkey : q.key ≠ p.key := by
      intro h
      have hgen : q.gen = p.gen := by
        rw [h, hsome] at hsome'
        exact (Option.some.inj hsome').symm
      obtain rfl : q = p := Ptr.ext h hgen
      exact hne (hI.once u t q hq hmem)
    refine ⟨?_, (hdead q).trans hdead'⟩
    simpa [World.setThread, hsessions, Function.update_of_ne hkey] using hsome'

theorem Keyed.run (hI : Keyed w) (hO : Owned w) (ht : w.threads t = a :: rest)
    (hdo : HDoes cfg w a w₁ push) : Keyed (w₁.setThread t (push ++ rest)) := by
  obtain ⟨hnamed, hreg, hhead, hrem⟩ := hI.threads_run hdo ht
  obtain ⟨k, sid, target, c, -, -, hs, rfl, hpush⟩ | ⟨p, b, ch, r, rfl, hr, rfl, rfl⟩ |
    ⟨hne, ho, hm, hs⟩ := hdo.objs
  · exact hI.of_make ht hdo hs hpush
  · obtain ⟨hm, ho, -, hs⟩ := actOn_frame hr
    have hother (q : Ptr) (hq : q ≠ p) : (w.actOn p r).objs q = w.objs q := by
      rw [ho, Function.update_of_ne hq]
    have hself : ((w.actOn p r).objs p).s = r.s := by
      rw [ho, Function.update_self]
      rfl
    by_cases hd : b = .destroy ∧ (w.objs p).s.dead = false
    · obtain ⟨rfl, hd⟩ := hd
      cases hr with
      | destroyAgain _ hd' =>
        rw [hd] at hd'
        cases hd'
      | destroy => exact hI.of_destroy ht hdo hd hm (by simpa using hs) (by rw [hself]) hother
    · obtain ⟨hdead, hpush, heff⟩ := hr.dead_eq fun hb => by simpa [hb] using hd
      have hdead (q : Ptr) : ((w.actOn p r).objs q).s.dead = (w.objs q).s.dead := by
        by_cases hq : q = p
        · rw [hq, hself, hdead]
        · rw [hother q hq]
      by_cases hb : b = .removeSession
      · subst hb
        cases hr with
        | removeSession =>
          refine hI.of_remove ht hdo hm ?_ hdead
          obtain ⟨hactor, hsid⟩ := hO.named p
          rw [hs, if_pos (by simp), hactor, hsid]
      · refine hI.of_quiet hm (hs.trans (if_neg (heff hb))) hdead hnamed hreg hhead
          fun u q hq => ?_
        refine (hrem u q hq).elim (fun h => h.1) fun h => ?_
        obtain ⟨x, hx, heq⟩ := List.mem_map.mp h.2
        obtain ⟨-, rfl⟩ := HAct.act.inj heq
        exact absurd hx hpush
  · refine hI.of_quiet hm hs (fun q => congrArg (fun o => o.s.dead) (congrFun ho q)) hnamed hreg
      hhead fun u q hq => ?_
    refine (hrem u q hq).elim (fun h => h.1) fun h => ?_
    obtain ⟨p, rfl, -⟩ | hpush := hdo.removes
    · exact absurd rfl (hne p .destroy)
    · exact absurd h.2 (hpush q)

theorem Keyed.step {e : Event} (hI : Keyed w) (hO : Owned w) (h : step cfg w e = some w') :
    Keyed w' := by
  cases step_steps h with
  | hello k first hk hf =>
    refine hI.of_quiet rfl rfl (fun _ => rfl) (fun u x hx p hp => ?_) (fun j c hc => ?_)
      (fun u p hp => ?_) fun u p hp => ?_
    · obtain ⟨-, rfl⟩ | hx := mem_started hx
      · cases hp
      · exact hI.named u x hx p hp
    · obtain ⟨-, rfl⟩ | ⟨-, hc⟩ := conns_setConn hc
      · simp
      · exact hI.registered j c hc
    · exact hI.atHead u p (mem_tail_started hp)
    · obtain ⟨-, hp⟩ | hp := mem_started hp
      · cases hp
      · exact hp
  | refused k first hf => exact hI
  | run t c a rest push w₁ ht hdo => exact hI.run hO ht hdo
  | fire p hp =>
    refine hI.of_quiet rfl rfl (fun q => ?_) (fun u x hx q hq => ?_) hI.registered
      (fun u q hq => ?_) fun u q hq => ?_
    · obtain ⟨wd, hwd⟩ := update_fire w p q
      simp only [World.setThread, World.setObj, hwd]
    · obtain ⟨-, rfl⟩ | hx := mem_started hx
      · rw [List.mem_singleton.mp hq]
        exact hp
      · exact hI.named u x hx q hq
    · exact hI.atHead u q (mem_tail_started hq)
    · obtain ⟨-, hq⟩ | hq := mem_started hq
      · cases hq
      · exact hq
  | resumer A c st => exact { hI with }
  | exit A => exact { hI with }

end Step

end SubstratePoc.Server
