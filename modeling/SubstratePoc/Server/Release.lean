import SubstratePoc.Server.Rest

namespace SubstratePoc.Server
open Lib Tunnel Broker Resumer

/-- The actions that use the destination connection. -/
def usesUpstream : Act → Bool
  | .flush _ | .flushed _ | .readUpstream | .produce _ _ | .upWrite _ | .onDataWritten _
  | .closeUpstream _ => true
  | _ => false

/-- A session has the connection that it uses, and has closed it when it is dead. -/
structure Obj.Sound (ob : Obj) : Prop where
  connected : ob.s.connected = true → ob.s.upstream = true
  downClosed : ob.s.downClosed = true → ob.s.upstream = true
  closed : ob.s.dead = true → ob.s.upstream = true → ob.closed = true

theorem Does.upstream {s : Session} {a : Act} {c : Choice} {r : Result} (h : Does s a c r)
    (ha : usesUpstream a = true → s.upstream = true) (hc : s.connected = true → s.upstream = true)
    (hd : s.downClosed = true → s.upstream = true) :
    (s.upstream = true → r.s.upstream = true) ∧ (r.s.connected = true → r.s.upstream = true) ∧
    (r.s.downClosed = true → r.s.upstream = true) ∧
    ∀ b ∈ r.push, usesUpstream b = true → r.s.upstream = true := by
  cases h with
  | produceDone after => cases after <;> simp_all [After.acts, usesUpstream]
  | attach => simp_all [usesUpstream]
  | _ => simp_all [usesUpstream]

theorem Does.upstream_of_dead {s : Session} {a : Act} {c : Choice} {r : Result} (h : Does s a c r)
    (hd : r.s.dead = true) : r.s.upstream = s.upstream := by
  cases h with
  | dialedFlush | dialedRead => simp_all
  | _ => rfl

theorem Obj.Sound.after {ob : Obj} {a : Act} {c : Choice} {r : Result} (h : ob.Sound)
    (hr : Does ob.s a c r) (ha : usesUpstream a = true → ob.s.upstream = true) :
    (ob.after r).Sound := by
  obtain ⟨-, hconn, hdown, -⟩ := Does.upstream hr ha h.connected h.downClosed
  refine ⟨hconn, hdown, fun hd hu => ?_⟩
  have hd' : r.s.dead = true := hd
  have hu' : ob.s.upstream = true := (Does.upstream_of_dead hr hd).symm.trans hu
  cases hold : ob.s.dead with
  | true => simp [Obj.after, h.closed hold hu']
  | false => simp [Obj.after, hold, hu', hd']

theorem Does.done {s : Session} {a : Act} {c : Choice} {r : Result} (h : Does s a c r)
    (hr : r.s.done = true) (hd : r.s.dead = false) :
    .maybeDestroy ∈ r.push ∨ (∃ offset, a = .onDownstreamAck offset ∧ s.done = false) ∨
      s.done = true ∧ s.dead = false ∧ a ≠ .destroy ∧ (a = .maybeDestroy → .destroy ∈ r.push) := by
  cases h with
  | ackDrained offset c h =>
    cases hs : s.done with
    | false => exact .inr (.inl ⟨offset, rfl, rfl⟩)
    | true => exact .inr (.inr ⟨rfl, hd, by simp, by simp⟩)
  | produceDetached p after c b hp hd hf hb | produceSent p after b tc hp hd hf hb
  | produceLost p after n text b tc hp hd hf hb =>
    have hbuf := (ReplayBuffer.append_eq_some hb).2.1
    simp_all [Session.done]
  | _ => simp_all [Session.done]

/-- What is left to do for a session that is finished or dead. -/
structure Released (w : World) : Prop where
  uses : ∀ t p a, .act p a ∈ w.threads t → usesUpstream a = true → (w.objs p).s.upstream = true
  sound : ∀ p, (w.objs p).Sound
  finished : ∀ p, (w.objs p).s.done = true → (w.objs p).s.dead = false →
    ∃ t, .act p .maybeDestroy ∈ w.threads t ∨ .act p .destroy ∈ w.threads t
  removed : ∀ p, (w.objs p).s.dead = true → w.sessions p.key = some p.gen →
    ∃ t, .act p .removeSession ∈ w.threads t

theorem Released.start (cfg : Config) : Released (start cfg) where
  uses t p a h := by cases h
  sound p := ⟨by rintro ⟨⟩, by rintro ⟨⟩, by rintro ⟨⟩⟩
  finished p h := by cases h
  removed p h := by cases h

/-- An ACK is about to finish a session that is not destroyed. -/
def acksLast (w : World) : Event → Bool
  | .run t _ => match w.threads t with
    | .act p (.onDownstreamAck offset) :: _ =>
      !(w.objs p).s.dead && !(w.objs p).s.done && ((w.objs p).s.onDownstreamAck offset).done
    | _ => false
  | _ => false

section Run
variable {cfg : Config} {w w₁ : World} {a : HAct} {push rest : List HAct} {t : Thread}

theorem objs_actOn {p : Ptr} {b : Act} {c : Choice} {r : Result} (hr : Does (w.objs p).s b c r)
    (q : Ptr) : q = p ∧ (w.actOn p r).objs q = (w.objs p).after r ∨
      q ≠ p ∧ (w.actOn p r).objs q = w.objs q := by
  rw [(actOn_frame hr).2.1]
  exact update_cases _ _ _ q

theorem Owned.sessions_actOn (hO : Owned w) {p q : Ptr} {b : Act} {c : Choice} {r : Result}
    (hr : Does (w.objs p).s b c r) (h : (w.actOn p r).sessions q.key = some q.gen) :
    w.sessions q.key = some q.gen ∧ (.removeSession ∈ r.eff → q.key ≠ p.key) := by
  rw [(actOn_frame hr).2.2.2] at h
  split_ifs at h with he
  · obtain ⟨hactor, hsid, -⟩ := conns_of_does hr
    obtain ⟨hactor', hsid'⟩ := hO.named p
    rw [hactor, hsid, hactor', hsid'] at h
    have hne : q.key ≠ p.key := by
      intro hq
      rw [hq, Function.update_self] at h
      cases h
    rw [Function.update_of_ne hne] at h
    exact ⟨h, fun _ => hne⟩
  · exact ⟨h, fun h => absurd h he⟩

section Act
variable {p : Ptr} {b : Act} {c : Choice} {r : Result}

theorem Released.finished_act (hI : Released w) (hD : Spawned w)
    (ht : w.threads t = .act p b :: rest) (hr : Does (w.objs p).s b c r)
    (hdo : HDoes cfg w (.act p b) (w.actOn p r) (r.push.map (.act p)))
    (hack : ∀ offset, b = .onDownstreamAck offset → r.s.dead = false → r.s.done = true →
      (w.objs p).s.done = true) {q : Ptr} (hq : ((w.actOn p r).objs q).s.done = true)
    (hd : ((w.actOn p r).objs q).s.dead = false) :
    ∃ u, .act q .maybeDestroy ∈ ((w.actOn p r).setThread t (r.push.map (.act p) ++ rest)).threads u ∨
      .act q .destroy ∈ ((w.actOn p r).setThread t (r.push.map (.act p) ++ rest)).threads u := by
  have hmem {u : Thread} {x : HAct} (hx : x ∈ w.threads u) := hD.mem_run hdo ht hx
  rcases objs_actOn hr q with ⟨rfl, h⟩ | ⟨hne, h⟩ <;> rw [h] at hq hd
  · rcases Does.done hr hq hd with hm | ⟨offset, rfl, hs⟩ | ⟨hs, hd', hne, hm⟩
    · exact ⟨t, .inl (by simp [World.setThread, hm])⟩
    · rw [hack offset rfl hd hq] at hs
      cases hs
    · obtain ⟨u, hu | hu⟩ := hI.finished q hs hd'
      · obtain ⟨-, h⟩ | h := hmem hu
        · exact ⟨t, .inr (by simp [World.setThread, hm (HAct.act.inj h).2.symm])⟩
        · exact ⟨u, .inl h⟩
      · obtain ⟨-, h⟩ | h := hmem hu
        · exact absurd (HAct.act.inj h).2.symm hne
        · exact ⟨u, .inr h⟩
  · obtain ⟨u, hu⟩ := hI.finished q hq hd
    refine ⟨u, hu.imp (fun hu => ?_) fun hu => ?_⟩
    · exact (hmem hu).resolve_left fun hx => hne (HAct.act.inj hx.2).1
    · exact (hmem hu).resolve_left fun hx => hne (HAct.act.inj hx.2).1

theorem Released.removed_act (hI : Released w) (hO : Owned w) (hD : Spawned w)
    (ht : w.threads t = .act p b :: rest) (hr : Does (w.objs p).s b c r)
    (hdo : HDoes cfg w (.act p b) (w.actOn p r) (r.push.map (.act p))) {q : Ptr}
    (hd : ((w.actOn p r).objs q).s.dead = true) (hs : (w.actOn p r).sessions q.key = some q.gen) :
    ∃ u, .act q .removeSession ∈
      ((w.actOn p r).setThread t (r.push.map (.act p) ++ rest)).threads u := by
  have hmem {u : Thread} {x : HAct} (hx : x ∈ w.threads u) := hD.mem_run hdo ht hx
  obtain ⟨hsome, hrem⟩ := hO.sessions_actOn hr hs
  rcases objs_actOn hr q with ⟨rfl, h⟩ | ⟨hne, h⟩ <;> rw [h] at hd
  · by_cases hb : b = .destroy ∧ (w.objs q).s.dead = false
    · obtain ⟨rfl, hb⟩ := hb
      cases hr with
      | destroyAgain _ hd' =>
        rw [hb] at hd'
        cases hd'
      | destroy => exact ⟨t, by simp [World.setThread]⟩
    · obtain ⟨hdead, -, -⟩ := hr.dead_eq fun h => by simpa [h] using hb
      obtain ⟨u, hu⟩ := hI.removed q (hdead ▸ hd) hsome
      obtain ⟨-, h⟩ | h := hmem hu
      · obtain rfl := (HAct.act.inj h).2
        cases hr with
        | removeSession => exact absurd rfl (hrem (by simp))
      · exact ⟨u, h⟩
  · obtain ⟨u, hu⟩ := hI.removed q hd hsome
    exact ⟨u, (hmem hu).resolve_left fun hx => hne (HAct.act.inj hx.2).1⟩

theorem Released.of_act (hI : Released w) (hO : Owned w) (hD : Spawned w)
    (ht : w.threads t = .act p b :: rest) (hr : Does (w.objs p).s b c r)
    (hdo : HDoes cfg w (.act p b) (w.actOn p r) (r.push.map (.act p)))
    (hack : ∀ offset, b = .onDownstreamAck offset → r.s.dead = false → r.s.done = true →
      (w.objs p).s.done = true) :
    Released ((w.actOn p r).setThread t (r.push.map (.act p) ++ rest)) := by
  have hsound := hI.sound p
  have huses := hI.uses t p b (by simp [ht])
  obtain ⟨hmono, -, -, hpush⟩ := Does.upstream hr huses hsound.connected hsound.downClosed
  refine ⟨fun u q x hx hu => ?_, fun q => ?_, fun q hq hd => ?_, fun q hd hs => ?_⟩
  · change ((w.actOn p r).objs q).s.upstream = true
    obtain ⟨hold, -⟩ | ⟨-, hnew⟩ | ⟨p', ha, -⟩ := mem_threads_run hdo ht hx
    · have hq := hI.uses u q x hold hu
      rcases objs_actOn hr q with ⟨rfl, h⟩ | ⟨-, h⟩ <;> rw [h]
      · exact hmono hq
      · exact hq
    · obtain ⟨y, hy, heq⟩ := List.mem_map.mp hnew
      obtain ⟨rfl, rfl⟩ := HAct.act.inj heq
      obtain ⟨-, h⟩ := (objs_actOn hr p).resolve_right fun h => h.1 rfl
      rw [h]
      exact hpush y hy hu
    · cases ha
  · change ((w.actOn p r).objs q).Sound
    rcases objs_actOn hr q with ⟨rfl, h⟩ | ⟨-, h⟩ <;> rw [h]
    · exact hsound.after hr huses
    · exact hI.sound q
  · exact hI.finished_act hD ht hr hdo hack hq hd
  · exact hI.removed_act hO hD ht hr hdo hd hs

end Act

theorem Released.of_quiet {w' : World} (hI : Released w)
    (hobjs : ∀ p, (∃ wd n, w'.objs p = { w.objs p with
          s := { (w.objs p).s with watchdog := wd }, fired := n }) ∧
        (w'.sessions p.key = some p.gen → w.sessions p.key = some p.gen) ∨
      (w'.objs p).Sound ∧ (w'.objs p).s.done = false ∧ (w'.objs p).s.dead = false ∧
        ∀ t a, .act p a ∈ w.threads t → usesUpstream a = false)
    (hkeep : ∀ t p a, .act p a ∈ w.threads t → .act p a ∈ w'.threads t)
    (hnew : ∀ t p a, .act p a ∈ w'.threads t → .act p a ∈ w.threads t ∨ usesUpstream a = false) :
    Released w' := by
  -- no session acts: one may be new, and a watchdog may fire
  refine ⟨fun t p a ha hu => ?_, fun p => ?_, fun p hp hd => ?_, fun p hd hs => ?_⟩
  · have ha' := (hnew t p a ha).resolve_right (by simp [hu])
    rcases hobjs p with ⟨⟨wd, n, h⟩, -⟩ | ⟨-, -, -, h⟩
    · rw [h]
      exact hI.uses t p a ha' hu
    · rw [h t a ha'] at hu
      cases hu
  · rcases hobjs p with ⟨⟨wd, n, h⟩, -⟩ | ⟨h, -⟩
    · rw [h]
      exact { hI.sound p with }
    · exact h
  · rcases hobjs p with ⟨⟨wd, n, h⟩, -⟩ | ⟨-, h, -⟩
    · rw [h] at hp hd
      obtain ⟨t, ht⟩ := hI.finished p hp hd
      exact ⟨t, ht.imp (hkeep t p _) (hkeep t p _)⟩
    · rw [h] at hp
      cases hp
  · rcases hobjs p with ⟨⟨wd, n, h⟩, hs'⟩ | ⟨-, -, h, -⟩
    · rw [h] at hd
      obtain ⟨t, ht⟩ := hI.removed p hd (hs' hs)
      exact ⟨t, hkeep t p _ ht⟩
    · rw [h] at hd
      cases hd

theorem HDoes.uses {cfg : Config} {w w₁ : World} {a : HAct} {push : List HAct}
    (h : HDoes cfg w a w₁ push) (ha : ∀ p b, a ≠ .act p b) {p : Ptr} {b : Act}
    (hb : .act p b ∈ push) : usesUpstream b = false := by
  cases h with
  | handleFrame => cases mem_handleFrame hb <;> rfl
  | act p a => exact absurd rfl (ha p a)
  | attach =>
    simp only [List.mem_cons, List.not_mem_nil, or_false, HAct.act.injEq] at hb
    rcases hb with ⟨-, rfl⟩ | ⟨-, rfl⟩ <;> rfl
  | openSession | reattach | detaching =>
    simp only [List.mem_cons, List.not_mem_nil, or_false, HAct.act.injEq, reduceCtorEq] at hb
    rw [hb.2]
    rfl
  | _ => simp at hb

theorem Released.run (hI : Released w) (hO : Owned w) (hK : Keyed w) (hD : Spawned w)
    (ht : w.threads t = a :: rest) (hdo : HDoes cfg w a w₁ push)
    (hack : ∀ p offset, a = .act p (.onDownstreamAck offset) → (w.objs p).s.dead = true ∨
      (w.objs p).s.done = true ∨ ((w.objs p).s.onDownstreamAck offset).done = false) :
    Released (w₁.setThread t (push ++ rest)) := by
  have hkeep (ha : ∀ p b, a ≠ .act p b) (u : Thread) (p : Ptr) (b : Act)
      (hb : .act p b ∈ w.threads u) : .act p b ∈ (w₁.setThread t (push ++ rest)).threads u :=
    (hD.mem_run hdo ht hb).resolve_left fun h => ha p b h.2.symm
  have hnew (ha : ∀ p b, a ≠ .act p b) (u : Thread) (p : Ptr) (b : Act)
      (hb : .act p b ∈ (w₁.setThread t (push ++ rest)).threads u) :
      .act p b ∈ w.threads u ∨ usesUpstream b = false := by
    obtain ⟨hb, -⟩ | ⟨-, hb⟩ | ⟨q, -, -, hb⟩ := mem_threads_run hdo ht hb
    · exact .inl hb
    · exact .inr (hdo.uses ha hb)
    · obtain ⟨-, rfl⟩ := HAct.act.inj hb
      exact .inr rfl
  obtain ⟨k, sid, target, c, rfl, -, hs, rfl, hpush⟩ | ⟨p, b, c, r, rfl, hr, rfl, rfl⟩ |
    ⟨hne, hobjs, -, hsessions⟩ := hdo.objs
  · refine hI.of_quiet (fun p => ?_) (hkeep (by simp)) (hnew (by simp))
    by_cases hp : p = ⟨⟨c.actorID, sid⟩, w.made ⟨c.actorID, sid⟩⟩
    · subst hp
      refine .inr ⟨?_, ?_, ?_, fun u b hb => ?_⟩
      · simp only [World.setThread, World.make, Function.update_self]
        exact ⟨by rintro ⟨⟩, by rintro ⟨⟩, by rintro ⟨⟩⟩
      · simp [World.setThread, World.make, newSession, Session.done]
      · simp [World.setThread, World.make, newSession]
      · exact absurd (hK.named u _ hb _ (List.mem_singleton.mpr rfl)) (lt_irrefl _)
    · refine .inl ⟨⟨_, _, Function.update_of_ne hp ..⟩, fun h => ?_⟩
      by_cases hkey : p.key = ⟨c.actorID, sid⟩
      · simp only [World.setThread, World.make, hkey, Function.update_self, Option.some.injEq] at h
        exact absurd (Ptr.ext hkey h.symm) hp
      · simpa only [World.setThread, World.make, Function.update_of_ne hkey] using h
  · refine hI.of_act hO hD ht hr hdo ?_
    rintro offset rfl hd hdone
    have hs : r.s = (w.objs p).s.onDownstreamAck offset := by
      cases hr with
      | ackDrained _ _ h => simp [Session.onDownstreamAck, h]
      | ackKept _ _ h => simp [Session.onDownstreamAck, h]
    rcases hack p offset rfl with h | h | h
    · rw [hr.dead_mono h] at hd
      cases hd
    · exact h
    · rw [hs, h] at hdone
      cases hdone
  · refine hI.of_quiet (fun p => .inl ⟨⟨_, _, congrFun hobjs p⟩, fun h => ?_⟩) (hkeep hne) (hnew hne)
    exact (congrFun hsessions p.key).symm.trans h

end Run

theorem Released.step {cfg : Config} {w w' : World} {e : Event} (hI : Released w) (hO : Owned w)
    (hK : Keyed w) (hD : Spawned w) (he : acksLast w e = false) (h : step cfg w e = some w') :
    Released w' := by
  cases step_steps h with
  | hello k first hk hf =>
    refine hI.of_quiet (fun p => .inl ⟨⟨_, _, rfl⟩, id⟩) (fun u p a ha => ?_) fun u p a ha => ?_
    · rcases threads_setThread (w.setConn k ⟨first.actorID, [], [], false⟩) (.loop k) [.readFrame k] u
        with ⟨rfl, -⟩ | ⟨-, h⟩
      · rw [hO.idle k hk] at ha
        cases ha
      · rwa [h]
    · obtain ⟨-, ha⟩ | ha := mem_started ha
      · cases ha
      · exact .inl ha
  | refused k first hf => exact hI
  | run t c a rest push w₁ ht hdo =>
    refine hI.run hO hK hD ht hdo ?_
    rintro p offset rfl
    simp only [acksLast, ht, Bool.and_eq_false_iff, Bool.not_eq_false'] at he
    exact or_assoc.mp he
  | fire p hp =>
    refine hI.of_quiet (fun q => .inl ⟨?_, id⟩) (fun u q a ha => ?_) fun u q a ha => ?_
    · by_cases hq : q = p
      · subst hq
        exact ⟨_, _, Function.update_self ..⟩
      · exact ⟨_, _, Function.update_of_ne hq ..⟩
    · rcases threads_setThread (w.setObj p (w.objs p).fire) (.timer p (w.objs p).fired)
        [.act p .watchdog] u with ⟨rfl, -⟩ | ⟨-, h⟩
      · rw [hD.unfired p _ (.inr le_rfl)] at ha
        cases ha
      · rwa [h]
    · obtain ⟨-, ha⟩ | ha := mem_started ha
      · obtain ⟨-, rfl⟩ := HAct.act.inj ha
        exact .inr rfl
      · exact .inl ha
  | resumer A c st => exact { hI with }
  | exit A => exact { hI with }

/-- If no ACK finishes a session, then at rest a finished session is dead, its destination
connection is closed and its key is free, or taken by a later session. -/
theorem released_at_rest {cfg : Config} {es : List Event} {w : World}
    (hes : Along (step cfg) (fun w e => acksLast w e = false) (start cfg) es)
    (hrun : run (step cfg) (start cfg) es = some w) (hrest : w.AtRest) (p : Ptr)
    (hp : p.gen < w.made p.key) (hup : (w.objs p).s.upClosed = true) (hdown : (w.objs p).s.downClosed = true)
    (hbuf : (w.objs p).s.downBuf.len = 0) :
    (w.objs p).s.dead = true ∧ (w.objs p).s.upstream = true ∧ (w.objs p).closed = true ∧
      ∀ g, w.sessions p.key = some g → p.gen < g := by
  obtain ⟨hO, hK, hS, hL, hR⟩ :
      Owned w ∧ Keyed w ∧ Spawned w ∧ ReadersLast w ∧ Released w := by
    have hstep (w : World) (e : Event) (w' : World)
        (hI : Owned w ∧ Keyed w ∧ Spawned w ∧ ReadersLast w ∧ Released w)
        (he : acksLast w e = false) (h : step cfg w e = some w') :
        Owned w' ∧ Keyed w' ∧ Spawned w' ∧ ReadersLast w' ∧ Released w' := by
      obtain ⟨hO, hK, hS, hL, hR⟩ := hI
      exact ⟨hO.step h, hK.step hO h, hS.step hK h, hL.step h, hR.step hO hK hS he h⟩
    exact run_invariant hstep ⟨.start cfg, .start cfg, .start cfg, .start cfg, .start cfg⟩ hes hrun
  have hpending {t : Thread} {a : Act} (ha : .act p a ∈ w.threads t) := hrest.pending hL ha
  have hdone : (w.objs p).s.done = true := by simpa [Session.done, hup, hdown] using hbuf
  have hdead : (w.objs p).s.dead = true := by
    by_contra hd
    obtain ⟨t, ht | ht⟩ := hR.finished p hdone (by simpa using hd)
    · simpa using hpending ht
    · simpa using hpending ht
  have hupstream := (hR.sound p).downClosed hdown
  refine ⟨hdead, hupstream, (hR.sound p).closed hdead hupstream, fun g hg => ?_⟩
  have hlast := hK.latest p.key g hg
  have hne : g ≠ p.gen := by
    rintro rfl
    obtain ⟨t, ht⟩ := hR.removed p hdead hg
    simpa using hpending ht
  omega

def ended : List Event :=
  -- the destination sends a byte and ends
  openOn 0 [97] [120] ++ .run (.reader ⟨⟨[97], 1⟩, 0⟩) (.io (.read [7] (some .eof))) ::
    List.replicate 6 (.run (.reader ⟨⟨[97], 1⟩, 0⟩) (.io .ok))

/-- The frame loop of connection 0 reads a frame and goes on. -/
def handles (m : Msg) (n : ℕ) : List Event :=
  .run (.loop 0) (.frame m.frame) :: List.replicate n (.run (.loop 0) (.io .ok))

theorem released_acked_first : ∃ w, run (step demo) (start demo)
      (ended ++ handles (.ack 1 1) 2 ++ handles (.close 1 dirUp []) 6) = some w ∧ w.AtRest ∧
    (w.objs ⟨⟨[97], 1⟩, 0⟩).s.done = true ∧ (w.objs ⟨⟨[97], 1⟩, 0⟩).s.dead = true ∧
    (w.objs ⟨⟨[97], 1⟩, 0⟩).closed = true ∧ w.sessions ⟨[97], 1⟩ = none := by
  have hrun := (rfl : run (step demo) (start demo)
    (ended ++ handles (.ack 1 1) 2 ++ handles (.close 1 dirUp []) 6) = some _)
  have hes : Along (step demo) (fun w e => acksLast w e = false) (start demo)
      (ended ++ handles (.ack 1 1) 2 ++ handles (.close 1 dirUp []) 6) := by decide
  have hrest := atRest_of_trace hrun (by decide)
  obtain ⟨hdead, -, hclosed, -⟩ :=
    released_at_rest hes hrun hrest ⟨⟨[97], 1⟩, 0⟩ (by decide) rfl rfl rfl
  exact ⟨_, hrun, hrest, rfl, hdead, hclosed, rfl⟩

/-- The last ACK comes after both closes: the session stays, with its connection open. -/
theorem kept_acked_last : ∃ w, run (step demo) (start demo)
      (ended ++ handles (.close 1 dirUp []) 4 ++ handles (.ack 1 1) 2) = some w ∧ w.AtRest ∧
    (w.objs ⟨⟨[97], 1⟩, 0⟩).s.upClosed = true ∧ (w.objs ⟨⟨[97], 1⟩, 0⟩).s.downClosed = true ∧
    (w.objs ⟨⟨[97], 1⟩, 0⟩).s.downBuf.len = 0 ∧ (w.objs ⟨⟨[97], 1⟩, 0⟩).s.dead = false ∧
    (w.objs ⟨⟨[97], 1⟩, 0⟩).s.upstream = true ∧ (w.objs ⟨⟨[97], 1⟩, 0⟩).closed = false ∧
    w.sessions ⟨[97], 1⟩ = some 0 := by
  have hrun := (rfl : run (step demo) (start demo)
    (ended ++ handles (.close 1 dirUp []) 4 ++ handles (.ack 1 1) 2) = some _)
  exact ⟨_, hrun, atRest_of_trace hrun (by decide), rfl, rfl, rfl, rfl, rfl, rfl, rfl⟩

end SubstratePoc.Server
