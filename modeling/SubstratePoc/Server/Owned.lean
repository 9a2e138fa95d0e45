import SubstratePoc.Server.Inversion

namespace SubstratePoc.Server
open Lib Tunnel Broker Resumer

/-- The actor that the HELLO of a connection has named. -/
def World.actor (w : World) (k : ConnId) : Option Bytes := (w.conns k).map (·.actorID)

/-- The actor a goroutine works for. -/
def ownerOf (actor : ConnId → Option Bytes) : Thread → Option Bytes
  | .loop k => actor k
  | .reader p | .timer p _ => some p.key.actorID

def World.owner (w : World) : Thread → Option Bytes := ownerOf w.actor

/-- The connection that an action on a session names. -/
def actConn : Act → Option ConnId
  | .bind k | .register k | .detach k | .write k _ => some k
  | _ => none

def effectConn : Effect → Option ConnId
  | .frame k _ | .register k => some k
  | _ => none

/-- What an action names belongs to the actor. -/
def HAct.Of (actor : ConnId → Option Bytes) (A : Bytes) : HAct → Prop
  | .readFrame k | .handleFrame k _ | .openSession k _ _ | .attachSession k _ _ _
  | .reattach k _ _ | .reply k _ | .detachAll k | .closeConn k => actor k = some A
  | .startDial p => p.key.actorID = A
  | .act p a => p.key.actorID = A ∧ ∀ k, actConn a = some k → actor k = some A
  | .detaching k ps => actor k = some A ∧ ∀ p ∈ ps, p.key.actorID = A

theorem HAct.Of.mono {actor actor' : ConnId → Option Bytes} {A : Bytes} {a : HAct}
    (h : a.Of actor A) (hk : ∀ k, actor k = some A → actor' k = some A) : a.Of actor' A := by
  cases a with
  | startDial p => exact h
  | act p a => exact ⟨h.1, fun k hc => hk k (h.2 k hc)⟩
  | detaching k ps => exact ⟨hk k h.1, h.2⟩
  | _ => exact hk _ h

theorem conns_of_does {s : Session} {a : Act} {c : Choice} {r : Result} (h : Does s a c r) :
    r.s.actorID = s.actorID ∧ r.s.sessionID = s.sessionID ∧
    (∀ k, r.s.tconn = some k → s.tconn = some k ∨ actConn a = some k) ∧
    (∀ b ∈ r.push, ∀ k, actConn b = some k → s.tconn = some k ∨ actConn a = some k) ∧
    ∀ e ∈ r.eff, ∀ k, effectConn e = some k → s.tconn = some k ∨ actConn a = some k := by
  cases h with
  | produceDone after => cases after <;> simp_all [After.acts, actConn]
  | produceDetached | produceLost =>
    dsimp only
    split_ifs <;> simp_all [actConn, effectConn]
  | attach =>
    refine ⟨rfl, rfl, fun k hk => .inl hk, fun b hb k hk => ?_, by simp⟩
    obtain ⟨m, -, rfl⟩ := List.mem_map.mp hb
    cases hk
  | _ => simp_all [actConn, effectConn]

structure Owned (w : World) : Prop where
  named : ∀ p, (w.objs p).s.actorID = p.key.actorID ∧ (w.objs p).s.sessionID = p.key.sessionID
  bound : ∀ p k, (w.objs p).s.tconn = some k → w.actor k = some p.key.actorID
  registered : ∀ k t, w.conns k = some t → ∀ p ∈ t.sessions, p.key.actorID = t.actorID
  idle : ∀ k, w.conns k = none → w.threads (.loop k) = []
  acts : ∀ t A, w.owner t = some A → ∀ a ∈ w.threads t, a.Of w.actor A

theorem Owned.start (cfg : Config) : Owned (start cfg) where
  named p := ⟨rfl, rfl⟩
  bound p k h := by cases h
  registered k t h := by cases h
  idle k _ := rfl
  acts t A _ a h := by cases h

theorem Turns.actorID {a : HAct} {k : ConnId} {t t' : Option Conn} (h : Turns a k t t') :
    t'.map (·.actorID) = t.map (·.actorID) := by
  cases h <;> rfl

theorem HDoes.actor {cfg : Config} {w w₁ : World} {a : HAct} {push : List HAct}
    (h : HDoes cfg w a w₁ push) : w₁.actor = w.actor :=
  funext fun k => (h.turns k).actorID

theorem HDoes.conn_of_conn {cfg : Config} {w w₁ : World} {a : HAct} {push : List HAct} {k : ConnId}
    {t₁ : Conn} (h : HDoes cfg w a w₁ push) (ht₁ : w₁.conns k = some t₁) :
    ∃ t, w.conns k = some t := by
  have := congrFun h.actor k
  rw [World.actor, World.actor, ht₁] at this
  obtain ⟨t, ht, -⟩ := Option.map_eq_some_iff.mp this.symm
  exact ⟨t, ht⟩

theorem Handles.of {actor : ConnId → Option Bytes} {A : Bytes} {k : ConnId} {s : Option Ptr}
    {b : HAct} (h : Handles k s b) (hk : actor k = some A)
    (hs : ∀ p, s = some p → p.key.actorID = A) : b.Of actor A := by
  cases h with
  | reply | openSession | attachSession => exact hk
  | onData p hp | onDownstreamAck p hp | onSidecarClose p hp => exact ⟨hs p hp, by rintro _ ⟨⟩⟩

theorem HDoes.of {cfg : Config} {w w₁ : World} {a : HAct} {push : List HAct} {A : Bytes}
    (h : HDoes cfg w a w₁ push) (hI : Owned w) (ha : a.Of w.actor A) :
    ∀ b ∈ push, b.Of w.actor A := by
  -- what an action of the actor leaves to do is the actor's
  have hconn {k : ConnId} {t : Conn} (hk : w.actor k = some A) (ht : w.conns k = some t) :
      t.actorID = A := by
    simpa [World.actor, ht] using hk
  cases h with
  | readFrame | readFail | openRefused | openAgain | recreate | lost =>
    simpa [HAct.Of] using ha
  | handleFrame k f t ht =>
    intro b hb
    refine (mem_handleFrame hb).of ha fun p hp => ?_
    obtain ⟨g, -, rfl⟩ := Option.map_eq_some_iff.mp hp
    exact hconn ha ht
  | openSession k sid target t ht | attach k sid offset target t ht | reattach k sid offset t ht =>
    have hk : w.actor k = some A := ha
    simp [HAct.Of, actConn, hconn hk ht, hk]
  | act p a c r hr =>
    intro b hb
    obtain ⟨x, hx, rfl⟩ := List.mem_map.mp hb
    obtain ⟨-, -, -, hpush, -⟩ := conns_of_does hr
    refine ⟨ha.1, fun k hk => ?_⟩
    rcases hpush x hx k hk with ht | hc
    · rw [hI.bound p k ht, ha.1]
    · exact ha.2 k hc
  | detachAll k t ht =>
    simp only [List.mem_singleton, forall_eq]
    refine ⟨ha, fun p hp => ?_⟩
    rw [hI.registered k t ht p hp, hconn ha ht]
  | detaching k ps i p hp =>
    simp only [List.mem_cons, List.not_mem_nil, or_false, forall_eq_or_imp, forall_eq]
    refine ⟨⟨ha.2 p (List.mem_of_getElem? hp), fun j hj => ?_⟩, ha.1, fun q hq => ?_⟩
    · cases hj
      exact ha.1
    · exact ha.2 q (List.mem_of_mem_eraseIdx hq)
  | reattachGone | startDial | reply | replyFail | detached | closeConn => simp

theorem HDoes.owned {cfg : Config} {w w₁ : World} {a : HAct} {push : List HAct} {A : Bytes}
    (h : HDoes cfg w a w₁ push) (hI : Owned w) (ha : a.Of w.actor A) :
    (∀ p, (w₁.objs p).s.actorID = p.key.actorID ∧ (w₁.objs p).s.sessionID = p.key.sessionID) ∧
    (∀ p k, (w₁.objs p).s.tconn = some k → w.actor k = some p.key.actorID) ∧
    ∀ k t, w₁.conns k = some t → ∀ p ∈ t.sessions, p.key.actorID = t.actorID := by
  -- an action keeps the sessions and the connections with their actors
  have hobjs : ∀ p, ((w₁.objs p).s.actorID = p.key.actorID ∧
      (w₁.objs p).s.sessionID = p.key.sessionID) ∧
      ∀ k, (w₁.objs p).s.tconn = some k → w.actor k = some p.key.actorID := by
    intro p
    obtain ⟨k, sid, target, t, -, -, -, rfl, -⟩ | ⟨q, b, c, r, rfl, hr, rfl, -⟩ | ⟨-, ho, -⟩ := h.objs
    · by_cases hp : p = ⟨⟨t.actorID, sid⟩, w.made ⟨t.actorID, sid⟩⟩
      · subst hp
        simp [World.make, newSession]
      · simp only [World.make, Function.update_of_ne hp]
        exact ⟨hI.named p, hI.bound p⟩
    · rw [(actOn_frame hr).2.1]
      by_cases hp : p = q
      · subst hp
        obtain ⟨hid, hsid, ht, -, -⟩ := conns_of_does hr
        simp only [Function.update_self, Obj.after, hid, hsid]
        refine ⟨hI.named p, fun k hk => ?_⟩
        rcases ht k hk with ht | hc
        · exact hI.bound p k ht
        · rw [ha.1]
          exact ha.2 k hc
      · rw [Function.update_of_ne hp]
        exact ⟨hI.named p, hI.bound p⟩
    · rw [ho]
      exact ⟨hI.named p, hI.bound p⟩
  refine ⟨fun p => (hobjs p).1, fun p => (hobjs p).2, fun k t ht p hp => ?_⟩
  have hturn := h.turns k
  generalize hk : w.conns k = t₀ at hturn
  rw [ht] at hturn
  cases hturn with
  | same => exact hI.registered k t hk p hp
  | wrote t sent closed => exact hI.registered k t hk p hp
  | emptied t => cases hp
  | registered t q heq =>
    subst heq
    rcases List.mem_append.mp hp with hp | hp
    · exact hI.registered k t hk p (List.mem_filter.mp hp).1
    · rw [List.mem_singleton.mp hp, ha.1]
      have hactor := ha.2 k rfl
      rw [World.actor, hk] at hactor
      exact (Option.some.inj hactor).symm

section Step
variable {cfg : Config} {w w' : World}

theorem Owned.running {t : Thread} {a : HAct} {rest : List HAct} (hI : Owned w)
    (ht : w.threads t = a :: rest) : ∃ B, w.owner t = some B ∧ a.Of w.actor B := by
  have howner : ∃ B, w.owner t = some B := by
    cases t with
    | loop k =>
      cases hk : w.conns k with
      | none =>
        rw [hI.idle k hk] at ht
        cases ht
      | some t => exact ⟨t.actorID, by simp [World.owner, ownerOf, World.actor, hk]⟩
    | reader p | timer p => exact ⟨_, rfl⟩
  obtain ⟨B, hB⟩ := howner
  exact ⟨B, hB, hI.acts t B hB a (by simp [ht])⟩

theorem Owned.hello (hI : Owned w) {k : ConnId} {actorID : Bytes} (hk : w.conns k = none) :
    Owned ((w.setConn k ⟨actorID, [], [], false⟩).setThread (.loop k) [.readFrame k]) := by
  -- a connection is accepted: it is new, so nothing names it yet
  have hmono (j : ConnId) (A : Bytes) (hj : w.actor j = some A) :
      (w.setConn k ⟨actorID, [], [], false⟩).actor j = some A := by
    have hne : j ≠ k := by
      rintro rfl
      simp [World.actor, hk] at hj
    simpa [World.actor, World.setConn, Function.update_of_ne hne] using hj
  refine ⟨hI.named, fun p j hj => hmono j _ (hI.bound p j hj), fun j t ht => ?_, fun j hj => ?_,
    fun t A ht a ha => ?_⟩
  · obtain ⟨-, rfl⟩ | ⟨-, ht⟩ := conns_setConn ht
    · simp
    · exact hI.registered j t ht
  · have hne : j ≠ k := by
      rintro rfl
      simp [World.setThread, World.setConn] at hj
    simp only [World.setThread, World.setConn, Function.update_of_ne hne] at hj ⊢
    rw [Function.update_of_ne (by simpa using hne)]
    exact hI.idle j hj
  · obtain ⟨rfl, rfl⟩ | ha := mem_started ha
    · exact ht
    · have ht' : w.owner t = some A := by
        cases t with
        | loop j =>
          have hj : j ≠ k := by
            rintro rfl
            have hnil : a ∈ w.threads (.loop j) := ha
            rw [hI.idle j hk] at hnil
            cases hnil
          simpa [World.owner, ownerOf, World.actor, World.setConn, World.setThread,
            Function.update_of_ne hj] using ht
        | _ => exact ht
      exact (hI.acts t A ht' a ha).mono fun j hj => hmono j A hj

theorem Owned.run {w₁ : World} {t : Thread} {a : HAct} {rest push : List HAct} (hI : Owned w)
    (ht : w.threads t = a :: rest) (hdo : HDoes cfg w a w₁ push) :
    Owned (w₁.setThread t (push ++ rest)) := by
  obtain ⟨A, hA, ha⟩ := hI.running ht
  have hactor := hdo.actor
  obtain ⟨hnamed, hbound, hreg⟩ := hdo.owned hI ha
  have howner (u : Thread) : (w₁.setThread t (push ++ rest)).owner u = w.owner u := by
    cases u with
    | loop k => exact congrFun hactor k
    | _ => rfl
  refine ⟨hnamed, fun p k hk => ?_, hreg, fun k hk => ?_, fun u B hu b hb => ?_⟩
  · exact (congrFun hactor k).trans (hbound p k hk)
  · have hidle : w.threads (.loop k) = [] := by
      apply hI.idle
      have := congrFun hactor k
      simpa [World.actor, show w₁.conns k = none from hk] using this.symm
    rcases threads_run hdo ht (.loop k) with ⟨rfl, -⟩ | ⟨-, h⟩ | ⟨p, -, -, h, -⟩
    · rw [hidle] at ht
      cases ht
    · rw [h, hidle]
    · cases h
  · rw [howner] at hu
    show b.Of w₁.actor B
    rw [hactor]
    obtain ⟨hold, -⟩ | ⟨rfl, hpush⟩ | ⟨p, -, rfl, rfl⟩ := mem_threads_run hdo ht hb
    · exact hI.acts u B hu b hold
    · cases hA.symm.trans hu
      exact hdo.of hI ha b hpush
    · exact ⟨Option.some.inj hu, by rintro _ ⟨⟩⟩

theorem Owned.fire (hI : Owned w) (p : Ptr) :
    Owned ((w.setObj p (w.objs p).fire).setThread (.timer p (w.objs p).fired)
      [.act p .watchdog]) := by
  refine ⟨fun q => ?_, fun q k hk => ?_, hI.registered, fun k hk => ?_, fun u B hu b hb => ?_⟩
  · obtain ⟨wd, hwd⟩ := update_fire w p q
    simp only [World.setThread, World.setObj, hwd]
    exact hI.named q
  · obtain ⟨wd, hwd⟩ := update_fire w p q
    simp only [World.setThread, World.setObj, hwd] at hk
    exact hI.bound q k hk
  · simp only [World.setThread, Function.update_of_ne (by simp : Thread.loop k ≠ .timer p _)]
    exact hI.idle k hk
  · obtain ⟨rfl, rfl⟩ | hb := mem_started hb
    · exact ⟨Option.some.inj hu, by rintro _ ⟨⟩⟩
    · refine hI.acts u B ?_ b hb
      cases u <;> exact hu

theorem Owned.step {e : Event} (hI : Owned w) (h : step cfg w e = some w') : Owned w' := by
  cases step_steps h with
  | hello k first hk hf => exact hI.hello hk
  | refused k first hf => exact hI
  | run t c a rest push w₁ ht hdo => exact hI.run ht hdo
  | fire p hp => exact hI.fire p
  | resumer A c st => exact { hI with }
  | exit A => exact { hI with }

end Step

end SubstratePoc.Server
