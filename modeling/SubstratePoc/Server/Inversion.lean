import SubstratePoc.Lib.Keep
import SubstratePoc.Server.System

namespace SubstratePoc.Server
open Lib Tunnel Broker Resumer

/-- What an action can do, one constructor for each way through `hexec`. -/
inductive HDoes (cfg : Config) (w : World) : HAct → World → List HAct → Prop
  | readFrame (k : ConnId) (f : Frame) :
    HDoes cfg w (.readFrame k) w [.handleFrame k f, .readFrame k]
  | readFail (k : ConnId) : HDoes cfg w (.readFrame k) w [.detachAll k, .closeConn k]
  | handleFrame (k : ConnId) (f : Frame) (t : Conn) (ht : w.conns k = some t) :
    HDoes cfg w (.handleFrame k f) w (handleFrame k f (w.lookup t.actorID f.sessionID))
  | openRefused (k : ConnId) (sid : UInt64) (target : Bytes) (f : Frame) :
    HDoes cfg w (.openSession k sid target) w [.reply k f]
  | openAgain (k : ConnId) (sid : UInt64) (target : Bytes) :
    HDoes cfg w (.openSession k sid target) w [.attachSession k sid 0 target]
  | openSession (k : ConnId) (sid : UInt64) (target : Bytes) (t : Conn) (ht : w.conns k = some t)
    (hs : w.sessions ⟨t.actorID, sid⟩ = none) :
    HDoes cfg w (.openSession k sid target) (w.make cfg ⟨t.actorID, sid⟩ target)
      [.act ⟨⟨t.actorID, sid⟩, w.made ⟨t.actorID, sid⟩⟩ (.bind k),
        .startDial ⟨⟨t.actorID, sid⟩, w.made ⟨t.actorID, sid⟩⟩]
  | attach (k : ConnId) (sid : UInt64) (offset : ℕ) (target : Bytes) (t : Conn)
    (ht : w.conns k = some t) (g : ℕ) (hs : w.sessions ⟨t.actorID, sid⟩ = some g) :
    HDoes cfg w (.attachSession k sid offset target) w
      [.act ⟨⟨t.actorID, sid⟩, g⟩ (.bind k), .act ⟨⟨t.actorID, sid⟩, g⟩ (.onSidecarAttach offset)]
  | recreate (k : ConnId) (sid : UInt64) (offset : ℕ) (target : Bytes) :
    HDoes cfg w (.attachSession k sid offset target) w
      [.openSession k sid target, .reattach k sid offset]
  | lost (k : ConnId) (sid : UInt64) (offset : ℕ) (target : Bytes) (f : Frame) :
    HDoes cfg w (.attachSession k sid offset target) w [.reply k f]
  | reattach (k : ConnId) (sid : UInt64) (offset : ℕ) (t : Conn) (ht : w.conns k = some t) (g : ℕ)
    (hs : w.sessions ⟨t.actorID, sid⟩ = some g) :
    HDoes cfg w (.reattach k sid offset) w [.act ⟨⟨t.actorID, sid⟩, g⟩ (.onSidecarAttach offset)]
  | reattachGone (k : ConnId) (sid : UInt64) (offset : ℕ) :
    HDoes cfg w (.reattach k sid offset) w []
  | startDial (p : Ptr) :
    HDoes cfg w (.startDial p) (w.setThread (.reader p) [.act p .dial]) []
  | act (p : Ptr) (a : Act) (c : Choice) (r : Result) (h : Does (w.objs p).s a c r) :
    HDoes cfg w (.act p a) (w.actOn p r) (r.push.map (.act p))
  | reply (k : ConnId) (f : Frame) : HDoes cfg w (.reply k f) (w.write k f) []
  | replyFail (k : ConnId) (f : Frame) : HDoes cfg w (.reply k f) w []
  | detachAll (k : ConnId) (t : Conn) (ht : w.conns k = some t) :
    HDoes cfg w (.detachAll k) (w.setConn k { t with sessions := [] }) [.detaching k t.sessions]
  | detaching (k : ConnId) (ps : List Ptr) (i : ℕ) (p : Ptr) (hp : ps[i]? = some p) :
    HDoes cfg w (.detaching k ps) w [.act p (.detach k), .detaching k (ps.eraseIdx i)]
  | detached (k : ConnId) : HDoes cfg w (.detaching k []) w []
  | closeConn (k : ConnId) (t : Conn) (ht : w.conns k = some t) :
    HDoes cfg w (.closeConn k) (w.setConn k { t with closed := true }) []

/-- What `handleFrame` calls. -/
inductive Handles (k : ConnId) (s : Option Ptr) : HAct → Prop
  | reply (f : Frame) : Handles k s (.reply k f)
  | openSession (sid : UInt64) (target : Bytes) : Handles k s (.openSession k sid target)
  | attachSession (sid : UInt64) (offset : ℕ) (target : Bytes) :
    Handles k s (.attachSession k sid offset target)
  | onData (p : Ptr) (hs : s = some p) (offset : ℕ) (payload : Bytes) :
    Handles k s (.act p (.onData offset payload))
  | onDownstreamAck (p : Ptr) (hs : s = some p) (offset : ℕ) :
    Handles k s (.act p (.onDownstreamAck offset))
  | onSidecarClose (p : Ptr) (hs : s = some p) (dir : UInt8) :
    Handles k s (.act p (.onSidecarClose dir))

theorem handleFrame_handles (k : ConnId) (f : Frame) (s : Option Ptr) :
    handleFrame k f s = [] ∨ ∃ b, handleFrame k f s = [b] ∧ Handles k s b := by
  unfold handleFrame
  split
  · exact .inr ⟨_, rfl, .reply _⟩
  · exact .inr ⟨_, rfl, .openSession _ _⟩
  · exact .inr ⟨_, rfl, .attachSession _ _ _⟩
  · cases s with
    | none => exact .inl rfl
    | some p => exact .inr ⟨_, rfl, .onData p rfl _ _⟩
  · cases s with
    | none => exact .inl rfl
    | some p => exact .inr ⟨_, rfl, .onDownstreamAck p rfl _⟩
  · cases s with
    | none => exact .inl rfl
    | some p => exact .inr ⟨_, rfl, .onSidecarClose p rfl _⟩
  · exact .inl rfl

theorem mem_handleFrame {k : ConnId} {f : Frame} {s : Option Ptr} {b : HAct}
    (hb : b ∈ handleFrame k f s) : Handles k s b := by
  obtain h | ⟨x, h, hx⟩ := handleFrame_handles k f s <;> rw [h] at hb
  · cases hb
  · rw [List.mem_singleton.mp hb]
    exact hx

theorem hexec_does {cfg : Config} {w w' : World} {a : HAct} {c : HChoice} {push : List HAct}
    (h : hexec cfg w a c = some (w', push)) : HDoes cfg w a w' push := by
  cases a with
  | readFrame k =>
    simp only [hexec] at h
    split at h <;> cases h
    · exact .readFrame k _
    · exact .readFail k
  | handleFrame k f =>
    simp only [hexec, Option.map_eq_some_iff] at h
    obtain ⟨t, ht, h⟩ := h
    cases h
    exact .handleFrame k f t ht
  | openSession k sid target =>
    simp only [hexec, Option.map_eq_some_iff] at h
    obtain ⟨t, ht, h⟩ := h
    split_ifs at h
    · cases h
      exact .openRefused k sid target _
    · split at h
      · cases h
        exact .openAgain k sid target
      · rename_i hs
        cases h
        exact .openSession k sid target t ht hs
  | attachSession k sid offset target =>
    simp only [hexec, Option.map_eq_some_iff] at h
    obtain ⟨t, ht, h⟩ := h
    split at h
    · rename_i p hp
      cases h
      obtain ⟨g, hs, rfl⟩ := Option.map_eq_some_iff.mp hp
      exact .attach k sid offset target t ht g hs
    · split_ifs at h
      · cases h
        exact .recreate k sid offset target
      · cases h
        exact .lost k sid offset target _
  | reattach k sid offset =>
    simp only [hexec, Option.map_eq_some_iff] at h
    obtain ⟨t, ht, h⟩ := h
    cases h
    cases hs : w.sessions ⟨t.actorID, sid⟩ with
    | none =>
      simp only [World.lookup, hs]
      exact .reattachGone k sid offset
    | some g =>
      simp only [World.lookup, hs]
      exact .reattach k sid offset t ht g hs
  | startDial p =>
    cases h
    exact .startDial p
  | act p a =>
    cases c with
    | io c =>
      simp only [hexec, Option.map_eq_some_iff] at h
      obtain ⟨r, hr, h⟩ := h
      cases h
      exact .act p a c r (exec_does hr)
    | _ => cases h
  | reply k f =>
    simp only [hexec] at h
    split at h
    · split_ifs at h
      cases h
      exact .reply k f
    · cases h
      exact .replyFail k f
    · cases h
  | detachAll k =>
    simp only [hexec, Option.map_eq_some_iff] at h
    obtain ⟨t, ht, h⟩ := h
    cases h
    exact .detachAll k t ht
  | detaching k ps =>
    simp only [hexec] at h
    split at h
    · cases h
      exact .detached k
    · simp only [Option.map_eq_some_iff] at h
      obtain ⟨p, hp, h⟩ := h
      cases h
      exact .detaching k ps _ p hp
    · cases h
  | closeConn k =>
    simp only [hexec, Option.map_eq_some_iff] at h
    obtain ⟨t, ht, h⟩ := h
    cases h
    exact .closeConn k t ht

/-- What a step can be. -/
inductive Steps (cfg : Config) (w : World) : Event → World → Prop
  | hello (k : ConnId) (first : Frame) (hk : w.conns k = none) (hf : isHello first = true) :
    Steps cfg w (.accept k first)
      ((w.setConn k ⟨first.actorID, [], [], false⟩).setThread (.loop k) [.readFrame k])
  | refused (k : ConnId) (first : Frame) (hf : isHello first = false) :
    Steps cfg w (.accept k first) w
  | run (t : Thread) (c : HChoice) (a : HAct) (rest push : List HAct) (w₁ : World)
    (ht : w.threads t = a :: rest) (hdo : HDoes cfg w a w₁ push) :
    Steps cfg w (.run t c) (w₁.setThread t (push ++ rest))
  | fire (p : Ptr) (hp : p.gen < w.made p.key) :
    Steps cfg w (.fire p) ((w.setObj p (w.objs p).fire).setThread (.timer p (w.objs p).fired)
      [.act p .watchdog])
  | resumer (actorID : Bytes) (c : Outcome) (st : Stage) :
    Steps cfg w (.resumer actorID c) (w.enter actorID st)
  | exit (actorID : Bytes) : Steps cfg w (.exit actorID) (w.leave actorID)

theorem step_steps {cfg : Config} {w w' : World} {e : Event} (h : step cfg w e = some w') :
    Steps cfg w e w' := by
  cases e with
  | accept k first =>
    simp only [step] at h
    split_ifs at h with hk hf
    · cases h
      exact .hello k first (by simpa using hk) hf
    · cases h
      exact .refused k first (by simpa using hf)
  | run t c =>
    simp only [step] at h
    split at h
    · cases h
    · rename_i a rest ht
      obtain ⟨⟨w₁, push⟩, hex, rfl⟩ := Option.map_eq_some_iff.mp h
      exact .run t c a rest push w₁ ht (hexec_does hex)
  | fire p =>
    simp only [step] at h
    split_ifs at h with hp
    cases h
    exact .fire p hp.1
  | resumer actorID c =>
    simp only [step, Option.bind_eq_some_iff, Option.map_eq_some_iff] at h
    obtain ⟨st, -, st', -, rfl⟩ := h
    exact .resumer actorID c st'
  | exit actorID =>
    simp only [step] at h
    split_ifs at h
    cases h
    exact .exit actorID

theorem threads_setThread (w : World) (t : Thread) (l : List HAct) (u : Thread) :
    u = t ∧ (w.setThread t l).threads u = l ∨ u ≠ t ∧ (w.setThread t l).threads u = w.threads u :=
  update_cases w.threads t l u

theorem mem_started {w : World} {t u : Thread} {b x : HAct}
    (hx : x ∈ (w.setThread t [b]).threads u) : u = t ∧ x = b ∨ x ∈ w.threads u := by
  rcases threads_setThread w t [b] u with ⟨hu, h⟩ | ⟨-, h⟩ <;> rw [h] at hx
  · exact .inl ⟨hu, List.mem_singleton.mp hx⟩
  · exact .inr hx

theorem mem_tail_started {w : World} {t u : Thread} {b x : HAct}
    (hx : x ∈ ((w.setThread t [b]).threads u).tail) : x ∈ (w.threads u).tail := by
  rcases threads_setThread w t [b] u with ⟨-, h⟩ | ⟨-, h⟩ <;> rw [h] at hx
  · cases hx
  · exact hx

theorem conns_setConn {w : World} {k j : ConnId} {c t : Conn}
    (h : (w.setConn k c).conns j = some t) : j = k ∧ t = c ∨ j ≠ k ∧ w.conns j = some t := by
  simp only [World.setConn] at h
  rcases update_cases w.conns k (some c) j with ⟨hj, heq⟩ | ⟨hj, heq⟩ <;> rw [heq] at h
  · exact .inl ⟨hj, (Option.some.inj h).symm⟩
  · exact .inr ⟨hj, h⟩

theorem update_fire (w : World) (p q : Ptr) : ∃ wd,
    (Function.update w.objs p (w.objs p).fire q).s = { (w.objs q).s with watchdog := wd } := by
  by_cases hq : q = p
  · subst hq
    exact ⟨false, by rw [Function.update_self]; rfl⟩
  · exact ⟨(w.objs q).s.watchdog, by rw [Function.update_of_ne hq]⟩

theorem eff_cases {s : Session} {a : Act} {c : Choice} {r : Result} (h : Does s a c r) :
    r.eff = [] ∨ ∃ e, r.eff = [e] := by
  cases h with
  | produceDetached | produceLost =>
    dsimp only
    split_ifs
    · exact .inr ⟨_, rfl⟩
    · exact .inl rfl
  | flushOk | flushFail | upWriteOk | upWriteFail | register | produceSent | closeWrite | writeOk
  | wake | removeSession => exact .inr ⟨_, rfl⟩
  | _ => exact .inl rfl

theorem actOn_eq {w : World} {p : Ptr} {a : Act} {c : Choice} {r : Result}
    (h : Does (w.objs p).s a c r) :
    r.eff = [] ∧ w.actOn p r = w.setObj p ((w.objs p).after r) ∨
      ∃ e, r.eff = [e] ∧ w.actOn p r = (w.setObj p ((w.objs p).after r)).effect p e := by
  obtain he | ⟨e, he⟩ := eff_cases h
  · exact .inl ⟨he, by rw [World.actOn, he]; rfl⟩
  · exact .inr ⟨e, he, by rw [World.actOn, he]; rfl⟩

/-- How an action changes a connection. -/
inductive Turns (a : HAct) (k : ConnId) : Option Conn → Option Conn → Prop
  | same (t : Option Conn) : Turns a k t t
  | wrote (t : Conn) (sent : List Frame) (closed : Bool) :
    Turns a k (some t) (some { t with sent := sent, closed := closed })
  | emptied (t : Conn) (h : a = .detachAll k) : Turns a k (some t) (some { t with sessions := [] })
  | registered (t : Conn) (p : Ptr) (h : a = .act p (.register k)) :
    Turns a k (some t) (some (t.register p))

theorem turns_setConn {a : HAct} {w : World} {k : ConnId} {t t' : Conn} (ht : w.conns k = some t)
    (h : Turns a k (some t) (some t')) (j : ConnId) :
    Turns a j (w.conns j) ((w.setConn k t').conns j) := by
  by_cases hj : j = k
  · subst hj
    simpa only [World.setConn, Function.update_self, ht] using h
  · simpa only [World.setConn, Function.update_of_ne hj] using .same _

theorem turns_write (a : HAct) (w : World) (k : ConnId) (f : Frame) (j : ConnId) :
    Turns a j (w.conns j) ((w.write k f).conns j) := by
  unfold World.write
  split
  · rename_i t ht
    split_ifs
    · exact .same _
    · exact turns_setConn ht (.wrote t _ t.closed) j
  · exact .same _

@[simp] theorem resume_frame (w : World) (A : Bytes) :
    (w.resume A).conns = w.conns ∧ (w.resume A).made = w.made ∧ (w.resume A).objs = w.objs ∧
      (w.resume A).sessions = w.sessions ∧ (w.resume A).threads = w.threads := by
  unfold World.resume
  split <;> exact ⟨rfl, rfl, rfl, rfl, rfl⟩

theorem write_frame (w : World) (k : ConnId) (f : Frame) :
    (w.write k f).made = w.made ∧ (w.write k f).objs = w.objs ∧
      (w.write k f).sessions = w.sessions ∧ (w.write k f).threads = w.threads := by
  unfold World.write
  split
  · split_ifs <;> exact ⟨rfl, rfl, rfl, rfl⟩
  · exact ⟨rfl, rfl, rfl, rfl⟩

theorem effect_frame (w : World) (p : Ptr) (e : Effect) :
    (w.effect p e).made = w.made ∧ (w.effect p e).objs = w.objs ∧
      (w.effect p e).threads = w.threads ∧ (w.effect p e).sessions =
        if e = .removeSession then
          Function.update w.sessions ⟨(w.objs p).s.actorID, (w.objs p).s.sessionID⟩ none
        else w.sessions := by
  cases e with
  | frame k m =>
    obtain ⟨hm, ho, hs, ht⟩ := write_frame w k m.frame
    exact ⟨hm, ho, ht, hs⟩
  | register k =>
    simp only [World.effect]
    split <;> exact ⟨rfl, rfl, rfl, rfl⟩
  | wake =>
    obtain ⟨-, hm, ho, hs, ht⟩ := resume_frame w (w.objs p).s.actorID
    exact ⟨hm, ho, ht, hs⟩
  | removeSession | upstream | closeWrite => exact ⟨rfl, rfl, rfl, rfl⟩

theorem actOn_frame {w : World} {p : Ptr} {a : Act} {c : Choice} {r : Result}
    (h : Does (w.objs p).s a c r) : (w.actOn p r).made = w.made ∧
      (w.actOn p r).objs = Function.update w.objs p ((w.objs p).after r) ∧
      (w.actOn p r).threads = w.threads ∧ (w.actOn p r).sessions =
        if .removeSession ∈ r.eff then
          Function.update w.sessions ⟨r.s.actorID, r.s.sessionID⟩ none
        else w.sessions := by
  obtain ⟨he, hw⟩ | ⟨e, he, hw⟩ := actOn_eq h
  · rw [hw, he]
    exact ⟨rfl, rfl, rfl, rfl⟩
  · obtain ⟨hm, ho, ht, hs⟩ := effect_frame (w.setObj p ((w.objs p).after r)) p e
    rw [hw, hm, ho, ht, hs, he]
    refine ⟨rfl, rfl, rfl, ?_⟩
    simp [World.setObj, Obj.after, eq_comm]

theorem turns_actOn {w : World} {p : Ptr} {a : Act} {c : Choice} {r : Result}
    (h : Does (w.objs p).s a c r) (j : ConnId) :
    Turns (.act p a) j (w.conns j) ((w.actOn p r).conns j) := by
  obtain ⟨-, hw⟩ | ⟨e, he, hw⟩ := actOn_eq h
  · rw [hw]
    exact .same _
  · rw [hw]
    cases e with
    | frame k m => exact turns_write _ (w.setObj p _) k m.frame j
    | register k =>
      have ha : a = .register k := by
        cases h with
        | register => simpa using he
        | produceDetached | produceLost =>
          dsimp only at he
          split_ifs at he
          cases he
        | _ => cases he
      subst ha
      simp only [World.effect]
      split
      · rename_i t ht
        exact turns_setConn (w := w.setObj p _) ht (.registered t p rfl) j
      · exact .same _
    | wake =>
      simp only [World.effect, resume_frame]
      exact .same _
    | removeSession | upstream | closeWrite => exact .same _

theorem HDoes.turns {cfg : Config} {w w₁ : World} {a : HAct} {push : List HAct}
    (h : HDoes cfg w a w₁ push) (j : ConnId) : Turns a j (w.conns j) (w₁.conns j) := by
  cases h with
  | act p a c r hr => exact turns_actOn hr j
  | reply k f => exact turns_write _ w k f j
  | detachAll k t ht => exact turns_setConn ht (.emptied t rfl) j
  | closeConn k t ht => exact turns_setConn ht (.wrote t t.sent true) j
  | _ => exact .same _

theorem HDoes.threads {cfg : Config} {w w₁ : World} {a : HAct} {push : List HAct}
    (h : HDoes cfg w a w₁ push) : w₁.threads = w.threads ∨
      ∃ p, a = .startDial p ∧ push = [] ∧
        w₁.threads = Function.update w.threads (.reader p) [.act p .dial] := by
  cases h with
  | act p a c r hr => exact .inl (actOn_frame hr).2.2.1
  | reply k f => exact .inl (write_frame w k f).2.2.2
  | startDial p => exact .inr ⟨p, rfl, rfl, rfl⟩
  | _ => exact .inl rfl

theorem HDoes.objs {cfg : Config} {w w₁ : World} {a : HAct} {push : List HAct}
    (h : HDoes cfg w a w₁ push) :
    (∃ k sid target t, a = .openSession k sid target ∧ w.conns k = some t ∧
      w.sessions ⟨t.actorID, sid⟩ = none ∧ w₁ = w.make cfg ⟨t.actorID, sid⟩ target ∧
      push = [.act ⟨⟨t.actorID, sid⟩, w.made ⟨t.actorID, sid⟩⟩ (.bind k),
        .startDial ⟨⟨t.actorID, sid⟩, w.made ⟨t.actorID, sid⟩⟩]) ∨
    (∃ p b c r, a = .act p b ∧ Does (w.objs p).s b c r ∧ w₁ = w.actOn p r ∧
      push = r.push.map (.act p)) ∨
    (∀ p b, a ≠ .act p b) ∧ w₁.objs = w.objs ∧ w₁.made = w.made ∧ w₁.sessions = w.sessions := by
  cases h with
  | openSession k sid target t ht hs => exact .inl ⟨k, sid, target, t, rfl, ht, hs, rfl, rfl⟩
  | act p a c r hr => exact .inr (.inl ⟨p, a, c, r, rfl, hr, rfl, rfl⟩)
  | reply k f =>
    obtain ⟨hm, ho, hs, -⟩ := write_frame w k f
    exact .inr (.inr ⟨by simp, ho, hm, hs⟩)
  | _ => exact .inr (.inr ⟨by simp, rfl, rfl, rfl⟩)

section Run
variable {cfg : Config} {w w₁ : World} {a : HAct} {push rest : List HAct} {t : Thread}

theorem threads_run (hdo : HDoes cfg w a w₁ push) (ht : w.threads t = a :: rest) (u : Thread) :
    u = t ∧ (w₁.setThread t (push ++ rest)).threads u = push ++ rest ∨
    u ≠ t ∧ (w₁.setThread t (push ++ rest)).threads u = w.threads u ∨
    ∃ p, a = .startDial p ∧ u ≠ t ∧ u = .reader p ∧
      (w₁.setThread t (push ++ rest)).threads u = [.act p .dial] := by
  rcases threads_setThread w₁ t (push ++ rest) u with h | ⟨hu, h⟩
  · exact .inl h
  · rw [h]
    obtain hth | ⟨p, rfl, -, hth⟩ := hdo.threads
    · exact .inr (.inl ⟨hu, congrFun hth u⟩)
    · rw [hth]
      by_cases hp : u = .reader p
      · subst hp
        exact .inr (.inr ⟨p, rfl, hu, rfl, Function.update_self ..⟩)
      · exact .inr (.inl ⟨hu, Function.update_of_ne hp ..⟩)

theorem mem_threads_run {u : Thread} {x : HAct} (hdo : HDoes cfg w a w₁ push)
    (ht : w.threads t = a :: rest) (hx : x ∈ (w₁.setThread t (push ++ rest)).threads u) :
    x ∈ w.threads u ∧ (u = t → x ∈ rest) ∨ u = t ∧ x ∈ push ∨
      ∃ p, a = .startDial p ∧ u = .reader p ∧ x = .act p .dial := by
  rcases threads_run hdo ht u with ⟨rfl, h⟩ | ⟨hu, h⟩ | ⟨p, ha, -, hu, h⟩ <;> rw [h] at hx
  · rcases List.mem_append.mp hx with hx | hx
    · exact .inr (.inl ⟨rfl, hx⟩)
    · exact .inl ⟨by simp [ht, hx], fun _ => hx⟩
  · exact .inl ⟨hx, fun h => absurd h hu⟩
  · exact .inr (.inr ⟨p, ha, hu, List.mem_singleton.mp hx⟩)

theorem mem_run_of_mem {u : Thread} {x : HAct} (hdo : HDoes cfg w a w₁ push)
    (ht : w.threads t = a :: rest) (hx : x ∈ w.threads u) :
    u = t ∧ x = a ∨ x ∈ (w₁.setThread t (push ++ rest)).threads u ∨
      ∃ p, a = .startDial p ∧ u = .reader p := by
  rcases threads_run hdo ht u with ⟨rfl, h⟩ | ⟨-, h⟩ | ⟨p, ha, -, hu, -⟩
  · rw [ht] at hx
    refine (List.mem_cons.mp hx).imp (fun h => ⟨rfl, h⟩) fun hx => .inl ?_
    rw [h]
    exact List.mem_append_right _ hx
  · rw [h]
    exact .inr (.inl hx)
  · exact .inr (.inr ⟨p, ha, hu⟩)

theorem mem_tail_run {u : Thread} {x : HAct} (hdo : HDoes cfg w a w₁ push)
    (ht : w.threads t = a :: rest) (hx : x ∈ ((w₁.setThread t (push ++ rest)).threads u).tail) :
    x ∈ (w.threads u).tail ∨ x ∈ push.tail := by
  rcases threads_run hdo ht u with ⟨rfl, h⟩ | ⟨-, h⟩ | ⟨p, -, -, -, h⟩ <;> rw [h] at hx
  · rw [ht, List.tail_cons]
    cases push with
    | nil => exact .inl (List.mem_of_mem_tail hx)
    | cons y push => exact (List.mem_append.mp hx).symm
  · exact .inl hx
  · cases hx

end Run

end SubstratePoc.Server
