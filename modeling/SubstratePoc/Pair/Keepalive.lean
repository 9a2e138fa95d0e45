import SubstratePoc.Lib.Run
import SubstratePoc.Tunnel.Wire

namespace SubstratePoc.Keepalive
open Lib Tunnel

/-- Times are in nanoseconds. -/
structure Config where
  pingInterval : ℕ
  pongTimeout : ℕ
  tunnelReadTimeout : ℕ

def second : ℕ := 1000000000

/-- The defaults of `NewClient` and `withDefaults`. -/
def Config.withDefaults (cfg : Config) : Config where
  pingInterval := if cfg.pingInterval = 0 then second else cfg.pingInterval
  pongTimeout := if cfg.pongTimeout = 0 then 3 * second else cfg.pongTimeout
  tunnelReadTimeout := if cfg.tunnelReadTimeout = 0 then 4 * second else cfg.tunnelReadTimeout

def isSession : FrameType → Bool
  | .typeHello | .typePing | .typePong => false
  | _ => true

/-- A frame, with the time at which its `WriteFrame` was called. -/
structure Flight where
  sent : ℕ
  type : FrameType
  deriving DecidableEq

/-- `serveTunnel`. -/
inductive Loop
  /-- the first `ReadFrame`, which has no deadline -/
  | hello
  | reading (deadline : ℕ)
  | handling (f : Flight)
  | ended
  deriving DecidableEq

/-- One tunnel connection.  `tick` is when the ticker of `pingLoop` fires next, `pinging` since when
`pingLoop` is in the `WriteFrame` of a PING, `handling` the frame that `readLoop` works on, and `cut`
the time since which what is written gets lost. -/
structure State where
  now : ℕ
  lastPong : ℕ
  tick : Option ℕ
  pinging : Option ℕ
  closed : Bool
  handling : Option Flight
  broker : Loop
  up : List Flight
  down : List Flight
  cut : Option ℕ
  deriving DecidableEq

namespace State

def toBroker (w : State) (f : Flight) : State :=
  if w.cut.isSome then w else { w with up := w.up ++ [f] }

def toSidecar (w : State) (f : Flight) : State :=
  if w.cut.isSome then w else { w with down := w.down ++ [f] }

end State

inductive Event
  | pass (n : ℕ)
  /-- `pingLoop` makes its ticker -/
  | startPing
  /-- `pingLoop` takes a tick -/
  | tick
  /-- the PING has been written -/
  | pinged
  | pingFail
  /-- a session writes a frame -/
  | send (type : FrameType)
  /-- `readLoop` reads a frame -/
  | readFrame
  | handled
  | brokerSend (type : FrameType)
  | brokerRead
  /-- `handleFrame` returns; for a PING it has written the PONG -/
  | brokerHandled
  /-- the deadline of the broker's read has passed -/
  | brokerTimeout
  /-- the first `m` and `n` frames in flight have arrived and can still be read -/
  | cut (m n : ℕ)
  deriving DecidableEq

/-- When a ticker fires after a tick for `t` was taken: ticks for which nobody was ready are
dropped. -/
def Config.nextTick (cfg : Config) (t now : ℕ) : ℕ :=
  t + cfg.pingInterval * ((now - t) / cfg.pingInterval + 1)

def step (cfg : Config) (w : State) : Event → Option State
  | .pass n => some { w with now := w.now + n }
  | .startPing =>
    if w.tick.isSome || w.closed then none
    else some { w with tick := some (w.now + cfg.pingInterval) }
  | .tick => match w.tick, w.pinging with
    | some t, none =>
      if w.now < t || w.closed then none
      else if cfg.pongTimeout < w.now - w.lastPong then some { w with closed := true }
      else some { w with tick := some (cfg.nextTick t w.now), pinging := some w.now }
    | _, _ => none
  | .pinged => match w.pinging with
    | none => none
    | some t =>
      if w.closed then none else some ({ w with pinging := none }.toBroker ⟨t, .typePing⟩)
  | .pingFail => match w.pinging with
    | none => none
    | some _ => if w.closed then none else some { w with closed := true }
  | .send type =>
    if !isSession type || w.closed then none else some (w.toBroker ⟨w.now, type⟩)
  | .readFrame => match w.handling, w.down with
    | none, f :: down =>
      if w.closed then none
      else match f.type with
        | .typePong => some { w with down, lastPong := w.now }
        | _ => some { w with down, handling := some f }
    | _, _ => none
  | .handled => match w.handling with
    | none => none
    | some _ => some { w with handling := none }
  | .brokerSend type =>
    if !isSession type || w.broker = .ended then none else some (w.toSidecar ⟨w.now, type⟩)
  | .brokerRead => match w.broker, w.up with
    | .hello, f :: up =>
      if f.type = .typeHello then
        some { w with up, broker := .reading (w.now + cfg.tunnelReadTimeout) }
      else some { w with up, broker := .ended }
    | .reading _, f :: up => some { w with up, broker := .handling f }
    | _, _ => none
  | .brokerHandled => match w.broker with
    | .handling f =>
      let w' := { w with broker := .reading (w.now + cfg.tunnelReadTimeout) }
      some (if f.type = .typePing then w'.toSidecar ⟨w.now, .typePong⟩ else w')
    | _ => none
  | .brokerTimeout => match w.broker with
    | .reading deadline => if w.now < deadline then none else some { w with broker := .ended }
    | _ => none
  | .cut m n =>
    if w.cut.isSome then none
    else some { w with up := w.up.take m, down := w.down.take n, cut := some w.now }

/-- `connectOnce` has written HELLO and sets `lastPong`. -/
def start : State where
  now := 0
  lastPong := 0
  tick := none
  pinging := none
  closed := false
  handling := none
  broker := .hello
  up := [⟨0, .typeHello⟩]
  down := []
  cut := none

/-! ## What a step can do -/

inductive Turns (cfg : Config) (w : State) : Event → State → Prop
  | pass (n : ℕ) : Turns cfg w (.pass n) { w with now := w.now + n }
  | startPing (ht : w.tick = none) (hc : w.closed = false) :
    Turns cfg w .startPing { w with tick := some (w.now + cfg.pingInterval) }
  | overdue (t : ℕ) (ht : w.tick = some t) (hp : w.pinging = none) (hle : t ≤ w.now)
    (hc : w.closed = false) (h : cfg.pongTimeout < w.now - w.lastPong) :
    Turns cfg w .tick { w with closed := true }
  | tick (t : ℕ) (ht : w.tick = some t) (hp : w.pinging = none) (hle : t ≤ w.now)
    (hc : w.closed = false) (h : w.now - w.lastPong ≤ cfg.pongTimeout) :
    Turns cfg w .tick { w with tick := some (cfg.nextTick t w.now), pinging := some w.now }
  | pinged (t : ℕ) (hp : w.pinging = some t) (hc : w.closed = false) :
    Turns cfg w .pinged ({ w with pinging := none }.toBroker ⟨t, .typePing⟩)
  | pingFail : Turns cfg w .pingFail { w with closed := true }
  | send (type : FrameType) (hs : isSession type = true) :
    Turns cfg w (.send type) (w.toBroker ⟨w.now, type⟩)
  | pong (f : Flight) (down : List Flight) (hd : w.down = f :: down) (hf : f.type = .typePong) :
    Turns cfg w .readFrame { w with down, lastPong := w.now }
  | readFrame (f : Flight) (down : List Flight) (hd : w.down = f :: down) (hh : w.handling = none)
    (hf : f.type ≠ .typePong) : Turns cfg w .readFrame { w with down, handling := some f }
  | handled : Turns cfg w .handled { w with handling := none }
  | brokerSend (type : FrameType) (hs : isSession type = true) :
    Turns cfg w (.brokerSend type) (w.toSidecar ⟨w.now, type⟩)
  | hello (f : Flight) (up : List Flight) (hb : w.broker = .hello) (hu : w.up = f :: up) :
    Turns cfg w .brokerRead { w with up, broker := .reading (w.now + cfg.tunnelReadTimeout) }
  | noHello (f : Flight) (up : List Flight) (hb : w.broker = .hello) (hu : w.up = f :: up)
    (hf : f.type ≠ .typeHello) : Turns cfg w .brokerRead { w with up, broker := .ended }
  | brokerRead (deadline : ℕ) (f : Flight) (up : List Flight) (hb : w.broker = .reading deadline)
    (hu : w.up = f :: up) : Turns cfg w .brokerRead { w with up, broker := .handling f }
  | brokerPing (f : Flight) (hb : w.broker = .handling f) (hf : f.type = .typePing) :
    Turns cfg w .brokerHandled
      ({ w with broker := .reading (w.now + cfg.tunnelReadTimeout) }.toSidecar ⟨w.now, .typePong⟩)
  | brokerHandled (f : Flight) (hb : w.broker = .handling f) (hf : f.type ≠ .typePing) :
    Turns cfg w .brokerHandled { w with broker := .reading (w.now + cfg.tunnelReadTimeout) }
  | brokerTimeout (deadline : ℕ) (hb : w.broker = .reading deadline) (hle : deadline ≤ w.now) :
    Turns cfg w .brokerTimeout { w with broker := .ended }
  | cut (m n : ℕ) (hc : w.cut = none) : Turns cfg w (.cut m n)
    { w with up := w.up.take m, down := w.down.take n, cut := some w.now }

theorem step_turns {cfg : Config} {w w' : State} {e : Event} (h : step cfg w e = some w') :
    Turns cfg w e w' := by
  cases e with
  | pass n =>
    cases h
    exact .pass n
  | startPing =>
    simp only [step] at h
    split_ifs at h with hc
    cases h
    simp only [Bool.or_eq_true, not_or, Bool.not_eq_true, Option.isSome_eq_false_iff,
      Option.isNone_iff_eq_none] at hc
    exact .startPing hc.1 hc.2
  | tick =>
    simp only [step] at h
    split at h
    · rename_i t ht hp
      split_ifs at h with hc ho <;> cases h <;>
        simp only [Bool.or_eq_true, not_or, Bool.not_eq_true, decide_eq_false_iff_not, not_lt] at hc
      · exact .overdue t ht hp hc.1 hc.2 ho
      · exact .tick t ht hp hc.1 hc.2 (not_lt.mp ho)
    · cases h
  | pinged =>
    simp only [step] at h
    split at h
    · cases h
    · rename_i t hp
      split_ifs at h with hc
      cases h
      exact .pinged t hp (by simpa using hc)
  | pingFail =>
    simp only [step] at h
    split at h
    · cases h
    · split_ifs at h
      cases h
      exact .pingFail
  | send type =>
    simp only [step] at h
    split_ifs at h with hc
    cases h
    simp only [Bool.or_eq_true, not_or, Bool.not_eq_true, Bool.not_eq_false'] at hc
    exact .send type hc.1
  | readFrame =>
    simp only [step] at h
    split at h
    · rename_i f down hh hd
      split_ifs at h
      split at h <;> cases h
      · exact .pong f down hd (by assumption)
      · exact .readFrame f down hd hh (by assumption)
    · cases h
  | handled =>
    simp only [step] at h
    split at h <;> cases h
    exact .handled
  | brokerSend type =>
    simp only [step] at h
    split_ifs at h with hc
    cases h
    simp only [Bool.or_eq_true, not_or, Bool.not_eq_true, Bool.not_eq_false'] at hc
    exact .brokerSend type hc.1
  | brokerRead =>
    simp only [step] at h
    split at h
    · rename_i f up hb hu
      split_ifs at h with hf <;> cases h
      · exact .hello f up hb hu
      · exact .noHello f up hb hu hf
    · cases h
      exact .brokerRead _ _ _ (by assumption) (by assumption)
    · cases h
  | brokerHandled =>
    simp only [step] at h
    split at h
    · rename_i f hb
      split_ifs at h with hf <;> cases h
      · exact .brokerPing f hb hf
      · exact .brokerHandled f hb hf
    · cases h
  | brokerTimeout =>
    simp only [step] at h
    split at h
    · split_ifs at h with hlt
      cases h
      exact .brokerTimeout _ (by assumption) (not_lt.mp hlt)
    · cases h
  | cut m n =>
    simp only [step] at h
    split_ifs at h with hc
    cases h
    simp only [Bool.not_eq_true, Option.isSome_eq_false_iff, Option.isNone_iff_eq_none] at hc
    exact .cut m n hc

/-! ## A connection that is in order -/

def State.ping (w : State) : List Flight := w.pinging.toList.map (⟨·, .typePing⟩)

def Loop.frame : Loop → List Flight
  | .handling f => [f]
  | _ => []

/-- The frames whose `WriteFrame` has been called and that are not dealt with. -/
def State.flights (w : State) : List Flight :=
  w.ping ++ w.up ++ w.down ++ w.handling.toList ++ w.broker.frame

/-- Nothing is lost, every frame is dealt with `delay` after its `WriteFrame` was called at the
latest, and the ping loop comes to its ticks `late` after they are due at the latest. -/
def prompt (delay late : ℕ) (w : State) : Event → Prop
  | .pass n => (∀ f ∈ w.flights, w.now + n ≤ f.sent + delay) ∧
    (w.closed = false → w.now + n ≤ w.tick.getD 0 + late)
  | .pingFail | .cut _ _ => False
  | _ => True

instance (delay late : ℕ) (w : State) (e : Event) : Decidable (prompt delay late w e) := by
  unfold prompt
  split <;> infer_instance

section Due
variable (cfg : Config) (delay late : ℕ)

/-- When the next tick is due; the ping loop may not have started. -/
def State.due (w : State) : ℕ := w.tick.getD (late + cfg.pingInterval)

/-- When the PONGs that are under way are read at the latest, and those to the PINGs under way. -/
def State.pongs (w : State) : List ℕ :=
  (w.down.filter (·.type = .typePong)).map (·.sent + delay) ++
    ((w.broker.frame ++ w.up ++ w.ping).filter (·.type = .typePing)).map (·.sent + 2 * delay)

def State.PongBy (w : State) (t : ℕ) : Prop :=
  (∃ x ∈ w.pongs delay, x ≤ t) ∨ w.due cfg late + late + 2 * delay ≤ t

def State.FrameBefore (w : State) (t : ℕ) : Prop :=
  (∃ f ∈ w.up ++ w.ping, f.sent + delay < t) ∨ w.due cfg late + late + delay < t

/-- The connection stands, and both ends will hear from each other in time. -/
structure Alive (w : State) : Prop where
  opened : w.closed = false
  uncut : w.cut = none
  serving : w.broker ≠ .ended
  greeting : w.broker = .hello → ∃ up, w.up = ⟨0, .typeHello⟩ :: up
  past : ∀ f ∈ w.flights, f.sent ≤ w.now
  fresh : ∀ f ∈ w.flights, w.now ≤ f.sent + delay
  ticking : w.now ≤ w.tick.getD 0 + late
  soon : ∀ t, w.tick = some t → t ≤ w.now + cfg.pingInterval
  pong : w.PongBy cfg delay late (w.lastPong + cfg.pingInterval + 2 * late + 2 * delay)
  read : ∀ deadline, w.broker = .reading deadline → w.FrameBefore cfg delay late deadline

end Due

variable {cfg : Config} {delay late : ℕ} {w w' : State} {e : Event}

theorem State.toBroker_eq (h : w.cut = none) (f : Flight) :
    w.toBroker f = { w with up := w.up ++ [f] } := by
  unfold toBroker
  rw [h]
  rfl

theorem State.toSidecar_eq (h : w.cut = none) (f : Flight) :
    w.toSidecar f = { w with down := w.down ++ [f] } := by
  unfold toSidecar
  rw [h]
  rfl

theorem due_le (late : ℕ) (hsoon : ∀ t, w.tick = some t → t ≤ w.now + cfg.pingInterval) :
    w.due cfg late ≤ w.now + cfg.pingInterval + late := by
  unfold State.due
  cases ht : w.tick with
  | none =>
    rw [Option.getD_none]
    omega
  | some t =>
    have := hsoon t ht
    rw [Option.getD_some]
    omega

theorem tick_le_due (cfg : Config) (late : ℕ) (w : State) : w.tick.getD 0 ≤ w.due cfg late := by
  unfold State.due
  cases w.tick <;> simp

theorem pongs_between (hpast : ∀ f ∈ w.flights, f.sent ≤ w.now)
    (hfresh : ∀ f ∈ w.flights, w.now ≤ f.sent + delay) :
    ∀ x ∈ w.pongs delay, w.now ≤ x ∧ x ≤ w.now + 2 * delay := by
  intro x hx
  simp only [State.pongs, List.mem_append, List.mem_map, List.mem_filter] at hx
  rcases hx with ⟨f, ⟨hf, -⟩, rfl⟩ | ⟨f, ⟨hf, -⟩, rfl⟩
  · have hmem : f ∈ w.flights := by simp [State.flights, hf]
    have h1 := hpast f hmem
    have h2 := hfresh f hmem
    omega
  · have hmem : f ∈ w.flights := by
      simp only [State.flights, List.mem_append]
      tauto
    have h1 := hpast f hmem
    have h2 := hfresh f hmem
    omega

theorem pongBy_now (hsoon : ∀ t, w.tick = some t → t ≤ w.now + cfg.pingInterval) :
    w.PongBy cfg delay late (w.now + cfg.pingInterval + 2 * late + 2 * delay) := by
  have hdue := due_le late hsoon
  exact .inr (by omega)

theorem frameBefore_now {t : ℕ} (hsoon : ∀ t, w.tick = some t → t ≤ w.now + cfg.pingInterval)
    (ht : cfg.pingInterval + 2 * late + delay < t) :
    w.FrameBefore cfg delay late (w.now + t) := by
  have hdue := due_le late hsoon
  exact .inr (by omega)

theorem Alive.now_le (h : Alive cfg delay late w) :
    w.now ≤ w.lastPong + cfg.pingInterval + 2 * late + 2 * delay := by
  have htick := tick_le_due cfg late w
  have hnow := h.ticking
  rcases h.pong with ⟨x, hx, hle⟩ | hle
  · exact (pongs_between h.past h.fresh x hx).1.trans hle
  · omega

theorem Alive.now_lt (h : Alive cfg delay late w) {deadline : ℕ}
    (hb : w.broker = .reading deadline) : w.now < deadline := by
  have htick := tick_le_due cfg late w
  have hnow := h.ticking
  rcases h.read deadline hb with ⟨f, hf, hlt⟩ | hlt
  · refine lt_of_le_of_lt (h.fresh f ?_) hlt
    rw [List.mem_append] at hf
    simp only [State.flights, List.mem_append]
    tauto
  · omega

theorem nextTick_gt (hpos : 0 < cfg.pingInterval) {t now : ℕ} (h : t ≤ now) :
    now < cfg.nextTick t now ∧ cfg.nextTick t now ≤ now + cfg.pingInterval := by
  unfold Config.nextTick
  have h1 := Nat.lt_mul_div_succ (now - t) hpos
  have h2 := Nat.mul_div_le (now - t) cfg.pingInterval
  rw [Nat.mul_add, Nat.mul_one] at h1 ⊢
  omega

theorem Alive.flights (h : Alive cfg delay late w) (v : State) (hnow : v.now = w.now)
    (hsub : ∀ f ∈ v.flights, f ∈ w.flights ∨ f.sent = w.now) :
    (∀ f ∈ v.flights, f.sent ≤ v.now) ∧ ∀ f ∈ v.flights, v.now ≤ f.sent + delay := by
  rw [hnow]
  constructor <;> intro f hf <;> rcases hsub f hf with hf | hf
  · exact h.past f hf
  · omega
  · exact h.fresh f hf
  · omega

theorem State.PongBy.of_le {v : State} {t t' : ℕ} (h : w.PongBy cfg delay late t) (ht : t ≤ t')
    (hpongs : ∀ x ∈ w.pongs delay, ∃ y ∈ v.pongs delay, y ≤ x)
    (hdue : v.due cfg late ≤ w.due cfg late) : v.PongBy cfg delay late t' := by
  rcases h with ⟨x, hx, hle⟩ | hle
  · obtain ⟨y, hy, hyx⟩ := hpongs x hx
    exact .inl ⟨y, hy, by omega⟩
  · exact .inr (by omega)

theorem State.FrameBefore.of_le {v : State} {t : ℕ} (h : w.FrameBefore cfg delay late t)
    (hup : ∀ f ∈ w.up ++ w.ping, f ∈ v.up ++ v.ping) (hdue : v.due cfg late ≤ w.due cfg late) :
    v.FrameBefore cfg delay late t := by
  rcases h with ⟨f, hf, hlt⟩ | hlt
  · exact .inl ⟨f, hup f hf, hlt⟩
  · exact .inr (by omega)

section Step
variable (h : Alive cfg delay late w)
include h

theorem Alive.pass {n : ℕ} (hp : prompt delay late w (.pass n)) :
    Alive cfg delay late { w with now := w.now + n } where
  opened := h.opened
  uncut := h.uncut
  serving := h.serving
  greeting := h.greeting
  past f hf := (h.past f hf).trans (Nat.le_add_right _ _)
  fresh := hp.1
  ticking := hp.2 h.opened
  soon t ht := (h.soon t ht).trans (by dsimp only; omega)
  pong := h.pong
  read := h.read

theorem Alive.startPing (ht : w.tick = none) :
    Alive cfg delay late { w with tick := some (w.now + cfg.pingInterval) } := by
  have hnow : w.now ≤ late := by
    have := h.ticking
    rwa [ht, Option.getD_none, Nat.zero_add] at this
  have hdue : State.due cfg late { w with tick := some (w.now + cfg.pingInterval) } ≤
      w.due cfg late := by
    rw [State.due, State.due, ht, Option.getD_none, Option.getD_some]
    omega
  refine ⟨h.opened, h.uncut, h.serving, h.greeting, h.past, h.fresh, ?_, ?_, ?_, fun dl hdl => ?_⟩
  · show w.now ≤ w.now + cfg.pingInterval + late
    omega
  · intro t ht
    exact (Option.some.inj ht).ge
  · exact h.pong.of_le le_rfl (fun x hx => ⟨x, hx, le_rfl⟩) hdue
  · exact (h.read dl hdl).of_le (fun f hf => hf) hdue

theorem Alive.tick (hpos : 0 < cfg.pingInterval) {t : ℕ} (ht : w.tick = some t)
    (hp : w.pinging = none) (hle : t ≤ w.now) :
    Alive cfg delay late
      { w with tick := some (cfg.nextTick t w.now), pinging := some w.now } := by
  -- the PING takes the place of the tick it is sent for
  obtain ⟨hgt, hnext⟩ := nextTick_gt hpos hle
  have hnow := h.ticking
  have hdue : w.due cfg late = t := by rw [State.due, ht, Option.getD_some]
  have hold : w.ping = [] := by rw [State.ping, hp]; rfl
  rw [ht, Option.getD_some] at hnow
  obtain ⟨hpast, hfresh⟩ := h.flights
    { w with tick := some (cfg.nextTick t w.now), pinging := some w.now } rfl (by
      intro f hf
      simp only [State.flights, State.ping, Option.toList_some, List.map_singleton,
        List.mem_append, List.mem_singleton] at hf ⊢
      rcases hf with (((rfl | hf) | hf) | hf) | hf <;> tauto)
  refine ⟨h.opened, h.uncut, h.serving, h.greeting, hpast, hfresh, ?_, ?_, .inl ?_,
    fun dl hdl => .inl ?_⟩
  · show w.now ≤ cfg.nextTick t w.now + late
    omega
  · intro t' ht'
    obtain rfl := Option.some.inj ht'
    exact hnext
  · rcases h.pong with ⟨x, hx, hle⟩ | hle
    · refine ⟨x, ?_, hle⟩
      simp only [State.pongs, hold, List.append_nil, List.filter_append, List.map_append,
        List.mem_append] at hx ⊢
      tauto
    · refine ⟨w.now + 2 * delay, ?_, ?_⟩
      · simp [State.pongs, State.ping]
      · dsimp only
        omega
  · rcases h.read dl hdl with ⟨f, hf, hlt⟩ | hlt
    · rw [hold, List.append_nil] at hf
      exact ⟨f, List.mem_append_left _ hf, hlt⟩
    · refine ⟨⟨w.now, .typePing⟩, by simp [State.ping], ?_⟩
      dsimp only
      omega

theorem Alive.write (f : Flight) (pinging : Option ℕ)
    (hsub : ∀ g ∈ State.flights { w with pinging, up := w.up ++ [f] },
      g ∈ w.flights ∨ g.sent = w.now)
    (hping : ∀ g ∈ w.ping, g ∈ State.ping { w with pinging } ∨ g = f) :
    Alive cfg delay late { w with pinging, up := w.up ++ [f] } := by
  -- a frame is put on the wire, by a session or by the ping loop
  obtain ⟨hpast, hfresh⟩ := h.flights { w with pinging, up := w.up ++ [f] } rfl hsub
  refine ⟨h.opened, h.uncut, h.serving, fun hb => ?_, hpast, hfresh, h.ticking, h.soon,
    h.pong.of_le le_rfl (fun x hx => ⟨x, ?_, le_rfl⟩) le_rfl, fun dl hdl =>
    (h.read dl hdl).of_le (fun g hg => ?_) le_rfl⟩
  · obtain ⟨up, hup⟩ := h.greeting hb
    exact ⟨up ++ [f], by rw [hup]; rfl⟩
  · simp only [State.pongs, List.mem_append, List.mem_map, List.mem_filter] at hx ⊢
    refine hx.imp_right ?_
    rintro ⟨g, ⟨hg, htype⟩, rfl⟩
    refine ⟨g, ⟨?_, htype⟩, rfl⟩
    rcases hg with (hg | hg) | hg
    · exact .inl (.inl hg)
    · exact .inl (.inr (.inl hg))
    · rcases hping g hg with hg | rfl
      · exact .inr hg
      · exact .inl (.inr (.inr (List.mem_singleton_self _)))
  · rw [List.mem_append] at hg
    simp only [List.mem_append, List.mem_singleton]
    rcases hg with hg | hg
    · exact .inl (.inl hg)
    · rcases hping g hg with hg | rfl
      · exact .inr hg
      · exact .inl (.inr rfl)

theorem Alive.send (type : FrameType) : Alive cfg delay late (w.toBroker ⟨w.now, type⟩) := by
  rw [State.toBroker_eq h.uncut]
  refine h.write ⟨w.now, type⟩ w.pinging (fun g hg => ?_) fun g hg => .inl hg
  simp only [State.flights, List.mem_append, List.mem_singleton] at hg ⊢
  rcases hg with (((hg | hg | rfl) | hg) | hg) | hg <;> tauto

theorem Alive.pinged {t : ℕ} (hp : w.pinging = some t) :
    Alive cfg delay late ({ w with pinging := none }.toBroker ⟨t, .typePing⟩) := by
  have hold : w.ping = [⟨t, .typePing⟩] := by rw [State.ping, hp]; rfl
  rw [State.toBroker_eq (by exact h.uncut)]
  refine h.write ⟨t, .typePing⟩ none (fun g hg => .inl ?_) fun g hg => .inr ?_
  · simp only [State.flights, State.ping, hp, Option.toList_some, Option.toList_none, List.map_nil,
      List.map_singleton, List.nil_append, List.mem_append, List.mem_singleton] at hg ⊢
    tauto
  · rwa [hold, List.mem_singleton] at hg

theorem Alive.brokerSend (type : FrameType) :
    Alive cfg delay late (w.toSidecar ⟨w.now, type⟩) := by
  rw [State.toSidecar_eq h.uncut]
  obtain ⟨hpast, hfresh⟩ := h.flights { w with down := w.down ++ [⟨w.now, type⟩] } rfl (by
    intro g hg
    simp only [State.flights, State.ping, List.mem_append, List.mem_singleton] at hg ⊢
    rcases hg with ((hg | hg | rfl) | hg) | hg <;> tauto)
  refine ⟨h.opened, h.uncut, h.serving, h.greeting, hpast, hfresh, h.ticking, h.soon,
    h.pong.of_le le_rfl (fun x hx => ⟨x, ?_, le_rfl⟩) le_rfl, h.read⟩
  simp only [State.pongs, List.filter_append, List.map_append, List.mem_append] at hx ⊢
  tauto

theorem Alive.pong_read {f : Flight} {down : List Flight} (hd : w.down = f :: down) :
    Alive cfg delay late { w with down, lastPong := w.now } := by
  obtain ⟨hpast, hfresh⟩ := h.flights { w with down, lastPong := w.now } rfl (by
    intro g hg
    simp only [State.flights, State.ping, hd, List.mem_append, List.mem_cons] at hg ⊢
    tauto)
  exact ⟨h.opened, h.uncut, h.serving, h.greeting, hpast, hfresh, h.ticking, h.soon,
    pongBy_now h.soon, h.read⟩

theorem Alive.readFrame {f : Flight} {down : List Flight} (hd : w.down = f :: down)
    (hf : f.type ≠ .typePong) : Alive cfg delay late { w with down, handling := some f } := by
  obtain ⟨hpast, hfresh⟩ := h.flights { w with down, handling := some f } rfl (by
    intro g hg
    simp only [State.flights, State.ping, hd, Option.toList_some, List.mem_append,
      List.mem_cons, List.not_mem_nil, or_false] at hg ⊢
    tauto)
  refine ⟨h.opened, h.uncut, h.serving, h.greeting, hpast, hfresh, h.ticking, h.soon,
    h.pong.of_le le_rfl (fun x hx => ⟨x, ?_, le_rfl⟩) le_rfl, h.read⟩
  simpa [State.pongs, hd, hf, State.ping] using hx

theorem Alive.handled : Alive cfg delay late { w with handling := none } := by
  obtain ⟨hpast, hfresh⟩ := h.flights { w with handling := none } rfl (by
    intro g hg
    simp only [State.flights, State.ping, Option.toList_none, List.mem_append] at hg ⊢
    tauto)
  exact ⟨h.opened, h.uncut, h.serving, h.greeting, hpast, hfresh, h.ticking, h.soon, h.pong, h.read⟩

theorem Alive.reads (hread : cfg.pingInterval + 2 * late + delay < cfg.tunnelReadTimeout)
    {up down : List Flight} (hup : ∀ f ∈ up, f ∈ w.up)
    (hdown : ∀ f ∈ down, f ∈ w.down ∨ f.sent = w.now)
    (hpong : ∀ x ∈ w.pongs delay, ∃ y ∈ State.pongs delay
      { w with up, down, broker := .reading (w.now + cfg.tunnelReadTimeout) }, y ≤ x) :
    Alive cfg delay late
      { w with up, down, broker := .reading (w.now + cfg.tunnelReadTimeout) } := by
  -- the broker begins to read
  obtain ⟨hpast, hfresh⟩ := h.flights
    { w with up, down, broker := .reading (w.now + cfg.tunnelReadTimeout) } rfl (by
      intro g hg
      simp only [State.flights, State.ping, Loop.frame, List.append_nil, List.mem_append] at hg ⊢
      rcases hg with ((hg | hg) | hg) | hg
      · tauto
      · have := hup g hg
        tauto
      · have := hdown g hg
        tauto
      · tauto)
  refine ⟨h.opened, h.uncut, by simp, by simp, hpast, hfresh, h.ticking, h.soon,
    h.pong.of_le le_rfl hpong le_rfl, fun dl hdl => ?_⟩
  cases hdl
  exact frameBefore_now h.soon hread

theorem Alive.brokerPing (hread : cfg.pingInterval + 2 * late + delay < cfg.tunnelReadTimeout)
    {f : Flight} (hb : w.broker = .handling f) (hf : f.type = .typePing) :
    Alive cfg delay late ({ w with broker := .reading (w.now + cfg.tunnelReadTimeout) }.toSidecar
      ⟨w.now, .typePong⟩) := by
  rw [State.toSidecar_eq (by exact h.uncut)]
  refine h.reads hread (fun g hg => hg) (fun g hg => ?_) fun x hx => ?_
  · rw [List.mem_append, List.mem_singleton] at hg
    exact hg.imp_right fun hg => by rw [hg]
  · -- the PONG takes the place of the PING it answers
    have hnow := h.fresh f (by simp [State.flights, hb, Loop.frame])
    simp only [State.pongs, hb, Loop.frame, List.filter_append, List.map_append, List.mem_append,
      List.filter_cons, List.filter_nil, hf, decide_true, if_true, List.map_cons, List.map_nil,
      List.mem_singleton] at hx
    rcases hx with hx | (rfl | hx) | hx
    · exact ⟨x, by simp only [State.pongs, List.filter_append, List.map_append, List.mem_append]; tauto,
        le_rfl⟩
    · exact ⟨w.now + delay, by simp [State.pongs], by omega⟩
    · exact ⟨x, by
        simp only [State.pongs, Loop.frame, List.nil_append, List.filter_append, List.map_append,
          List.mem_append]
        tauto, le_rfl⟩
    · exact ⟨x, by
        simp only [State.pongs, Loop.frame, List.nil_append, List.filter_append, List.map_append,
          List.mem_append, State.ping] at hx ⊢
        tauto, le_rfl⟩

theorem Alive.brokerHandled (hread : cfg.pingInterval + 2 * late + delay < cfg.tunnelReadTimeout)
    {f : Flight} (hb : w.broker = .handling f) (hf : f.type ≠ .typePing) :
    Alive cfg delay late { w with broker := .reading (w.now + cfg.tunnelReadTimeout) } := by
  refine h.reads hread (fun g hg => hg) (fun g hg => .inl hg) fun x hx => ⟨x, ?_, le_rfl⟩
  simpa [State.pongs, hb, Loop.frame, hf, State.ping] using hx

theorem Alive.brokerRead {f : Flight} {up : List Flight} {deadline : ℕ}
    (hb : w.broker = .reading deadline) (hu : w.up = f :: up) :
    Alive cfg delay late { w with up, broker := .handling f } := by
  obtain ⟨hpast, hfresh⟩ := h.flights { w with up, broker := .handling f } rfl (by
    intro g hg
    simp only [State.flights, State.ping, hu, Loop.frame, List.mem_append, List.mem_cons,
      List.not_mem_nil, or_false] at hg ⊢
    tauto)
  refine ⟨h.opened, h.uncut, by simp, by simp, hpast, hfresh, h.ticking, h.soon,
    h.pong.of_le le_rfl (fun x hx => ⟨x, ?_, le_rfl⟩) le_rfl, by simp⟩
  simpa only [State.pongs, hb, hu, Loop.frame, State.ping, List.nil_append, List.cons_append] using hx

theorem Alive.step (hpos : 0 < cfg.pingInterval)
    (hpong : cfg.pingInterval + 2 * late + 2 * delay ≤ cfg.pongTimeout)
    (hread : cfg.pingInterval + 2 * late + delay < cfg.tunnelReadTimeout)
    (hp : prompt delay late w e) (hstep : step cfg w e = some w') : Alive cfg delay late w' := by
  cases step_turns hstep with
  | pass n => exact h.pass hp
  | startPing ht hc => exact h.startPing ht
  | overdue t ht hnone hle hc ho =>
    have := h.now_le
    omega
  | tick t ht hnone hle hc ho => exact h.tick hpos ht hnone hle
  | pinged t hsome hc => exact h.pinged hsome
  | pingFail => exact hp.elim
  | send type hs => exact h.send type
  | pong f down hd hf => exact h.pong_read hd
  | readFrame f down hd hh hf => exact h.readFrame hd hf
  | handled => exact h.handled
  | brokerSend type hs => exact h.brokerSend type
  | hello f up hb hu =>
    obtain ⟨up', hup⟩ := h.greeting hb
    obtain ⟨rfl, rfl⟩ := List.cons.inj (hu.symm.trans hup)
    refine h.reads hread (fun g hg => hu ▸ List.mem_cons_of_mem _ hg) (fun g hg => .inl hg)
      fun x hx => ⟨x, ?_, le_rfl⟩
    simpa [State.pongs, hu, hb, Loop.frame, State.ping] using hx
  | noHello f up hb hu hf =>
    obtain ⟨up', hup⟩ := h.greeting hb
    obtain ⟨rfl, rfl⟩ := List.cons.inj (hu.symm.trans hup)
    exact absurd rfl hf
  | brokerRead deadline f up hb hu => exact h.brokerRead hb hu
  | brokerPing f hb hf => exact h.brokerPing hread hb hf
  | brokerHandled f hb hf => exact h.brokerHandled hread hb hf
  | brokerTimeout deadline hb hle =>
    have := h.now_lt hb
    omega
  | cut => exact hp.elim

end Step

/-- The defaults leave half a second for everything. -/
example : let cfg := Config.withDefaults ⟨0, 0, 0⟩
    cfg.pingInterval + 2 * (second / 2) + 2 * (second / 2) ≤ cfg.pongTimeout ∧
      cfg.pingInterval + 2 * (second / 2) + second / 2 < cfg.tunnelReadTimeout := by decide

def small : Config :=
  -- the proportions of the defaults
  ⟨10, 30, 40⟩

/-- What had arrived or was in hand when the connection was cut has been dealt with. -/
def State.drained (w : State) : Bool :=
  w.up = [] && w.down = [] && w.handling = none && w.broker.frame = []

/-- A PING is written within `write`, and the ping loop comes to a tick `late` after it is due and
the write before it is over; the broker's read returns `late` after its deadline; and both ends have
dealt with what had arrived `delay` after a cut. -/
def timely (delay late write : ℕ) (w : State) : Event → Bool
  | .pass n =>
    (w.closed || match w.pinging with
      | some since => w.now + n ≤ since + write
      | none => w.now + n ≤ w.tick.getD 0 + late + write) &&
    (match w.broker with
      | .reading deadline => w.now + n ≤ deadline + late
      | _ => true) &&
    (match w.cut with
      | some c => w.drained || w.now + n ≤ c + delay
      | none => true)
  | _ => true

section Cut
variable (cfg : Config) (delay late write : ℕ)

def Draining (w : State) : Prop := ∀ c, w.cut = some c → w.drained = false → w.now ≤ c + delay

/-- The sidecar: how long ago the last PONG can have been. -/
structure Watching (w : State) : Prop where
  lastPong : w.lastPong ≤ w.now
  ticking : w.closed = false → w.now ≤ w.tick.getD 0 + late + write
  writing : w.closed = false → ∀ t, w.pinging = some t →
    w.now ≤ t + write ∧ t ≤ w.tick.getD 0
  due : w.closed = false →
    w.due cfg late ≤ w.lastPong + cfg.pongTimeout + cfg.pingInterval + late + write
  cut : ∀ c, w.cut = some c → w.lastPong ≤ c + delay

/-- The broker: how long ago the last frame can have been. -/
structure Listening (w : State) : Prop where
  reading : ∀ dl, w.broker = .reading dl → w.now ≤ dl + late ∧ dl ≤ w.now + cfg.tunnelReadTimeout
  cut : ∀ c, w.cut = some c → ∀ dl, w.broker = .reading dl → dl ≤ c + delay + cfg.tunnelReadTimeout

end Cut

variable {write : ℕ}

theorem State.drained_eq_true : w.drained = true ↔
    w.up = [] ∧ w.down = [] ∧ w.handling = none ∧ w.broker.frame = [] := by
  simp [drained, and_assoc]

theorem drained_step {c : ℕ} (hcut : w.cut = some c) (hd : w.drained = true)
    (hstep : step cfg w e = some w') : w'.drained = true := by
  -- nothing arrives after the cut
  have hlost : ∀ {v : State} (f : Flight), v.cut = some c → v.toBroker f = v ∧ v.toSidecar f = v := by
    intro v f hv
    simp [State.toBroker, State.toSidecar, hv]
  rw [State.drained_eq_true] at hd ⊢
  obtain ⟨hup, hdown, hh, hb⟩ := hd
  cases step_turns hstep with
  | pinged t => rw [(hlost _ (by exact hcut)).1]; exact ⟨hup, hdown, hh, hb⟩
  | send type => rw [(hlost _ hcut).1]; exact ⟨hup, hdown, hh, hb⟩
  | brokerSend type => rw [(hlost _ hcut).2]; exact ⟨hup, hdown, hh, hb⟩
  | pong f down hf | readFrame f down hf => rw [hdown] at hf; cases hf
  | hello f up _ hu | noHello f up _ hu | brokerRead _ f up _ hu => rw [hup] at hu; cases hu
  | brokerPing f hf | brokerHandled f hf => rw [hf] at hb; cases hb
  | cut m n hc => rw [hc] at hcut; cases hcut
  | handled => exact ⟨hup, hdown, rfl, hb⟩
  | brokerTimeout => exact ⟨hup, hdown, hh, rfl⟩
  | _ => exact ⟨hup, hdown, hh, hb⟩

theorem State.cut_toBroker (w : State) (f : Flight) : (w.toBroker f).cut = w.cut := by
  unfold toBroker
  split_ifs <;> rfl

theorem State.cut_toSidecar (w : State) (f : Flight) : (w.toSidecar f).cut = w.cut := by
  unfold toSidecar
  split_ifs <;> rfl

theorem cut_step (hstep : step cfg w e = some w') :
    (∃ n, e = .pass n ∧ w' = { w with now := w.now + n }) ∨
    (w'.cut = w.cut ∨ w'.cut = some w.now) ∧ w'.now = w.now := by
  have hB : ∀ (v : State) (f : Flight), (v.toBroker f).now = v.now := by
    intro v f
    unfold State.toBroker
    split_ifs <;> rfl
  have hS : ∀ (v : State) (f : Flight), (v.toSidecar f).now = v.now := by
    intro v f
    unfold State.toSidecar
    split_ifs <;> rfl
  cases step_turns hstep with
  | pass n => exact .inl ⟨n, rfl, rfl⟩
  | pinged | send => exact .inr ⟨.inl (State.cut_toBroker ..), hB ..⟩
  | brokerSend | brokerPing => exact .inr ⟨.inl (State.cut_toSidecar ..), hS ..⟩
  | cut => exact .inr ⟨.inr rfl, rfl⟩
  | _ => exact .inr ⟨.inl rfl, rfl⟩

theorem Draining.step (h : Draining delay w) (ht : timely delay late write w e = true)
    (hstep : step cfg w e = some w') : Draining delay w' := by
  intro c hc hd
  obtain ⟨n, rfl, rfl⟩ | ⟨hcut, hnow⟩ := cut_step hstep
  · simp only [timely, Bool.and_eq_true] at ht
    have hlast := ht.2
    rw [show w.cut = some c from hc] at hlast
    simp only [Bool.or_eq_true, decide_eq_true_eq] at hlast
    exact hlast.resolve_left (Bool.eq_false_iff.mp hd)
  · rw [hnow]
    rcases hcut with hcut | hcut
    · rw [hcut] at hc
      apply h c hc
      by_contra hne
      rw [drained_step hc (by simpa using hne) hstep] at hd
      cases hd
    · rw [hcut] at hc
      obtain rfl := Option.some.inj hc
      exact Nat.le_add_right _ _

theorem Watching.of_same (h : Watching cfg delay late write w) {v : State} (hnow : v.now = w.now)
    (hlast : v.lastPong = w.lastPong) (htick : v.tick = w.tick) (hping : v.pinging = w.pinging)
    (hclosed : v.closed = w.closed) (hcut : v.cut = w.cut) : Watching cfg delay late write v where
  lastPong := by rw [hlast, hnow]; exact h.lastPong
  ticking := by rw [hclosed, hnow, htick]; exact h.ticking
  writing := by rw [hclosed, hnow, hping, htick]; exact h.writing
  due := by rw [hclosed, hlast, State.due, htick]; exact h.due
  cut := by rw [hcut, hlast]; exact h.cut

theorem Watching.toBroker (h : Watching cfg delay late write w) (f : Flight) :
    Watching cfg delay late write (w.toBroker f) := by
  unfold State.toBroker
  split_ifs
  · exact h
  · exact h.of_same rfl rfl rfl rfl rfl rfl

theorem Watching.toSidecar (h : Watching cfg delay late write w) (f : Flight) :
    Watching cfg delay late write (w.toSidecar f) := by
  unfold State.toSidecar
  split_ifs
  · exact h
  · exact h.of_same rfl rfl rfl rfl rfl rfl

theorem Watching.step (h : Watching cfg delay late write w) (hD : Draining delay w)
    (hpos : 0 < cfg.pingInterval) (ht : timely delay late write w e = true)
    (hstep : step cfg w e = some w') : Watching cfg delay late write w' := by
  cases step_turns hstep with
  | pass n =>
    simp only [timely, Bool.and_eq_true, Bool.or_eq_true] at ht
    have hnow := fun hc => ht.1.1.resolve_left (Bool.eq_false_iff.mp hc)
    have hwriting : w.closed = false → ∀ t, w.pinging = some t →
        w.now + n ≤ t + write ∧ t ≤ w.tick.getD 0 := by
      intro hc t hp
      have hn := hnow hc
      rw [hp] at hn
      exact ⟨of_decide_eq_true hn, (h.writing hc t hp).2⟩
    refine ⟨h.lastPong.trans (Nat.le_add_right _ _), fun hc => ?_, hwriting, h.due, h.cut⟩
    cases hp : w.pinging with
    | none =>
      have hn := hnow hc
      rw [hp] at hn
      exact of_decide_eq_true hn
    | some t =>
      have := hwriting hc t hp
      dsimp only
      omega
  | startPing htick hc =>
    have hnow := h.ticking hc
    rw [htick, Option.getD_none] at hnow
    refine ⟨h.lastPong, fun _ => ?_, fun _ t hp => ?_, fun _ => ?_, h.cut⟩
    · show w.now ≤ w.now + cfg.pingInterval + late + write
      omega
    · -- there is no PING before the ticker
      have := h.writing hc t hp
      rw [htick, Option.getD_none] at this
      show w.now ≤ t + write ∧ t ≤ w.now + cfg.pingInterval
      omega
    · show w.now + cfg.pingInterval ≤ w.lastPong + cfg.pongTimeout + cfg.pingInterval + late + write
      omega
  | overdue | pingFail => exact ⟨h.lastPong, by simp, by simp, by simp, h.cut⟩
  | tick t htick hp hle hc ho =>
    -- the check has just found the last PONG young enough
    obtain ⟨hgt, hnext⟩ := nextTick_gt hpos hle
    have hlast := h.lastPong
    refine ⟨h.lastPong, fun _ => ?_, fun _ t' ht' => ?_, fun _ => ?_, h.cut⟩
    · show w.now ≤ cfg.nextTick t w.now + late + write
      omega
    · obtain rfl := Option.some.inj ht'
      show w.now ≤ w.now + write ∧ w.now ≤ cfg.nextTick t w.now
      omega
    · show cfg.nextTick t w.now ≤ w.lastPong + cfg.pongTimeout + cfg.pingInterval + late + write
      omega
  | pinged t hp hc =>
    apply Watching.toBroker
    exact ⟨h.lastPong, h.ticking, by simp, h.due, h.cut⟩
  | send type => exact h.toBroker _
  | brokerSend type => exact h.toSidecar _
  | brokerPing f =>
    apply Watching.toSidecar
    exact h.of_same rfl rfl rfl rfl rfl rfl
  | pong f down hd hf =>
    have hlast := h.lastPong
    refine ⟨le_rfl, h.ticking, h.writing, fun hc => (h.due hc).trans ?_, fun c hc => ?_⟩
    · dsimp only
      omega
    · apply hD c hc
      simp [State.drained, hd]
  | cut m n hc =>
    refine ⟨h.lastPong, h.ticking, h.writing, h.due, fun c hc => ?_⟩
    obtain rfl := Option.some.inj hc
    exact h.lastPong.trans (Nat.le_add_right _ _)
  | _ => exact h.of_same rfl rfl rfl rfl rfl rfl

theorem Listening.of_same (h : Listening cfg delay late w) {v : State} (hnow : v.now = w.now)
    (hbroker : v.broker = w.broker) (hcut : v.cut = w.cut) : Listening cfg delay late v where
  reading := by rw [hbroker, hnow]; exact h.reading
  cut := by rw [hcut, hbroker]; exact h.cut

theorem Listening.toBroker (h : Listening cfg delay late w) (f : Flight) :
    Listening cfg delay late (w.toBroker f) := by
  unfold State.toBroker
  split_ifs
  · exact h
  · exact h.of_same rfl rfl rfl

theorem Listening.toSidecar (h : Listening cfg delay late w) (f : Flight) :
    Listening cfg delay late (w.toSidecar f) := by
  unfold State.toSidecar
  split_ifs
  · exact h
  · exact h.of_same rfl rfl rfl

theorem Listening.reads {up : List Flight} (hcut : ∀ c, w.cut = some c → w.now ≤ c + delay) :
    Listening cfg delay late
      { w with up, broker := .reading (w.now + cfg.tunnelReadTimeout) } := by
  refine ⟨fun dl hdl => ?_, fun c hc dl hdl => ?_⟩
  · cases hdl
    dsimp only
    omega
  · have := hcut c hc
    cases hdl
    omega

theorem Listening.step (h : Listening cfg delay late w) (hD : Draining delay w)
    (ht : timely delay late write w e = true) (hstep : step cfg w e = some w') :
    Listening cfg delay late w' := by
  cases step_turns hstep with
  | pass n =>
    simp only [timely, Bool.and_eq_true] at ht
    refine ⟨fun dl hdl => ?_, h.cut⟩
    have htime := ht.1.2
    have := (h.reading dl hdl).2
    rw [show w.broker = .reading dl from hdl] at htime
    have := of_decide_eq_true htime
    dsimp only
    omega
  | send type => exact h.toBroker _
  | pinged t =>
    apply Listening.toBroker
    exact h.of_same rfl rfl rfl
  | brokerSend type => exact h.toSidecar _
  | hello f up hb hu =>
    refine .reads fun c hc => hD c hc ?_
    simp [State.drained, hu]
  | brokerHandled f hb hf =>
    refine .reads fun c hc => hD c hc ?_
    simp [State.drained, hb, Loop.frame]
  | brokerPing f hb hf =>
    apply Listening.toSidecar
    refine .reads fun c hc => hD c hc ?_
    simp [State.drained, hb, Loop.frame]
  | noHello | brokerRead | brokerTimeout => exact ⟨by simp, by simp⟩
  | cut m n hc =>
    refine ⟨h.reading, fun c hc dl hdl => ?_⟩
    obtain rfl := Option.some.inj hc
    have := (h.reading dl hdl).2
    omega
  | _ => exact h.of_same rfl rfl rfl

end SubstratePoc.Keepalive
