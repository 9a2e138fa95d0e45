import SubstratePoc.Deployment.Projection
import SubstratePoc.Lib.Simulation

namespace SubstratePoc.Deployment
open Lib Tunnel Broker Sidecar

/-- The one-session model of a session of the deployment. -/
def Config.pair (cfg : Config) (sid : UInt64) (target : Bytes) : Pair.Config :=
  ⟨cfg.actorID, sid, target, cfg.broker.sessionBufferBytes, cfg.sidecar.sessionBuffer,
    cfg.broker.allowTarget⟩

def Config.key (cfg : Config) (sid : UInt64) : Server.Key := ⟨cfg.actorID, sid⟩

/-- The frame of a connection that the sidecar has read and not looked at. -/
def unseen (k : ConnId) : Client.CAct → List Frame
  | .handleFrame j f => if j = k then [f] else []
  | _ => []

/-- The number of connections that have been published or given up, of `n` that have been dialed. -/
def publishedOf (n : ℕ) : List Client.CAct → ℕ
  | .hello k :: _ | .publish k :: _ => k
  | _ => n

def published (c : Client.World) : ℕ := publishedOf c.conns (c.threads .tunnel)

/-! ## What a session has of the deployment -/

structure Side where
  cs : ClientSession
  listed : Bool
  agent : Bytes
  conn : Option ConnId
  conns : ℕ
  tunnel : List Pair.SAct
  proxy : List Pair.SAct

structure Line where
  up : List Msg
  down : List Msg
  closed : Bool
  registered : List ℕ

structure Far where
  created : ℕ
  sessions : Option ℕ
  objs : ℕ → Session × Bytes
  fired : ℕ → ℕ
  threads : Server.Thread → List Pair.BAct

/-- The sidecar; a session that has not been accepted yet waits for that. -/
def side (cfg : Config) (sid : UInt64) (target : Bytes) (c : Client.World) : Side where
  cs := if sid ∈ c.ids then (c.objs sid).cs
    else newClientSession cfg.sidecar.sessionBuffer sid target
  listed := (c.objs sid).listed
  agent := if sid ∈ c.ids then (c.objs sid).agent else []
  conn := c.conn
  conns := published c
  tunnel := (c.threads .tunnel).flatMap (sidecarActs sid)
  proxy := if sid ∈ c.ids then (c.threads (.proxy sid)).flatMap (sidecarActs sid)
    else [.openSession]

/-- The sessions at `key` that a connection has registered. -/
def registered (key : Server.Key) (s : Server.World) (k : ConnId) : List ℕ :=
  ((s.conns k).elim [] fun t => t.sessions.filter (·.key = key)).map (·.gen)

/-- A connection; a frame that the sidecar has not looked at is still in flight. -/
def line (cfg : Config) (sid : UInt64) (w : World) (k : ConnId) : Line where
  up := (w.up k).filterMap (Frame.own sid)
  down := ((w.sidecar.threads .tunnel).flatMap (unseen k) ++ w.down k).filterMap (Frame.own sid)
  closed := w.closed k
  registered := registered (cfg.key sid) w.broker k

/-- What the broker has to do for the session; a frame loop that has not been started waits for
the first frame. -/
def loops (key : Server.Key) (s : Server.World) : Server.Thread → List Pair.BAct
  | .loop k =>
    if (s.conns k).isSome then (s.threads (.loop k)).flatMap (brokerActs key) else [.readFrame k]
  | t => (s.threads t).flatMap (brokerActs key)

def far (key : Server.Key) (s : Server.World) : Far where
  created := s.made key
  sessions := s.sessions key
  objs := fun o => ((s.objs ⟨key, o⟩).s, (s.objs ⟨key, o⟩).dest)
  fired := fun o => (s.objs ⟨key, o⟩).fired
  threads := loops key s

/-! ## The relation -/

def sideOf (p : Pair.System) : Side :=
  ⟨p.core.cs, p.core.listed, p.core.agent, p.core.conn, p.core.conns, p.tunnel.flatMap unfold,
    p.proxy⟩

def lineOf (l : Pair.Link) : Line := ⟨l.up, l.down, l.closed, l.registered.toList⟩

structure SameObjs (F : Far) (w : Pair.Core) : Prop where
  created : w.created = F.created
  sessions : w.sessions = F.sessions
  objs : ∀ o < F.created, ((w.objs o).s, (w.objs o).dest) = F.objs o

/-- The broker's half; `order` are the goroutines with a number. -/
structure FarMatches (key : Server.Key) (F : Far) (w : Pair.Core) (ts : List (List Pair.BAct))
    (order : List Server.Thread) : Prop extends SameObjs F w where
  nodup : order.Nodup
  threads : ts.map (List.flatMap unfoldAll) = order.map F.threads
  loops : ∀ k, .loop k ∈ order ↔ k < w.conns
  cover : ∀ t, (∀ k, t ≠ .loop k) → t ∉ order → F.threads t = []
  readers : ∀ p, .reader p ∈ order → p.key = key ∧ p.gen < F.created ∧
    ∀ t ∈ order, .startDial p.gen ∉ F.threads t
  timers : ∀ p n, .timer p n ∈ order → p.key = key ∧ p.gen < F.created ∧ n < F.fired p.gen

/-- A state of the one-session model is what a session has of the deployment; the connections
that the sidecar has not published are not compared. -/
structure Matches (cfg : Config) (sid : UInt64) (target : Bytes) (w : World) (p : Pair.System) :
    Prop where
  side : sideOf p = side cfg sid target w.sidecar
  lines : ∀ k < p.core.conns, lineOf (p.core.links k) = line cfg sid w k
  far : ∃ order, FarMatches (cfg.key sid) (far (cfg.key sid) w.broker) p.core p.threads order

theorem matches_start (cfg : Config) (sid : UInt64) (target : Bytes) :
    Matches cfg sid target (start cfg) (Pair.start (cfg.pair sid target)) := by
  constructor
  · simp [sideOf, Deployment.side, start, Client.start, Pair.start, Config.pair, published,
      publishedOf, sidecarActs, unfold, Client.Config.newObj]
  · simp [Pair.start]
  · refine ⟨[], ⟨rfl, rfl, fun o ho => by cases ho⟩, ?_, ?_, ?_, ?_, ?_, ?_⟩ <;>
      simp [Pair.start, Deployment.far, start, Server.start, Deployment.loops]
    intro t ht
    cases t with
    | loop k => exact absurd rfl (ht k)
    | _ => rfl

/-- The one-session model can follow the deployment to a state. -/
def Follows (cfg : Config) (sid : UInt64) (target : Bytes) (p : Pair.System) (w : World) : Prop :=
  ∃ ds p', run (Pair.step (cfg.pair sid target)) p ds = some p' ∧ Matches cfg sid target w p'

section Follows
variable {cfg : Config} {sid : UInt64} {target : Bytes} {p p' : Pair.System} {w : World}

theorem Follows.refl (h : Matches cfg sid target w p) : Follows cfg sid target p w :=
  ⟨[], p, rfl, h⟩

theorem Follows.step {e : Pair.Event} (h : Pair.step (cfg.pair sid target) p e = some p')
    (hM : Matches cfg sid target w p') : Follows cfg sid target p w :=
  ⟨[e], p', by simp [run, h], hM⟩

end Follows

/-! ## Moves of the one-session model -/

theorem unfold_head {l r : List Pair.SAct} {a : Pair.SAct} (h : l.flatMap unfold = a :: r) :
    ∃ l', l = a :: l' ∧ (unfold a).tail ++ l'.flatMap unfold = r := by
  cases l with
  | nil => cases h
  | cons x l' =>
    rw [List.flatMap_cons] at h
    cases x <;> cases h <;> exact ⟨l', rfl, rfl⟩

theorem unfoldAll_head {l r : List Pair.BAct} {a : Pair.BAct} (h : l.flatMap unfoldAll = a :: r) :
    ∃ l', l = a :: l' ∧ (unfoldAll a).tail ++ l'.flatMap unfoldAll = r := by
  cases l with
  | nil => cases h
  | cons x l' =>
    rw [List.flatMap_cons] at h
    cases x <;> cases h <;> exact ⟨l', rfl, rfl⟩

/-- What a goroutine of the sidecar has to do for session `sid`. -/
def Side.at (S : Side) (sid : UInt64) : Client.Thread → List Pair.SAct
  | .tunnel => S.tunnel
  | .proxy s => if s = sid then S.proxy else []
  | .ping _ => []

def Side.setAt (S : Side) (sid : UInt64) (t : Client.Thread) (l : List Pair.SAct) : Side :=
  match t with
  | .tunnel => { S with tunnel := l }
  | .proxy s => if s = sid then { S with proxy := l } else S
  | .ping _ => S

/-- What is left of the sidecar's half without its goroutines. -/
def Side.withCore (S : Side) (w : Pair.Core) : Side :=
  ⟨w.cs, w.listed, w.agent, w.conn, w.conns, S.tunnel, S.proxy⟩

section Moves
variable {cfg : Pair.Config} {p : Pair.System} {w : Pair.Core} {c : Choice}

theorem side_step (cfg : Pair.Config) {sid : UInt64} {t : Client.Thread} {a : Pair.SAct}
    {r push : List Pair.SAct}
    (hat : (sideOf p).at sid t = a :: r) (hex : Pair.sexec p.core a c = some (w, push, []))
    (hproxy : ∀ s, t = .proxy s → unfold a = [a] ∧ push.flatMap unfold = push) :
    ∃ e p' l, (unfold a).tail ++ l = r ∧ Pair.step cfg p e = some p' ∧ p'.core = w ∧
      p'.threads = p.threads ∧
      sideOf p' = ((sideOf p).withCore w).setAt sid t (push.flatMap unfold ++ l) := by
  cases t with
  | tunnel =>
    obtain ⟨l', hl, hr⟩ := unfold_head hat
    refine ⟨.tunnel c, ⟨w, push ++ l', p.proxy, p.threads⟩, _, hr, ?_, rfl, rfl, ?_⟩
    · simp [Pair.step, hl, hex]
    · simp [sideOf, Side.withCore, Side.setAt]
  | proxy s =>
    simp only [Side.at] at hat
    split_ifs at hat with hs
    have hl : p.proxy = a :: r := hat
    obtain ⟨ha, hpush⟩ := hproxy s rfl
    refine ⟨.proxy c, ⟨w, p.tunnel, push ++ r, p.threads⟩, r, by simp [ha], ?_, rfl, rfl, ?_⟩
    · simp [Pair.step, hl, hex]
    · simp [sideOf, Side.withCore, Side.setAt, hs, hpush]
  | ping k => cases hat

/-- A goroutine of the broker takes its next action: only its own entry changes. -/
theorem FarMatches.step {key : Server.Key} {F : Far} {order : List Server.Thread}
    {t : Server.Thread} {a : Pair.BAct} {r push : List Pair.BAct} {spawn : List (List Pair.BAct)}
    (h : FarMatches key F p.core p.threads order) (ht : t ∈ order) (hF : F.threads t = a :: r)
    (hex : Pair.bexec cfg p.core a c = some (w, push, spawn)) :
    ∃ (i : ℕ) (l : List Pair.BAct) (ts : List (List Pair.BAct)), (unfoldAll a).tail ++ l = r ∧
      Pair.step cfg p (.broker i c) = some ⟨w, p.tunnel, p.proxy, ts ++ spawn⟩ ∧
      ts.map (List.flatMap unfoldAll) =
        order.map (Function.update F.threads t (push.flatMap unfoldAll ++ l)) := by
  obtain ⟨i, hi⟩ := List.getElem?_of_mem ht
  have hmap := congrArg (·[i]?) h.threads
  simp only [List.getElem?_map, hi, Option.map_some, hF, Option.map_eq_some_iff] at hmap
  obtain ⟨l, hl, hu⟩ := hmap
  obtain ⟨l', rfl, hr⟩ := unfoldAll_head hu
  refine ⟨i, l'.flatMap unfoldAll, p.threads.set i (push ++ l'), hr, ?_, ?_⟩
  · simp [Pair.step, hl, hex]
  · rw [List.map_set, h.threads, map_set_of_nodup h.nodup hi, List.flatMap_append]

end Moves

/-! ## Changes of the broker's half -/

section Far
variable {key : Server.Key} {F F' : Far} {w w' : Pair.Core} {ts ts' : List (List Pair.BAct)}
  {order : List Server.Thread} {t x : Server.Thread}

/-- The goroutines with a number have something else to do, and no more dials to start but those of
new sessions. -/
theorem FarMatches.keep (h : FarMatches key F w ts order)
    (hts : ts'.map (List.flatMap unfoldAll) = order.map F'.threads)
    (hother : ∀ u, (∀ k, u ≠ .loop k) → u ∉ order → F'.threads u = F.threads u)
    (hobjs : SameObjs F' w') (hconns : w'.conns = w.conns) (hle : F.created ≤ F'.created)
    (hfired : ∀ o < F.created, F.fired o ≤ F'.fired o)
    (hdial : ∀ u ∈ order, ∀ o, .startDial o ∈ F'.threads u →
      .startDial o ∈ F.threads u ∨ F.created ≤ o) : FarMatches key F' w' ts' order where
  toSameObjs := hobjs
  nodup := h.nodup
  threads := hts
  loops := by
    rw [hconns]
    exact h.loops
  cover := by
    intro u hu hnot
    rw [hother u hu hnot]
    exact h.cover u hu hnot
  readers := by
    intro p hp
    obtain ⟨hkey, hgen, hno⟩ := h.readers p hp
    refine ⟨hkey, hgen.trans_le hle, fun u hu hmem => ?_⟩
    rcases hdial u hu _ hmem with hold | hnew
    · exact hno u hu hold
    · omega
  timers := by
    intro p n hp
    obtain ⟨hkey, hgen, hn⟩ := h.timers p n hp
    exact ⟨hkey, hgen.trans_le hle, hn.trans_le (hfired _ hgen)⟩

theorem FarMatches.lt (h : FarMatches key F w ts order) (ht : t ∈ order) (k : ConnId)
    (hk : t = .loop k) : k < w.conns := (h.loops k).mp (hk ▸ ht)

theorem FarMatches.moved {l : List Pair.BAct} (h : FarMatches key F w ts order)
    (hts : ts'.map (List.flatMap unfoldAll) = order.map (Function.update F.threads t l))
    (ht : t ∈ order) (hself : F'.threads t = l)
    (hother : ∀ u ≠ t, (∀ k, u = .loop k → k < w.conns) → F'.threads u = F.threads u)
    (hobjs : SameObjs F' w') (hconns : w'.conns = w.conns) (hle : F.created ≤ F'.created)
    (hfired : ∀ o < F.created, F.fired o ≤ F'.fired o)
    (hdial : ∀ o, .startDial o ∈ l → .startDial o ∈ F.threads t ∨ F.created ≤ o) :
    FarMatches key F' w' ts' order := by
  refine h.keep ?_ (fun u hu hnot => ?_) hobjs hconns hle hfired fun u hu o ho => ?_
  · rw [hts]
    apply List.map_congr_left
    intro u hu
    obtain ⟨rfl, heq⟩ | ⟨hne, heq⟩ := update_cases F.threads t l u <;> rw [heq]
    · exact hself.symm
    · exact (hother u hne (h.lt hu)).symm
  · exact hother u (fun heq => hnot (heq ▸ ht)) fun k hk => absurd hk (hu k)
  · by_cases hut : u = t
    · subst hut
      exact hdial o (hself ▸ ho)
    · exact .inl (hother u hut (h.lt hu) ▸ ho)

theorem FarMatches.congr (h : FarMatches key F w ts order)
    (hthreads : ∀ u, (∀ k, u = .loop k → k < w.conns) → F'.threads u = F.threads u)
    (hobjs : SameObjs F' w') (hconns : w'.conns = w.conns) (hle : F.created ≤ F'.created)
    (hfired : ∀ o < F.created, F.fired o ≤ F'.fired o) : FarMatches key F' w' ts order := by
  have hsame : ∀ u ∈ order, F'.threads u = F.threads u := fun u hu => hthreads u (h.lt hu)
  refine h.keep ?_ (fun u hu _ => hthreads u fun k hk => absurd hk (hu k)) hobjs hconns hle hfired
    fun u hu o ho => .inl (hsame u hu ▸ ho)
  rw [h.threads]
  exact List.map_congr_left fun u hu => (hsame u hu).symm

theorem FarMatches.spawn {l : List Pair.BAct} (h : FarMatches key F w ts order) (hx : x ∉ order)
    (hthreads : ∀ u ≠ x, (∀ k, u = .loop k → k < w.conns) → F'.threads u = F.threads u)
    (hself : F'.threads x = l.flatMap unfoldAll) (hobjs : SameObjs F' w')
    (hcreated : F'.created = F.created) (hfired : ∀ o < F.created, F.fired o ≤ F'.fired o)
    (hloops : ∀ k, k < w'.conns ↔ k < w.conns ∨ x = .loop k)
    (hnone : ∀ o, .startDial o ∉ F'.threads x)
    (hreader : ∀ p, x = .reader p → p.key = key ∧ p.gen < F.created ∧
      ∀ t ∈ order, .startDial p.gen ∉ F.threads t)
    (htimer : ∀ p n, x = .timer p n → p.key = key ∧ p.gen < F.created ∧ n < F'.fired p.gen) :
    FarMatches key F' w' (ts ++ [l]) (order ++ [x]) := by
  have hsame : ∀ u ∈ order, F'.threads u = F.threads u := by
    intro u hu
    exact hthreads u (fun heq => hx (heq ▸ hu)) (h.lt hu)
  constructor
  · exact hobjs
  · refine h.nodup.append (List.nodup_singleton x) ?_
    simpa using hx
  · rw [List.map_append, List.map_append, h.threads, List.map_singleton, List.map_singleton, hself,
      List.map_congr_left hsame]
  · intro k
    rw [List.mem_append, List.mem_singleton, h.loops, hloops, eq_comm]
  · intro u hu hnot
    simp only [List.mem_append, List.mem_singleton, not_or] at hnot
    rw [hthreads u hnot.2 fun k hk => absurd hk (hu k)]
    exact h.cover u hu hnot.1
  · intro p hp
    obtain ⟨hkey, hgen, hno⟩ : p.key = key ∧ p.gen < F.created ∧
        ∀ t ∈ order, .startDial p.gen ∉ F.threads t := by
      rcases List.mem_append.mp hp with hp | hp
      · exact h.readers p hp
      · exact hreader p (List.mem_singleton.mp hp).symm
    refine ⟨hkey, hcreated ▸ hgen, fun u hu => ?_⟩
    rcases List.mem_append.mp hu with hu | hu
    · rw [hsame u hu]
      exact hno u hu
    · rw [List.mem_singleton.mp hu]
      exact hnone _
  · intro p n hp
    rw [hcreated]
    rcases List.mem_append.mp hp with hp | hp
    · obtain ⟨hkey, hgen, hn⟩ := h.timers p n hp
      exact ⟨hkey, hgen, hn.trans_le (hfired _ hgen)⟩
    · exact htimer p n (List.mem_singleton.mp hp).symm

end Far

end SubstratePoc.Deployment
