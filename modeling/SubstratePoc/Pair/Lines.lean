import SubstratePoc.Pair.Connections

namespace SubstratePoc.Broker
open Lib Tunnel

/-- A DATA frame is a segment, the sidecar's half-close a mark. -/
def Act.items : Act → List (Option (ℕ × Bytes))
  | .onData offset p => [some (offset, p)]
  | .onSidecarClose dir => if dir = dirUp then [none] else []
  | _ => []

theorem Does.items_push {s : Session} {a : Act} {c : Choice} {r : Result} (h : Does s a c r) :
    ∀ b ∈ r.push, b.items = [] := by
  cases h with
  | produceDone after => cases after <;> simp [After.acts, Act.items]
  | _ => simp [Act.items]

end SubstratePoc.Broker

namespace SubstratePoc.Pair
open Lib Tunnel Broker Sidecar

/-- DATA is a segment and CLOSE of the direction `dir` a mark. -/
def item (dir : UInt8) : Msg → List (Option (ℕ × Bytes))
  | .data _ offset p => [some (offset, p)]
  | .close _ d _ => if d = dir then [none] else []
  | _ => []

def BAct.items (w : Core) : BAct → List (Option (ℕ × Bytes))
  | .readFrame k => (w.links k).up.flatMap (item dirUp)
  | .handleFrame _ m => item dirUp m
  | .act _ a => a.items
  | _ => []

def line (w : Core) (t : List BAct) : List (Option (ℕ × Bytes)) := t.flatMap (BAct.items w)

theorem line_append (w : Core) (t t' : List BAct) : line w (t ++ t') = line w t ++ line w t' :=
  List.flatMap_append

theorem line_congr {w w' : Core} {t : List BAct}
    (h : ∀ k, .readFrame k ∈ t → (w'.links k).up = (w.links k).up) : line w' t = line w t := by
  refine List.flatMap_congr fun b hb => ?_
  cases b with
  | readFrame k => rw [BAct.items, BAct.items, h k hb]
  | _ => rfl

/-! ## Frame loops -/

/-- A frame loop reads a connection that exists, alone, and does nothing after it. -/
structure Loops (w : System) : Prop where
  bounded : Bounded w
  once : ∀ k, w.pending.count (.readFrame k) ≤ 1
  last : ∀ t ∈ w.threads, ∀ k, .readFrame k ∉ t.dropLast

theorem loops_start (cfg : Config) : Loops (start cfg) where
  bounded := bounded_start cfg
  once k := Nat.zero_le _
  last t ht := by cases ht

theorem SDoes.spawn_eq {w w' : Core} {a : SAct} {push : List SAct} {spawn : List (List BAct)}
    (h : SDoes w a w' push spawn) :
    spawn = [] ∨ spawn = [[.readFrame w.conns]] ∧ w'.links w.conns = newLink := by
  cases h with
  | connect => exact .inr ⟨rfl, by simp [Core.setLink]⟩
  | _ => exact .inl rfl

theorem BDoes.reads {cfg : Config} {w w' : Core} {a : BAct} {push : List BAct}
    {spawn : List (List BAct)} (h : BDoes cfg w a w' push spawn) (k : ConnId) :
    .readFrame k ∉ push ++ spawn.flatten ∨
      a = .readFrame k ∧ ∃ m, push = [.handleFrame k m, .readFrame k] ∧ spawn = [] := by
  cases h with
  | readFrame j m up hu =>
    by_cases hj : k = j
    · subst hj
      exact .inr ⟨rfl, m, rfl, rfl⟩
    · exact .inl (by simp [hj])
  | handleFrame j m => exact .inl (by cases m <;> cases w.sessions <;> simp [handle])
  | _ => exact .inl (by simp)

theorem Loops.of_spawn {w w' : System} (hI : Loops w) (hB : Bounded w') {b : BAct}
    (hts : w'.threads = w.threads ++ [[b]])
    (hb : ∀ k, b = .readFrame k → k = w.core.conns) : Loops w' := by
  refine ⟨hB, fun k => ?_, fun t ht k => ?_⟩
  · have hp : w'.pending = w.pending ++ [b] := by simp [System.pending, hts]
    rw [hp, List.count_append]
    by_cases hk : b = .readFrame k
    · -- the connection is new, so nobody reads it yet
      have hnone : w.pending.count (.readFrame k) = 0 := by
        rw [List.count_eq_zero]
        intro hmem
        exact (hI.bounded.loop _ hmem k rfl).ne (hb k hk)
      rw [hnone, hk, List.count_singleton_self]
    · rw [List.count_singleton, if_neg (by simpa using hk)]
      exact hI.once k
  · rw [hts, List.mem_append, List.mem_singleton] at ht
    rcases ht with ht | rfl
    · exact hI.last t ht k
    · simp

theorem Loops.of_broker {cfg : Config} {w w' : System} {a : BAct} {rest push : List BAct}
    {L R spawn : List (List BAct)} (hI : Loops w) (hB : Bounded w')
    (h : BDoes cfg w.core a w'.core push spawn) (hts : w.threads = L ++ (a :: rest) :: R)
    (hts' : w'.threads = L ++ (push ++ rest) :: R ++ spawn) : Loops w' := by
  refine ⟨hB, fun k => ?_, fun t ht k hk => ?_⟩
  · have hone := hI.once k
    simp only [System.pending, hts, hts', List.flatten_append, List.flatten_cons, List.count_append,
      List.count_cons] at hone ⊢
    rcases h.reads k with hno | ⟨rfl, m, rfl, rfl⟩
    · rw [← List.count_eq_zero, List.count_append] at hno
      omega
    · simp at hone ⊢
      omega
  · have hlast := hI.last (a :: rest) (by simp [hts]) k
    rw [hts', List.mem_append, List.mem_append, List.mem_cons] at ht
    rcases ht with (ht | rfl | ht) | ht
    · exact hI.last t (by simp [hts, ht]) k hk
    · cases rest with
      | nil =>
        rw [List.append_nil] at hk
        rcases h.reads k with hno | ⟨rfl, m, rfl, rfl⟩
        · exact hno (List.mem_append_left _ (List.mem_of_mem_dropLast hk))
        · simp at hk
      | cons b rest =>
        rw [List.dropLast_append_cons, List.mem_append] at hk
        rw [List.dropLast_cons_cons, List.mem_cons, not_or] at hlast
        rcases h.reads k with hno | ⟨rfl, -⟩
        · exact hk.elim (fun hk => hno (List.mem_append_left _ hk)) hlast.2
        · exact hlast.1 rfl
    · exact hI.last t (by simp [hts, ht]) k hk
    · rcases h.reads k with hno | ⟨-, -, -, rfl⟩
      · rw [List.mem_append, not_or, List.mem_flatten] at hno
        exact hno.2 ⟨t, ht, List.mem_of_mem_dropLast hk⟩
      · cases ht

theorem Loops.step {cfg : Config} {w w' : System} {e : Event} (hI : Loops w)
    (h : Pair.step cfg w e = some w') : Loops w' := by
  have hB := hI.bounded.step h
  have hside : ∀ {a : SAct} {push : List SAct} {spawn : List (List BAct)},
      SDoes w.core a w'.core push spawn → w'.threads = w.threads ++ spawn → Loops w' := by
    intro a push spawn hs hts
    rcases hs.spawn_eq with rfl | ⟨rfl, -⟩
    · rw [List.append_nil] at hts
      exact ⟨hB, by rw [System.pending, hts]; exact hI.once, by rw [hts]; exact hI.last⟩
    · exact hI.of_spawn hB hts (fun k hk => (BAct.readFrame.inj hk).symm)
  cases e with
  | tunnel c =>
    obtain ⟨a, rest, push, spawn, -, hr, -, -, hts⟩ := step_tunnel h
    exact hside (sexec_does hr) hts
  | proxy c =>
    obtain ⟨a, rest, push, spawn, -, hr, -, -, hts⟩ := step_proxy h
    exact hside (sexec_does hr) hts
  | broker i c =>
    obtain ⟨a, rest, L, R, push, spawn, -, hts, hr, hts', -, -⟩ := step_broker h
    exact hI.of_broker hB (bexec_does hr) hts hts'
  | fire o =>
    simp only [Pair.step] at h
    split_ifs at h
    obtain rfl := Option.some.inj h
    exact hI.of_spawn hB (b := .act o .watchdog) rfl (by simp)
  | cut k m n =>
    obtain rfl := Option.some.inj h
    exact ⟨hB, hI.once, hI.last⟩

/-! ## One step -/

/-- The sidecar's next action writes the frame to the connection. -/
def System.writes (w : System) (k : ConnId) (m : Msg) : Event → Prop
  | .tunnel c => w.tunnel.head? = some (.write k m) ∧ c = .ok
  | .proxy c => w.proxy.head? = some (.write k m) ∧ c = .ok
  | _ => False

/-- The broker's next action takes the first of a line, or finds no session for it. -/
def System.takes (w : System) (x : Option (ℕ × Bytes)) : Event → Prop
  | .broker i _ => (∃ o a, w.next i = some (.act o a) ∧ a.items = [x]) ∨
      ∃ k m, w.next i = some (.handleFrame k m) ∧ item dirUp m = [x] ∧ w.core.sessions = none
  | _ => False

/-- How the line of a goroutine comes from one before the step. -/
inductive Advance (w : System) (e : Event) (l : List (Option (ℕ × Bytes))) : Prop
  | empty (h : l = [])
  | kept (t : List BAct) (ht : t ∈ w.threads) (h : l <+: line w.core t)
  | written (t : List BAct) (ht : t ∈ w.threads) (k : ConnId) (hk : .readFrame k ∈ t) (m : Msg)
    (he : w.writes k m e) (h : l = line w.core t ++ item dirUp m)
  | taken (t : List BAct) (ht : t ∈ w.threads) (x : Option (ℕ × Bytes)) (he : w.takes x e)
    (h : line w.core t = x :: l)

theorem Loops.split {w : System} (hI : Loops w) {t : List BAct} (ht : t ∈ w.threads) {k : ConnId}
    (hk : .readFrame k ∈ t) : ∃ X, t = X ++ [.readFrame k] ∧ ∀ j, .readFrame j ∉ X := by
  have hne : t ≠ [] := List.ne_nil_of_mem hk
  have hsplit := List.dropLast_append_getLast hne
  refine ⟨t.dropLast, ?_, hI.last t ht⟩
  rw [← hsplit, List.mem_append, List.mem_singleton] at hk
  rw [hk.resolve_left (hI.last t ht k), hsplit]

theorem line_loop (w : Core) (X : List BAct) (k : ConnId) :
    line w (X ++ [.readFrame k]) = line w X ++ (w.links k).up.flatMap (item dirUp) := by
  simp [line, BAct.items]

theorem line_other {w w' : Core} {t : List BAct} (h : ∀ k, .readFrame k ∉ t) :
    line w' t = line w t := line_congr fun k hk => absurd hk (h k)

theorem sexec_write_ok {w w' : Core} {k : ConnId} {m : Msg} {c : Choice} {push : List SAct}
    {spawn : List (List BAct)} (h : sexec w (.write k m) c = some (w', push, spawn))
    (hup : (w'.links k).up = (w.links k).up ++ [m]) : c = .ok := by
  cases c with
  | ok => rfl
  | fail n text =>
    simp only [sexec, Option.some.injEq, Prod.mk.injEq] at h
    rw [← h.1] at hup
    simp at hup
  | read p err => cases h

theorem Loops.advance_sidecar {w w' : System} {e : Event} {a : SAct} {c : Choice}
    {push : List SAct} {spawn : List (List BAct)} (hI : Loops w)
    (hr : sexec w.core a c = some (w'.core, push, spawn))
    (hts : w'.threads = w.threads ++ spawn)
    (he : ∀ k m, a = .write k m → c = .ok → w.writes k m e) {t : List BAct}
    (ht : t ∈ w'.threads) : Advance w e (line w'.core t) := by
  have h := sexec_does hr
  rw [hts, List.mem_append] at ht
  rcases ht with ht | ht
  · by_cases hread : ∃ k, .readFrame k ∈ t
    · obtain ⟨k, hk⟩ := hread
      obtain ⟨X, rfl, hX⟩ := hI.split ht hk
      have hlt := hI.bounded.loop _ (List.mem_flatten.mpr ⟨_, ht, hk⟩) k rfl
      rw [line_loop, line_other hX]
      rcases h.up hlt with hup | ⟨m, rfl, -, -, hup⟩
      · refine .kept _ ht ?_
        rw [hup, line_loop]
      · refine .written _ ht k hk m (he k m rfl (sexec_write_ok hr hup)) ?_
        rw [hup, line_loop, List.flatMap_append, List.append_assoc, List.flatMap_singleton]
    · push Not at hread
      exact .kept t ht (by rw [line_other hread])
  · rcases h.spawn_eq with rfl | ⟨rfl, hlink⟩
    · cases ht
    · refine .empty ?_
      rw [List.mem_singleton.mp ht, line, List.flatMap_singleton, BAct.items, hlink]
      rfl

theorem items_handle (w : Core) (k : ConnId) (m : Msg) (o : ℕ) :
    line w (handle k m (some o)) = item dirUp m := by
  cases m <;> simp [handle, line, BAct.items, item, Act.items]

theorem items_handle_none (w : Core) (k : ConnId) (m : Msg) : line w (handle k m none) = [] := by
  cases m <;> rfl

theorem item_eq (dir : UInt8) (m : Msg) : item dir m = [] ∨ ∃ x, item dir m = [x] := by
  cases m with
  | close sid d reason =>
    by_cases hd : d = dir
    · exact .inr ⟨none, by simp [item, hd]⟩
    · exact .inl (by simp [item, hd])
  | data sid offset p => exact .inr ⟨_, rfl⟩
  | _ => exact .inl rfl

theorem Act.items_eq (a : Act) : a.items = [] ∨ ∃ x, a.items = [x] := by
  cases a with
  | onData offset p => exact .inr ⟨_, rfl⟩
  | onSidecarClose dir =>
    by_cases hd : dir = dirUp
    · exact .inr ⟨none, by simp [Act.items, hd]⟩
    · exact .inl (by simp [Act.items, hd])
  | _ => exact .inl rfl

theorem BDoes.line_readFrame {cfg : Config} {w w' : Core} {k : ConnId} {push : List BAct}
    {spawn : List (List BAct)} (h : BDoes cfg w (.readFrame k) w' push spawn) :
    line w' push <+: line w [.readFrame k] := by
  cases h with
  | readFrame _ m up hu => simp [line, BAct.items, hu, Core.setLink]
  | readFail => exact List.nil_prefix

theorem BDoes.line_spawn {cfg : Config} {w w' core : Core} {a : BAct} {push : List BAct}
    {spawn : List (List BAct)} (h : BDoes cfg w a w' push spawn) {t : List BAct}
    (ht : t ∈ spawn) : line core t = [] := by
  cases h with
  | startDial o =>
    rw [List.mem_singleton.mp ht]
    rfl
  | _ => cases ht

theorem BDoes.advance {cfg : Config} {w : System} {w' : Core} {i : ℕ} {c : Choice} {a : BAct}
    {rest push : List BAct} {spawn : List (List BAct)} (h : BDoes cfg w.core a w' push spawn)
    (ht : a :: rest ∈ w.threads) (hn : w.next i = some a) (ha : ∀ k, a ≠ .readFrame k) :
    Advance w (.broker i c) (line w.core (push ++ rest)) := by
  -- the goroutine that moves, if it does not read a frame
  have hline : line w.core (a :: rest) = a.items w.core ++ line w.core rest := by
    simp [line]
  -- what is left to do holds what the action held, unless it was taken
  have hkept : line w.core push = a.items w.core →
      Advance w (.broker i c) (line w.core (push ++ rest)) := by
    intro hp
    refine .kept _ ht ?_
    rw [line_append, hp, hline]
  have htaken : ∀ x, a.items w.core = [x] → line w.core push = [] → w.takes x (.broker i c) →
      Advance w (.broker i c) (line w.core (push ++ rest)) := by
    intro x hx hp htk
    refine .taken _ ht x htk ?_
    rw [line_append, hp, hline, hx]
    rfl
  cases h with
  | readFrame k => exact absurd rfl (ha k)
  | readFail k => exact absurd rfl (ha k)
  | handleFrame k m =>
    rcases w.core.sessions.eq_none_or_eq_some with hs | ⟨o, hs⟩
    · rcases item_eq dirUp m with hm | ⟨x, hm⟩
      · exact hkept (by rw [hs, items_handle_none, BAct.items, hm])
      · exact htaken x hm (by rw [hs, items_handle_none]) (.inr ⟨k, m, hn, hm, hs⟩)
    · exact hkept (by rw [hs, items_handle, BAct.items])
  | act o b c' r hr =>
    have hp : line w.core (r.push.map (.act o)) = [] := by
      rw [line, List.flatMap_eq_nil_iff]
      intro x hx
      obtain ⟨y, hy, rfl⟩ := List.mem_map.mp hx
      exact hr.items_push y hy
    rcases Act.items_eq b with hb | ⟨x, hb⟩
    · exact hkept (hp.trans hb.symm)
    · exact htaken x hb hp (.inl ⟨o, b, hn, hb⟩)
  | _ => exact hkept rfl

theorem Loops.advance_broker {cfg : Config} {w w' : System} {c : Choice} {a : BAct}
    {rest push : List BAct} {L R spawn : List (List BAct)} (hI : Loops w)
    (h : BDoes cfg w.core a w'.core push spawn) (hts : w.threads = L ++ (a :: rest) :: R)
    (hts' : w'.threads = L ++ (push ++ rest) :: R ++ spawn) {t : List BAct}
    (ht : t ∈ w'.threads) : Advance w (.broker L.length c) (line w'.core t) := by
  have hmem : a :: rest ∈ w.threads := by simp [hts]
  have hn : w.next L.length = some a := by simp [System.next, hts]
  have hother : ∀ t ∈ L ++ R, line w'.core t = line w.core t := by
    intro t ht
    refine line_congr fun k hk => ?_
    refine (h.up k).resolve_right ?_
    rintro ⟨m, rfl, -⟩
    -- the loop that moves is the only one of its connection
    have hone := hI.once k
    have hpos : 0 < (L ++ R).flatten.count (.readFrame k) :=
      List.count_pos_iff.mpr (List.mem_flatten.mpr ⟨t, ht, hk⟩)
    simp only [System.pending, hts, List.flatten_append, List.flatten_cons, List.count_append,
      List.count_cons_self] at hone hpos
    omega
  rw [hts', List.mem_append, List.mem_append, List.mem_cons] at ht
  rcases ht with (ht | rfl | ht) | ht
  · exact .kept t (by simp [hts, ht]) (by rw [hother t (by simp [ht])])
  · by_cases hread : ∃ k, a = .readFrame k
    · obtain ⟨k, rfl⟩ := hread
      obtain rfl : rest = [] := by
        by_contra hne
        obtain ⟨b, rest, rfl⟩ := List.exists_cons_of_ne_nil hne
        exact hI.last _ hmem k (by simp)
      rw [List.append_nil]
      exact .kept _ hmem h.line_readFrame
    · push Not at hread
      have hup : ∀ k, (w'.core.links k).up = (w.core.links k).up := by
        intro k
        refine (h.up k).resolve_right ?_
        rintro ⟨m, ha, -⟩
        exact hread k ha
      rw [line_congr fun k _ => hup k]
      exact h.advance hmem hn hread
  · exact .kept t (by simp [hts, ht]) (by rw [hother t (by simp [ht])])
  · exact .empty (h.line_spawn ht)

theorem Loops.advance {cfg : Config} {w w' : System} {e : Event} (hI : Loops w)
    (h : Pair.step cfg w e = some w') {t : List BAct} (ht : t ∈ w'.threads) :
    Advance w e (line w'.core t) := by
  cases e with
  | tunnel c =>
    obtain ⟨a, rest, push, spawn, hrun, hr, -, -, hts⟩ := step_tunnel h
    refine hI.advance_sidecar hr hts ?_ ht
    rintro k m rfl hc
    exact ⟨by rw [hrun]; rfl, hc⟩
  | proxy c =>
    obtain ⟨a, rest, push, spawn, hrun, hr, -, -, hts⟩ := step_proxy h
    refine hI.advance_sidecar hr hts ?_ ht
    rintro k m rfl hc
    exact ⟨by rw [hrun]; rfl, hc⟩
  | broker i c =>
    obtain ⟨a, rest, L, R, push, spawn, rfl, hts, hr, hts', -, -⟩ := step_broker h
    exact hI.advance_broker (bexec_does hr) hts hts' ht
  | fire o =>
    simp only [Pair.step] at h
    split_ifs at h
    obtain rfl := Option.some.inj h
    rcases List.mem_append.mp ht with ht | ht
    · exact .kept t ht List.prefix_rfl
    · exact .empty (by rw [List.mem_singleton.mp ht]; rfl)
  | cut k m n =>
    obtain rfl := Option.some.inj h
    have ht : t ∈ w.threads := ht
    by_cases hk : .readFrame k ∈ t
    · obtain ⟨X, rfl, hX⟩ := hI.split ht hk
      refine .kept _ ht ?_
      rw [line_loop, line_loop, line_other hX, List.prefix_append_right_inj]
      refine ⟨((w.core.links k).up.drop m).flatMap (item dirUp), ?_⟩
      simp only [Core.setLink, Function.update_self]
      rw [← List.flatMap_append, List.take_append_drop]
    · refine .kept t ht ?_
      rw [line_congr fun j hj => ?_]
      have hne : j ≠ k := fun h => hk (h ▸ hj)
      simp [Core.setLink, hne]

end SubstratePoc.Pair
