import SubstratePoc.Broker.Progress

namespace SubstratePoc.Broker
open Lib Tunnel

/-- Between its check and its record, a call that has bytes to write. -/
def Act.writing : Act → Bool
  | .upWrite p => p ≠ []
  | .onDataWritten n => n ≠ 0
  | _ => false

/-- A frame with unwritten bytes is admitted only when no other call has bytes to write or to
record, and no write to the destination fails half-way. -/
def solo (w : World) : Event → Bool
  | .run i c => match w.next i, c with
    | some (.onData offset p), _ =>
      w.s.dead || fresh w.s.upstreamWritten offset p = [] || !w.pending.any Act.writing
    | some (.upWrite p), .fail n _ => w.s.dead || p.take n = []
    | _, _ => true
  | _ => true

/-- Every DATA frame handed to the session is a segment of the agent's stream `S`. -/
def Consistent (S : Bytes) (es : List Event) : Prop :=
  ∀ offset p, .call (.data offset p) ∈ es → Agrees S offset p

/-- The destination is dialed and no call is under way. -/
structure Dialed (S : Bytes) (w : World) : Prop where
  connected : w.s.connected = true
  preConn : w.s.preConn = []
  idle : ∀ a ∈ w.pending, a.up = false
  written_le : w.s.upstreamWritten ≤ S.length
  dest_eq : w.dest = S.take w.s.upstreamWritten

/-- What every run whose steps are `solo` keeps. -/
structure InOrder (S : Bytes) (w : World) : Prop where
  connected : w.s.connected = true
  noFlush : ∀ a ∈ w.pending, a.flushing = false
  agrees : ∀ offset p, .onData offset p ∈ w.pending → Agrees S offset p
  progress : Progress S w.s w.dest (w.pending.flatMap Act.held)

theorem Act.of_not_up {a : Act} (h : a.up = false) :
    a.flushing = false ∧ ∀ offset p, a ≠ .onData offset p := by
  cases a <;> simp_all [Act.up, Act.flushing]

theorem Act.held_eq_nil {a : Act} (hf : a.flushing = false) (hw : a.writing = false) :
    a.held = [] := by
  cases a <;> simp_all [Act.held, Act.carrying, Act.writing, Act.flushing]

theorem InOrder.held_eq_nil {S : Bytes} {w : World} (h : InOrder S w)
    (hw : ∀ a ∈ w.pending, a.writing = false) : w.pending.flatMap Act.held = [] := by
  rw [List.flatMap_eq_nil_iff]
  exact fun a ha => Act.held_eq_nil (h.noFlush a ha) (hw a ha)

theorem Dialed.inOrder {S : Bytes} {w : World} (h : Dialed S w) : InOrder S w where
  connected := h.connected
  noFlush a ha := (Act.of_not_up (h.idle a ha)).1
  agrees offset p hp := by cases h.idle _ hp
  progress := by
    have hnil : w.pending.flatMap Act.held = [] := by
      rw [List.flatMap_eq_nil_iff]
      exact fun a ha => Act.held_of_not_up (h.idle a ha)
    rw [hnil]
    refine .idle h.written_le h.dest_eq ?_ fun _ => h.preConn
    rw [h.preConn]
    exact List.nil_prefix

theorem InOrder.spawn {S : Bytes} {w w' : World} {as : List Act} (hI : InOrder S w)
    (hc : w'.s.connected = w.s.connected) (hp : w'.s.preConn = w.s.preConn)
    (hw : w'.s.upstreamWritten = w.s.upstreamWritten) (hdest : w'.dest = w.dest)
    (hpend : w'.pending = w.pending ++ as)
    (has : ∀ a ∈ as, a.held = [] ∧ a.flushing = false)
    (hS : ∀ offset p, .onData offset p ∈ as → Agrees S offset p) : InOrder S w' := by
  -- actions that a goroutine starts with
  refine ⟨hc.trans hI.connected, ?_, ?_, ?_⟩
  · intro a ha
    rw [hpend, List.mem_append] at ha
    exact ha.elim (hI.noFlush a) fun ha => (has a ha).2
  · intro offset p ha
    rw [hpend, List.mem_append] at ha
    exact ha.elim (hI.agrees offset p) (hS offset p)
  · have hnil : as.flatMap Act.held = [] := by
      rw [List.flatMap_eq_nil_iff]
      exact fun a ha => (has a ha).1
    rw [hdest, hpend, List.flatMap_append, hnil, List.append_nil]
    exact hI.progress.congr hc hp hw

theorem InOrder.keeps {S : Bytes} {w : World} {a : Act} {c : Choice} {r : Result}
    (hI : InOrder S w) (hr : Does w.s a c r) (ha : a.flushing = false) :
    r.s.connected = true ∧
      ∀ b ∈ r.push, b.flushing = false ∧ ∀ offset p, b ≠ .onData offset p := by
  have hc := hI.connected
  by_cases hu : a.up = true
  · have hp := hI.progress.preConn_eq_nil hc
    cases hr <;> simp_all [Act.up, Act.flushing]
  · obtain ⟨hc', -, -, -, hpush⟩ := hr.frame_up (by simpa using hu)
    refine ⟨hc'.trans hc, ?_⟩
    intro b hb
    by_cases hbu : b.up = true
    · rw [(hpush b hb hbu).2]
      exact ⟨rfl, by simp⟩
    · exact Act.of_not_up (by simpa using hbu)

theorem InOrder.takes {S : Bytes} {w : World} {i : ℕ} {offset : ℕ} {p : Bytes} {c : Choice}
    {r : Result} {A B : List Act} (hI : InOrder S w) (hsolo : solo w (.run i c) = true)
    (hn : w.next i = some (.onData offset p)) (hr : Does w.s (.onData offset p) c r)
    (hheld : w.pending.flatMap Act.held = A ++ B) :
    A ++ B = [] ∨ r.s = w.s ∧ r.push.flatMap Act.held = [] := by
  simp only [solo, hn] at hsolo
  cases hr with
  | onDataDropped => exact .inr ⟨rfl, rfl⟩
  | onDataQueued _ _ _ _ hc => simp [hI.connected] at hc
  | onDataAdmitted _ _ _ hd hc ho hl =>
    by_cases hq : p.drop (w.s.upstreamWritten - offset) = []
    · exact .inr ⟨rfl, by simp [hq, Act.held, Act.carrying]⟩
    · have hfresh : fresh w.s.upstreamWritten offset p ≠ [] := by
        have hlt := Nat.not_le.mp (mt List.drop_eq_nil_iff.mpr hq)
        rwa [fresh, if_pos ⟨ho, by omega⟩]
      rw [← hheld]
      exact .inl (hI.held_eq_nil (by simpa [hd, hfresh] using hsolo))

theorem InOrder.run {S : Bytes} {w : World} {i : ℕ} {a : Act} {c : Choice} {r : Result}
    {X Y : List Act} {ts : List (List Act)} (hI : InOrder S w)
    (hsolo : solo w (.run i c) = true) (hn : w.next i = some a) (hr : Does w.s a c r)
    (hpend : w.pending = X ++ a :: Y) (hts : ts.flatten = X ++ (r.push ++ Y)) :
    InOrder S (w.after r ts) := by
  have ha : a.flushing = false := hI.noFlush a (by simp [hpend])
  obtain ⟨hc, hpush⟩ := hI.keeps hr ha
  have hheld : w.pending.flatMap Act.held =
      X.flatMap Act.held ++ (a.held ++ Y.flatMap Act.held) := by
    rw [hpend, List.flatMap_append, List.flatMap_cons]
  have hmem : ∀ b, b ∈ ts.flatten → b ∈ r.push ∨ b ∈ w.pending := by
    intro b hb
    rw [hts] at hb
    rw [hpend]
    exact mem_of_replace hb
  refine ⟨hc, ?_, ?_, ?_⟩
  · intro b hb
    exact (hmem b hb).elim (fun h => (hpush b h).1) (hI.noFlush b)
  · intro offset p hb
    exact (hmem _ hb).elim (fun h => absurd rfl ((hpush _ h).2 offset p)) (hI.agrees offset p)
  · change Progress S r.s _ (ts.flatten.flatMap Act.held)
    rw [hts, List.flatMap_append, List.flatMap_append]
    refine hr.progress (hheld ▸ hI.progress) ?_ ?_
    · rintro offset p rfl
      exact ⟨hI.agrees offset p (by simp [hpend]), hI.takes hsolo hn hr hheld⟩
    · -- the call gives up its write, of which nothing has reached the destination
      rintro p n text (rfl | rfl) rfl
      · simpa [solo, hn] using hsolo
      · cases ha

theorem inOrder_step {S : Bytes} {w w' : World} {e : Event} (hI : InOrder S w)
    (hsolo : solo w e = true) (hS : ∀ offset p, e = .call (.data offset p) → Agrees S offset p)
    (h : step w e = some w') : InOrder S w' := by
  obtain ⟨hd, rfl, hw', hpend⟩ | ⟨rfl, rfl, hpend⟩ |
    ⟨i, c, a, r, X, Y, rfl, hn, hr, hpend, hpend', ts, rfl⟩ := step_pending h
  · subst hw'
    refine hI.spawn rfl rfl rfl rfl hpend ?_ ?_
    · cases hd <;> simp [Handler.acts, Act.held, Act.carrying, Act.flushing]
    · intro offset p ha
      cases hd <;> simp [Handler.acts] at ha
      exact ha.1 ▸ ha.2 ▸ hS _ _ rfl
  · exact hI.spawn rfl rfl rfl rfl hpend (by simp [Act.held, Act.carrying, Act.flushing]) (by simp)
  · exact hI.run hsolo hn hr hpend hpend'

/-- In every run whose steps are `solo`, however the calls interleave, the destination has
received a beginning of the agent's stream, and `upstreamWritten` counts it once no call is
between its write and its record. -/
theorem dest_isPrefix_of_solo {S : Bytes} {w₀ w : World} {es : List Event} (h₀ : Dialed S w₀)
    (hS : Consistent S es) (hsolo : Along step (fun w e => solo w e = true) w₀ es)
    (hrun : run step w₀ es = some w) :
    w.dest <+: S ∧
      ((∀ a ∈ w.pending, a.writing = false) → w.s.upstreamWritten = w.dest.length) := by
  have hI : InOrder S w := by
    apply run_invariant (P := fun w e => solo w e = true ∧
      ∀ offset p, e = .call (.data offset p) → Agrees S offset p) _ h₀.inOrder _ hrun
    · intro w e w' hI hP h
      exact inOrder_step hI hP.1 hP.2 h
    · apply hsolo.and_mem
      rintro e he offset p rfl
      exact hS offset p he
  refine ⟨hI.progress.isPrefix, ?_⟩
  intro hidle
  have hp := hI.progress
  rw [hI.held_eq_nil hidle] at hp
  obtain ⟨hle, hd, -⟩ := hp.of_idle
  rw [hd, List.length_take, min_eq_left hle]

def justDialed : World :=
  -- a session whose destination has just been dialed, with its reader started
  { World.create 16 [] 1 [] with
    s := { (newSession 16 [] 1 []).bind 0 with
      upstream := true, connected := true, watchdog := true }
    threads := [[], [.readUpstream]] }

example : run step (World.create 16 [] 1 []) [.call (.bind 0), .run 0 .ok, .run 0 .ok, .call .dial,
    .run 1 .ok, .run 1 .ok] = some justDialed := rfl

theorem dialed_justDialed (S : Bytes) : Dialed S justDialed where
  connected := rfl
  preConn := rfl
  idle := by decide
  written_le := Nat.zero_le _
  dest_eq := rfl

def replay : List Event :=
  -- a replay that begins with bytes the old connection's loop has recorded
  [.call (.data 0 [1, 2]), .run 2 .ok, .call (.data 0 [1, 2, 3]), .run 2 .ok, .run 2 .ok,
    .run 3 .ok, .run 3 .ok, .run 3 .ok]

theorem consistent_replay : Consistent [1, 2, 3] replay := by
  intro offset p h
  simp only [replay, List.mem_cons, Event.call.injEq, Handler.data.injEq, reduceCtorEq, false_or,
    List.not_mem_nil, or_false] at h
  rcases h with ⟨rfl, rfl⟩ | ⟨rfl, rfl⟩ <;> decide

theorem dest_isPrefix_of_replay : ∃ w, run step justDialed replay = some w ∧
    w.dest = [1, 2, 3] ∧ w.dest <+: [1, 2, 3] ∧
      ((∀ a ∈ w.pending, a.writing = false) → w.s.upstreamWritten = w.dest.length) := by
  have hrun := (rfl : run step justDialed replay = some _)
  exact ⟨_, hrun, by decide,
    dest_isPrefix_of_solo (dialed_justDialed _) consistent_replay (by decide) hrun⟩

/-- Two loops admit the same bytes before either has recorded its write. -/
theorem not_isPrefix_two_loops : ∃ w₀ es w, Dialed [1, 2] w₀ ∧ Consistent [1, 2] es ∧
    run step w₀ es = some w ∧ w.dest = [1, 2, 1, 2] ∧ ¬w.dest <+: [1, 2] := by
  refine ⟨justDialed, [.call (.data 0 [1, 2]), .call (.data 0 [1, 2]), .run 2 .ok, .run 3 .ok,
    .run 2 .ok, .run 3 .ok], _, dialed_justDialed _, ?_, rfl, by decide, by decide⟩
  simp [Consistent, show Agrees [1, 2] 0 ([1, 2] : Bytes) by decide]

end SubstratePoc.Broker
