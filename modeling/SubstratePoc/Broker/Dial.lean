import SubstratePoc.Broker.Inversion

namespace SubstratePoc.Broker
open Lib Tunnel

/-- The calls a frame loop makes for contiguous DATA frames from `offset` on. -/
def frameActs (offset : ℕ) : List Bytes → List Act
  | [] => []
  | p :: ps => .onData offset p :: frameActs (offset + p.length) ps

/-- The session that `openSession` has created and bound to `tc`: its frame loop reads on, and
the dial has been started. -/
def opened (sessionBufferBytes : ℕ) (actorID : Bytes) (sessionID : UInt64) (target : Bytes)
    (tc : ConnId) (frames : List Bytes) : World :=
  { World.create sessionBufferBytes actorID sessionID target with
    s := (newSession sessionBufferBytes actorID sessionID target).bind tc
    threads := [frameActs 0 frames, [.dial]] }

/-- No frame with bytes is checked while pre-connect bytes are unrecorded, and no write of bytes
to the destination fails. -/
def timely (w : World) : Event → Bool
  | .run i c => match w.next i, c with
    | some (.onData _ p), _ => p = [] || !w.pending.any Act.flushing
    | some (.upWrite p), .fail _ _ => p = []
    | some (.flush _), .fail _ _ => false
    | _, _ => true
  | _ => true

/-- The actions that decide what becomes of the request bytes. -/
def Act.feeds : Act → Bool
  | .dial | .destroy | .onSidecarClose _ => true
  | a => a.up

/-- The frame loop's and the dial's part in it; nobody else takes part. -/
structure View (w : World) (loop dial : List Act) : Prop where
  threads : ∃ t d others, w.threads = t :: d :: others ∧ t.filter Act.feeds = loop ∧
    d.filter Act.feeds = dial ∧ ∀ a ∈ others.flatten, a.feeds = false
  dead : w.s.dead = false
  upClosed : w.s.upClosed = false

theorem Does.frame_feeds {s : Session} {a : Act} {c : Choice} {r : Result} (h : Does s a c r)
    (ha : a.feeds = false) (hdead : s.dead = false) (hup : s.upClosed = false) :
    r.s.dead = false ∧ r.s.upClosed = false ∧ ∀ b ∈ r.push, b.feeds = false := by
  cases h with
  | produceDone after => cases after <;> simp [After.acts, Act.feeds, Act.up, hdead, hup]
  | done _ hd => simp [Session.done, hup] at hd
  | _ => simp_all [Act.feeds, Act.up]

theorem Act.feeds_of_up {a : Act} (ha : a.up = true) : a.feeds = true := by
  cases a <;> first | rfl | exact ha

theorem Act.not_up_of_not_feeds {a : Act} (ha : a.feeds = false) : a.up = false := by
  by_contra hu
  rw [Act.feeds_of_up (by simpa using hu)] at ha
  cases ha

theorem Act.up_of_flushing {a : Act} (ha : a.flushing = true) : a.up = true := by
  cases a <;> first | rfl | cases ha

section Timely
variable {w : World} {i : ℕ} {c : Choice}

theorem timely_onData {offset : ℕ} {p : Bytes} (hn : w.next i = some (.onData offset p)) :
    timely w (.run i c) = (p = [] || !w.pending.any Act.flushing) := by
  simp only [timely, hn]

theorem timely_upWrite_fail {p : Bytes} {n : ℕ} {text : Bytes}
    (hn : w.next i = some (.upWrite p)) : timely w (.run i (.fail n text)) = decide (p = []) := by
  simp only [timely, hn]

theorem timely_flush_fail {p : Bytes} {n : ℕ} {text : Bytes} (hn : w.next i = some (.flush p)) :
    timely w (.run i (.fail n text)) = false := by
  simp only [timely, hn]

theorem timely_of_not_up {a : Act} (hn : w.next i = some a) (ha : a.up = false) :
    timely w (.run i c) = true := by
  simp only [timely, hn]
  cases a <;> first | rfl | cases ha

end Timely

theorem View.any_flushing {w : World} {loop dial : List Act} (hV : View w loop dial) :
    w.pending.any Act.flushing = (loop ++ dial).any Act.flushing := by
  obtain ⟨t, d, others, hts, rfl, rfl, hothers⟩ := hV.threads
  have hfeeds : ∀ a : Act, a.flushing = true → a.feeds = true :=
    fun a ha => Act.feeds_of_up (Act.up_of_flushing ha)
  have hsame : ∀ as : List Act, (as.filter Act.feeds).any Act.flushing = as.any Act.flushing := by
    intro as
    rw [List.any_filter]
    congr 1
    funext a
    cases h : a.flushing <;> simp [h, hfeeds]
  have hnone : others.flatten.any Act.flushing = false := by
    rw [List.any_eq_false]
    intro a ha hf
    simpa [hothers a ha] using hfeeds a hf
  rw [World.pending, hts, List.flatten_cons, List.flatten_cons, List.any_append, List.any_append,
    hnone, Bool.or_false, List.any_append, hsame, hsame]

/-- A step of the frame loop, a step of the dial, or one that matters to neither. -/
inductive Moved (w w' : World) (loop dial : List Act) : Event → Prop
  | quiet (e : Event) (hV : View w' loop dial) (hc : w'.s.connected = w.s.connected)
    (hp : w'.s.preConn = w.s.preConn) (hw : w'.s.upstreamWritten = w.s.upstreamWritten)
    (hd : w'.dest = w.dest) (ht : timely w e = true) : Moved w w' loop dial e
  | loop (a : Act) (l : List Act) (c : Choice) (r : Result) (hl : loop = a :: l)
    (hn : w.next 0 = some a) (hr : Does w.s a c r) (hs : w'.s = r.s)
    (hd : w'.dest = w.dest ++ r.eff.flatMap Effect.bytes)
    (hV : r.s.dead = false → r.s.upClosed = false →
      View w' (r.push.filter Act.feeds ++ l) dial) : Moved w w' loop dial (.run 0 c)
  | dial (a : Act) (d : List Act) (c : Choice) (r : Result) (hl : dial = a :: d)
    (hn : w.next 1 = some a) (hr : Does w.s a c r) (hs : w'.s = r.s)
    (hd : w'.dest = w.dest ++ r.eff.flatMap Effect.bytes)
    (hV : r.s.dead = false → r.s.upClosed = false →
      View w' loop (r.push.filter Act.feeds ++ d)) : Moved w w' loop dial (.run 1 c)

theorem View.quiet {w : World} {a : Act} {c : Choice} {r : Result} {i : ℕ} {loop dial : List Act}
    {t d : List Act} {others : List (List Act)} (hV : View w loop dial) (hn : w.next i = some a)
    (hr : Does w.s a c r) (ha : a.feeds = false) (ht : t.filter Act.feeds = loop)
    (hd : d.filter Act.feeds = dial) (hothers : ∀ a ∈ others.flatten, a.feeds = false) :
    Moved w (w.after r (t :: d :: others)) loop dial (.run i c) := by
  have hup : a.up = false := Act.not_up_of_not_feeds ha
  obtain ⟨hc, hp, hw, hb, -⟩ := hr.frame_up hup
  obtain ⟨hdead, hclosed, -⟩ := hr.frame_feeds ha hV.dead hV.upClosed
  apply Moved.quiet _ ⟨⟨t, d, others, rfl, ht, hd, hothers⟩, hdead, hclosed⟩ hc hp hw
  · simp [World.after, hb]
  · exact timely_of_not_up hn hup

theorem View.step {w w' : World} {e : Event} {loop dial : List Act} (hV : View w loop dial)
    (hcall : ∀ h, e ≠ .call h) (h : step w e = some w') : Moved w w' loop dial e := by
  obtain ⟨t, d, others, hts, ht, hd, hothers⟩ := hV.threads
  obtain ⟨hd, rfl, -⟩ | ⟨rfl, rfl⟩ | ⟨c, a, rest, r, L, R, rfl, hts', hr, rfl⟩ := step_cases h
  · exact absurd rfl (hcall hd)
  · refine Moved.quiet .fire ⟨⟨t, d, others ++ [[.watchdog]], ?_, ht, hd, ?_⟩, hV.dead, hV.upClosed⟩
      rfl rfl rfl rfl rfl
    · rw [hts]
      rfl
    · simp only [List.flatten_append, List.mem_append]
      rintro a (ha | ha)
      · exact hothers a ha
      · simp only [List.flatten_cons, List.flatten_nil, List.append_nil, List.mem_singleton] at ha
        rw [ha]
        rfl
  have hn : w.next L.length = some a := by simp [World.next, hts']
  have hquiet : a.feeds = false → r.push.filter Act.feeds = [] := by
    intro ha
    simpa [List.filter_eq_nil_iff] using (hr.frame_feeds ha hV.dead hV.upClosed).2.2
  rw [hts] at hts'
  -- whose turn it was: the frame loop's, the dial's, or another's
  rcases L with _ | ⟨x, _ | ⟨y, L⟩⟩
  · obtain ⟨rfl, rfl⟩ := List.cons.inj hts'
    rw [List.filter_cons] at ht
    by_cases ha : a.feeds = true
    · rw [if_pos ha] at ht
      apply Moved.loop a _ c r ht.symm hn hr rfl rfl
      intro hdead hup
      exact ⟨⟨_, d, others, rfl, List.filter_append .., hd, hothers⟩, hdead, hup⟩
    · rw [if_neg ha] at ht
      have ha' : a.feeds = false := by simpa using ha
      apply hV.quiet hn hr ha' _ hd hothers
      rw [List.filter_append, hquiet ha', List.nil_append, ht]
  · obtain ⟨rfl, h1⟩ := List.cons.inj hts'
    obtain ⟨rfl, rfl⟩ := List.cons.inj h1
    rw [List.filter_cons] at hd
    by_cases ha : a.feeds = true
    · rw [if_pos ha] at hd
      apply Moved.dial a _ c r hd.symm hn hr rfl rfl
      intro hdead hup
      exact ⟨⟨t, _, others, rfl, ht, List.filter_append .., hothers⟩, hdead, hup⟩
    · rw [if_neg ha] at hd
      have ha' : a.feeds = false := by simpa using ha
      apply hV.quiet hn hr ha' ht _ hothers
      rw [List.filter_append, hquiet ha', List.nil_append, hd]
  · simp only [List.cons_append, List.cons.injEq] at hts'
    obtain ⟨rfl, rfl, rfl⟩ := hts'
    have ha : a.feeds = false := hothers a (by simp)
    simp only [List.cons_append]
    apply hV.quiet hn hr ha ht hd
    intro b hb
    rcases mem_flatten_replace (a := a) hb with hnew | hold
    · exact (hr.frame_feeds ha hV.dead hV.upClosed).2.2 b hnew
    · exact hothers b hold

/-- Where the bytes of the stream `S` are, as long as none is lost. -/
inductive Kept (S : Bytes) (s : Session) (dest : Bytes) : List Act → List Act → Prop
  | dialing (ps : List Bytes) (a : Act) (ha : a = .dial ∨ a = .dialed) (hc : s.connected = false)
    (hw : s.upstreamWritten = 0) (hd : dest = []) (hS : s.preConn ++ ps.flatten = S) :
    Kept S s dest (frameActs s.preConn.length ps) [a]
  | flush (ps : List Bytes) (pre : Bytes) (hpre : pre ≠ []) (hc : s.connected = true)
    (hw : s.upstreamWritten = 0) (hd : dest = []) (hS : pre ++ ps.flatten = S) :
    Kept S s dest (frameActs pre.length ps) [.flush pre]
  | flushed (ps : List Bytes) (pre : Bytes) (hpre : pre ≠ []) (hc : s.connected = true)
    (hw : s.upstreamWritten = 0) (hd : dest = pre) (hS : pre ++ ps.flatten = S) :
    Kept S s dest (frameActs pre.length ps) [.flushed pre.length]
  | live (ps : List Bytes) (hc : s.connected = true) (hd : dest.length = s.upstreamWritten)
    (hS : dest ++ ps.flatten = S) : Kept S s dest (frameActs s.upstreamWritten ps) []
  | write (ps : List Bytes) (p : Bytes) (hc : s.connected = true)
    (hd : dest.length = s.upstreamWritten) (hS : dest ++ (p ++ ps.flatten) = S) :
    Kept S s dest (.upWrite p :: frameActs (s.upstreamWritten + p.length) ps) []
  | written (ps : List Bytes) (n : ℕ) (hc : s.connected = true)
    (hd : dest.length = s.upstreamWritten + n) (hS : dest ++ ps.flatten = S) :
    Kept S s dest (.onDataWritten n :: frameActs (s.upstreamWritten + n) ps) []

/-- A byte is lost: whatever is still under way ends below the offset of the next frame. -/
structure Lost (total : ℕ) (s : Session) (loop dial : List Act) : Prop where
  connected : s.connected = true
  gap : ∃ front offset ps, loop = front ++ frameActs offset ps ∧
    offset + ps.flatten.length = total ∧
    (∀ a ∈ front, (∃ p, a = .upWrite p) ∨ ∃ n, a = .onDataWritten n) ∧
    s.upstreamWritten + ((front ++ dial).map Act.carrying).sum < offset
  dial : ∀ a ∈ dial, (∃ p, a = .flush p) ∨ ∃ n, a = .flushed n

structure NoDest (w : World) : Prop where
  connected : w.s.connected = false
  pending : ∀ a ∈ w.pending, a.up = true → ∃ offset p, a = .onData offset p
  dial : .dial ∉ w.pending

theorem noDest_step {w w' : World} {e : Event} (hF : NoDest w) (hcall : ∀ h, e ≠ .call h)
    (h : step w e = some w') : NoDest w' ∧ timely w e = true := by
  obtain ⟨hd, rfl, -⟩ | ⟨rfl, rfl, hpend⟩ |
    ⟨i, c, a, r, X, Y, rfl, hn, hr, hpend, hpend', ts, rfl⟩ := step_pending h
  · exact absurd rfl (hcall hd)
  · refine ⟨⟨hF.connected, ?_, ?_⟩, rfl⟩
    · intro a ha hu
      rw [hpend, List.mem_append, List.mem_singleton] at ha
      exact ha.elim (fun ha => hF.pending a ha hu) fun ha => by simp [ha, Act.up] at hu
    · simpa [hpend] using hF.dial
  · have hmem : a ∈ w.pending := by simp [hpend]
    have hnd : a ≠ .dial := fun h => hF.dial (h ▸ hmem)
    have hkeep : r.s.connected = false ∧ ∀ b ∈ r.push, b.up = false := by
      by_cases hu : a.up = true
      · obtain ⟨o, p, rfl⟩ := hF.pending a hmem hu
        have hc := hF.connected
        cases hr <;> simp_all
      · obtain ⟨hc, -, -, -, hpush⟩ := hr.frame_up (by simpa using hu)
        refine ⟨hc.trans hF.connected, ?_⟩
        intro b hb
        by_contra hbu
        exact hnd (hpush b hb (by simpa using hbu)).1
    have hsub : ∀ b ∈ ts.flatten, b ∈ r.push ∨ b ∈ w.pending := by
      intro b hb
      have hb' : b ∈ X ++ (r.push ++ Y) := hpend' ▸ hb
      rw [hpend]
      exact mem_of_replace hb'
    refine ⟨⟨hkeep.1, ?_, ?_⟩, ?_⟩
    · intro b hb hu
      rcases hsub b hb with h | h
      · simp [hkeep.2 b h] at hu
      · exact hF.pending b h hu
    · intro hb
      exact (hsub _ hb).elim hr.dial_notMem hF.dial
    · have hnf : w.pending.any Act.flushing = false := by
        rw [List.any_eq_false]
        intro b hb hf
        obtain ⟨o, p, rfl⟩ := hF.pending b hb (Act.up_of_flushing hf)
        cases hf
      by_cases hu : a.up = true
      · obtain ⟨o, p, rfl⟩ := hF.pending a hmem hu
        simp [timely_onData hn, hnf]
      · exact timely_of_not_up hn (by simpa using hu)

theorem Kept.congr {S dest dest' : Bytes} {s s' : Session} {loop dial : List Act}
    (h : Kept S s dest loop dial) (hc : s'.connected = s.connected) (hp : s'.preConn = s.preConn)
    (hw : s'.upstreamWritten = s.upstreamWritten) (hd : dest' = dest) :
    Kept S s' dest' loop dial := by
  subst hd
  cases h with
  | dialing ps a ha hc' hw' hd hS =>
    rw [← hp]
    exact .dialing ps a ha (hc.trans hc') (hw.trans hw') hd (hp ▸ hS)
  | flush ps pre hpre hc' hw' hd hS => exact .flush ps pre hpre (hc.trans hc') (hw.trans hw') hd hS
  | flushed ps pre hpre hc' hw' hd hS =>
    exact .flushed ps pre hpre (hc.trans hc') (hw.trans hw') hd hS
  | live ps hc' hd hS =>
    rw [← hw]
    exact .live ps (hc.trans hc') (hd.trans hw.symm) hS
  | write ps p hc' hd hS =>
    rw [← hw]
    exact .write ps p (hc.trans hc') (hd.trans hw.symm) hS
  | written ps n hc' hd hS =>
    rw [← hw]
    exact .written ps n (hc.trans hc') (by rw [hw]; exact hd) hS

theorem frameActs_eq_cons {offset : ℕ} {ps : List Bytes} {a : Act} {l : List Act}
    (h : frameActs offset ps = a :: l) :
    ∃ p ps', ps = p :: ps' ∧ a = .onData offset p ∧ l = frameActs (offset + p.length) ps' := by
  cases ps with
  | nil => cases h
  | cons p ps =>
    obtain ⟨rfl, rfl⟩ := List.cons.inj h
    exact ⟨p, ps, rfl, rfl, rfl⟩

theorem any_flushing_frameActs (offset : ℕ) (ps : List Bytes) :
    (frameActs offset ps).any Act.flushing = false := by
  induction ps generalizing offset with
  | nil => rfl
  | cons p ps ih => rw [frameActs, List.any_cons, ih]; rfl

theorem Does.onData_queue {s : Session} {p : Bytes} {c : Choice} {r : Result}
    (h : Does s (.onData s.preConn.length p) c r) (hd : s.dead = false)
    (hc : s.connected = false) (hw : s.upstreamWritten = 0) :
    r = ⟨{ s with preConn := s.preConn ++ p }, [], []⟩ := by
  have hpos : s.position = s.preConn.length := by simp [Session.position, hc, hw]
  cases h with
  | onDataDropped _ _ _ h =>
    rw [hd, hpos] at h
    simp at h
  | onDataQueued => simp [hpos]
  | onDataAdmitted _ _ _ _ hc' => simp [hc] at hc'

theorem Does.onData_admit {s : Session} {p : Bytes} {c : Choice} {r : Result}
    (h : Does s (.onData s.upstreamWritten p) c r) (hd : s.dead = false)
    (hc : s.connected = true) : r = ⟨s, [.upWrite p], []⟩ := by
  have hpos : s.position = s.upstreamWritten := if_pos hc
  cases h with
  | onDataDropped _ _ _ h =>
    rw [hd, hpos] at h
    simp at h
  | onDataQueued _ _ _ _ hc' => simp [hc] at hc'
  | onDataAdmitted => simp

theorem Does.onData_gap {s : Session} {offset : ℕ} {p : Bytes} {c : Choice} {r : Result}
    (h : Does s (.onData offset p) c r) (hc : s.connected = true)
    (hgap : s.upstreamWritten < offset) : r = ⟨s, [], []⟩ := by
  cases h with
  | onDataDropped => rfl
  | onDataQueued _ _ _ _ hc' => simp [hc] at hc'
  | onDataAdmitted _ _ _ _ _ ho => omega

theorem kept_window {S : Bytes} {w : World} {ps : List Bytes} {pre : Bytes} {a d : Act}
    {l : List Act} {c : Choice} {r : Result} (hpre : pre ≠ []) (hc : w.s.connected = true)
    (hw : w.s.upstreamWritten = 0) (hS : pre ++ ps.flatten = S) (hn : w.next 0 = some a)
    (hl : frameActs pre.length ps = a :: l) (hr : Does w.s a c r)
    (hany : w.pending.any Act.flushing = true)
    (hd : (d = .flush pre) ∨ d = .flushed pre.length) : r = ⟨w.s, [], []⟩ ∧
    (timely w (.run 0 c) = true → ∃ ps', l = frameActs pre.length ps' ∧ pre ++ ps'.flatten = S) ∧
    (timely w (.run 0 c) = false → Lost S.length w.s l [d]) := by
  -- a frame met while pre-connect bytes are unrecorded: lost, unless it is empty
  obtain ⟨p, ps, rfl, rfl, rfl⟩ := frameActs_eq_cons hl
  have hpos : 0 < pre.length := List.length_pos_iff.mpr hpre
  have hcarrying : d.carrying = pre.length := by rcases hd with rfl | rfl <;> rfl
  refine ⟨hr.onData_gap hc (by omega), ?_, ?_⟩
  · intro ht
    obtain rfl : p = [] := by simpa [timely_onData hn, hany] using ht
    exact ⟨ps, rfl, by simpa using hS⟩
  · intro ht
    have hp : 0 < p.length := by simpa [timely_onData hn, hany, List.length_pos_iff] using ht
    refine ⟨hc, ⟨[], pre.length + p.length, ps, rfl, ?_, by simp, ?_⟩, ?_⟩
    · rw [← hS]
      simp
      omega
    · simp [hw, hcarrying, hp]
    · rcases hd with rfl | rfl <;> simp

/-- A step of the frame loop loses a byte exactly if it is not timely. -/
theorem kept_loop {S : Bytes} {w : World} {loop dial : List Act} {a : Act} {l : List Act}
    {c : Choice} {r : Result} (hV : View w loop dial) (hK : Kept S w.s w.dest loop dial)
    (hl : loop = a :: l) (hn : w.next 0 = some a) (hr : Does w.s a c r) :
    r.s.dead = false ∧ r.s.upClosed = false ∧
    (timely w (.run 0 c) = true →
      Kept S r.s (w.dest ++ r.eff.flatMap Effect.bytes) (r.push.filter Act.feeds ++ l) dial) ∧
    (timely w (.run 0 c) = false → Lost S.length r.s (r.push.filter Act.feeds ++ l) dial) := by
  have hany := hV.any_flushing
  have hdead := hV.dead
  have hup := hV.upClosed
  cases hK with
  | dialing ps d hd hc hw hdest hS =>
    obtain ⟨p, ps, rfl, rfl, rfl⟩ := frameActs_eq_cons hl
    -- the frame is queued behind the others
    obtain rfl := hr.onData_queue hdead hc hw
    have hnone : w.pending.any Act.flushing = false := by
      rw [hany, List.any_append, any_flushing_frameActs]
      rcases hd with rfl | rfl <;> rfl
    refine ⟨hdead, hup, ?_, ?_⟩
    · intro _
      have hlen : w.s.preConn.length + p.length = (w.s.preConn ++ p).length := by simp
      rw [hlen]
      refine .dialing ps d hd hc hw ?_ ?_
      · simpa using hdest
      · simpa using hS
    · simp [timely_onData hn, hnone]
  | flush ps pre hpre hc hw hdest hS =>
    -- the connection is published, and `upstreamWritten` lacks the pre-connect bytes
    obtain ⟨rfl, hkeep, hlose⟩ := kept_window hpre hc hw hS hn hl hr
      (by rw [hany]; simp [Act.flushing]) (.inl rfl)
    refine ⟨hdead, hup, ?_, hlose⟩
    intro ht
    obtain ⟨ps', rfl, hS'⟩ := hkeep ht
    exact .flush ps' pre hpre hc hw (by simpa using hdest) hS'
  | flushed ps pre hpre hc hw hdest hS =>
    obtain ⟨rfl, hkeep, hlose⟩ := kept_window hpre hc hw hS hn hl hr
      (by rw [hany]; simp [Act.flushing]) (.inr rfl)
    refine ⟨hdead, hup, ?_, hlose⟩
    intro ht
    obtain ⟨ps', rfl, hS'⟩ := hkeep ht
    exact .flushed ps' pre hpre hc hw (by simpa using hdest) hS'
  | live ps hc hdest hS =>
    obtain ⟨p, ps, rfl, rfl, rfl⟩ := frameActs_eq_cons hl
    obtain rfl := hr.onData_admit hdead hc
    have hnone : w.pending.any Act.flushing = false := by
      rw [hany, List.append_nil, any_flushing_frameActs]
    refine ⟨hdead, hup, ?_, ?_⟩
    · intro _
      apply Kept.write ps p hc
      · simpa using hdest
      · simpa using hS
    · simp [timely_onData hn, hnone]
  | write ps p hc hdest hS =>
    obtain ⟨rfl, rfl⟩ := List.cons.inj hl
    cases hr with
    | upWriteOk =>
      refine ⟨hdead, hup, ?_, ?_⟩
      · intro _
        apply Kept.written ps p.length hc
        · simp [Effect.bytes, hdest]
        · simpa [Effect.bytes] using hS
      · simp [timely, hn]
    | upWriteFail _ n text =>
      -- the frame is given up; whatever follows it leaves a gap
      refine ⟨hdead, hup, ?_, ?_⟩
      · intro ht
        obtain rfl : p = [] := by simpa [timely_upWrite_fail hn] using ht
        simpa [Effect.bytes, Act.feeds, Act.up] using Kept.live ps hc hdest hS
      · intro ht
        have hp : 0 < p.length := by simpa [timely_upWrite_fail hn, List.length_pos_iff] using ht
        refine ⟨hc, ⟨[], _, ps, rfl, ?_, by simp, ?_⟩, by simp⟩
        · rw [← hS, ← hdest]
          simp
          omega
        · simp [hp]
  | written ps n hc hdest hS =>
    obtain ⟨rfl, rfl⟩ := List.cons.inj hl
    cases hr with
    | onDataWritten =>
      refine ⟨hdead, hup, ?_, ?_⟩
      · intro _
        refine .live ps hc ?_ ?_
        · simpa using hdest
        · simpa using hS
      · simp [timely, hn]

/-- A step of the dial loses a byte exactly if it is not timely; a dial that fails leaves the
session without a destination. -/
theorem kept_dial {S : Bytes} {w : World} {loop dial : List Act} {a : Act} {d : List Act}
    {c : Choice} {r : Result} (hV : View w loop dial) (hK : Kept S w.s w.dest loop dial)
    (hl : dial = a :: d) (hn : w.next 1 = some a) (hr : Does w.s a c r) :
    r.s.dead = false ∧ r.s.upClosed = false ∧
    (timely w (.run 1 c) = true →
      (r.s.connected = false ∧ (∃ ps, loop = frameActs w.s.preConn.length ps) ∧
        r.push.filter Act.feeds ++ d = [.destroy]) ∨
      Kept S r.s (w.dest ++ r.eff.flatMap Effect.bytes) loop (r.push.filter Act.feeds ++ d)) ∧
    (timely w (.run 1 c) = false → Lost S.length r.s loop (r.push.filter Act.feeds ++ d)) := by
  have hdead := hV.dead
  have hup := hV.upClosed
  cases hK with
  | dialing ps b hb hc hw hdest hS =>
    obtain ⟨rfl, rfl⟩ := List.cons.inj hl
    rcases hb with rfl | rfl
    · have htimely : timely w (.run 1 c) = true := by simp [timely, hn]
      cases hr with
      | dialOk =>
        refine ⟨hdead, hup, fun _ => .inr ?_, by simp [htimely]⟩
        exact .dialing ps .dialed (.inr rfl) hc hw (by simpa using hdest) hS
      | dialFail =>
        exact ⟨hdead, hup, fun _ => .inl ⟨hc, ⟨ps, rfl⟩, rfl⟩, by simp [htimely]⟩
    · have htimely : timely w (.run 1 c) = true := by simp [timely, hn]
      cases hr with
      | dialedDead _ hd => simp [hdead] at hd
      | dialedFlush _ _ hp =>
        refine ⟨hdead, hup, fun _ => .inr ?_, by simp [htimely]⟩
        exact .flush ps w.s.preConn hp rfl hw (by simpa using hdest) hS
      | dialedRead _ _ hp =>
        refine ⟨hdead, hup, fun _ => .inr ?_, by simp [htimely]⟩
        have hlen : w.s.preConn.length = w.s.upstreamWritten := by rw [hp, hw]; rfl
        rw [hlen]
        refine .live ps rfl ?_ ?_
        · simp [hdest, hw]
        · simpa [hp, hdest] using hS
  | flush ps pre hpre hc hw hdest hS =>
    obtain ⟨rfl, rfl⟩ := List.cons.inj hl
    cases hr with
    | flushOk =>
      refine ⟨hdead, hup, fun _ => .inr ?_, by simp [timely, hn]⟩
      exact .flushed ps pre hpre hc hw (by simp [Effect.bytes, hdest]) hS
    | flushFail _ n text =>
      refine ⟨hdead, hup, by simp [timely_flush_fail hn], fun _ => ?_⟩
      refine ⟨hc, ⟨[], pre.length, ps, rfl, by simp [← hS], by simp, ?_⟩, ?_⟩
      · simpa [hw, Act.feeds, Act.up, List.length_pos_iff] using hpre
      · simp [Act.feeds, Act.up]
  | flushed ps pre hpre hc hw hdest hS =>
    obtain ⟨rfl, rfl⟩ := List.cons.inj hl
    cases hr with
    | flushed =>
      refine ⟨hdead, hup, fun _ => .inr ?_, by simp [timely, hn]⟩
      have hloop : frameActs pre.length ps = frameActs (w.s.upstreamWritten + pre.length) ps := by
        rw [hw, Nat.zero_add]
      rw [hloop]
      refine .live ps hc ?_ ?_
      · simp [hdest, hw]
      · simpa [hdest] using hS
  | live => cases hl
  | write => cases hl
  | written => cases hl

theorem lost_loop {total : ℕ} {s : Session} {loop dial : List Act} {a : Act} {l : List Act}
    {c : Choice} {r : Result} (hL : Lost total s loop dial) (hl : loop = a :: l)
    (hr : Does s a c r) (hdead : s.dead = false) (hup : s.upClosed = false) :
    r.s.dead = false ∧ r.s.upClosed = false ∧
      Lost total r.s (r.push.filter Act.feeds ++ l) dial := by
  obtain ⟨hc, ⟨front, offset, ps, rfl, htotal, hfront, hlt⟩, hdial⟩ := hL
  rw [List.map_append, List.sum_append] at hlt
  cases front with
  | nil =>
    -- the next frame is a gap, too, and so is the one after it
    obtain ⟨p, ps, rfl, rfl, rfl⟩ := frameActs_eq_cons hl
    obtain rfl := hr.onData_gap hc (by omega)
    refine ⟨hdead, hup, hc, ⟨[], offset + p.length, ps, rfl, ?_, by simp, ?_⟩, hdial⟩
    · rw [← htotal]
      simp
      omega
    · simp only [List.map_nil, List.sum_nil] at hlt
      simp only [List.nil_append]
      omega
  | cons b front =>
    obtain ⟨rfl, rfl⟩ := List.cons.inj hl
    rw [List.forall_mem_cons] at hfront
    rw [List.map_cons, List.sum_cons] at hlt
    rcases hfront.1 with ⟨p, rfl⟩ | ⟨n, rfl⟩
    · cases hr with
      | upWriteOk =>
        refine ⟨hdead, hup, hc, ⟨.onDataWritten p.length :: front, offset, ps, rfl, htotal, ?_, ?_⟩,
          hdial⟩
        · rw [List.forall_mem_cons]
          exact ⟨.inr ⟨_, rfl⟩, hfront.2⟩
        · simpa [Act.carrying, add_assoc] using hlt
      | upWriteFail =>
        refine ⟨hdead, hup, hc, ⟨front, offset, ps, rfl, htotal, hfront.2, ?_⟩, hdial⟩
        rw [List.map_append, List.sum_append]
        dsimp only
        omega
    · cases hr with
      | onDataWritten =>
        refine ⟨hdead, hup, hc, ⟨front, offset, ps, rfl, htotal, hfront.2, ?_⟩, hdial⟩
        simpa [Act.carrying, add_assoc] using hlt

theorem lost_dial {total : ℕ} {s : Session} {loop dial : List Act} {a : Act} {d : List Act}
    {c : Choice} {r : Result} (hL : Lost total s loop dial) (hl : dial = a :: d)
    (hr : Does s a c r) (hdead : s.dead = false) (hup : s.upClosed = false) :
    r.s.dead = false ∧ r.s.upClosed = false ∧
      Lost total r.s loop (r.push.filter Act.feeds ++ d) := by
  obtain ⟨hc, ⟨front, offset, ps, rfl, htotal, hfront, hlt⟩, hdial⟩ := hL
  subst hl
  rw [List.forall_mem_cons] at hdial
  rw [List.map_append, List.sum_append, List.map_cons, List.sum_cons] at hlt
  rcases hdial.1 with ⟨p, rfl⟩ | ⟨n, rfl⟩
  · cases hr with
    | flushOk =>
      refine ⟨hdead, hup, ?_⟩
      change Lost total s _ (.flushed p.length :: d)
      refine ⟨hc, ⟨front, offset, ps, rfl, htotal, hfront, ?_⟩, ?_⟩
      · simpa [Act.carrying] using hlt
      · rw [List.forall_mem_cons]
        exact ⟨.inr ⟨_, rfl⟩, hdial.2⟩
    | flushFail =>
      refine ⟨hdead, hup, hc, ⟨front, offset, ps, rfl, htotal, hfront, ?_⟩, hdial.2⟩
      change s.upstreamWritten + ((front ++ d).map Act.carrying).sum < offset
      rw [List.map_append, List.sum_append]
      omega
  · cases hr with
    | flushed =>
      refine ⟨hdead, hup, hc, ⟨front, offset, ps, rfl, htotal, hfront, ?_⟩, hdial.2⟩
      change s.upstreamWritten + n + ((front ++ d).map Act.carrying).sum < offset
      rw [List.map_append, List.sum_append]
      simp only [Act.carrying] at hlt
      omega

def Unbroken (S : Bytes) (w : World) : Prop :=
  NoDest w ∨ ∃ loop dial, View w loop dial ∧ Kept S w.s w.dest loop dial

def Gapped (S : Bytes) (w : World) : Prop :=
  ∃ loop dial, View w loop dial ∧ Lost S.length w.s loop dial

theorem gapped_step {S : Bytes} {w w' : World} {e : Event} (hcall : ∀ h, e ≠ .call h)
    (hG : Gapped S w) (h : step w e = some w') : Gapped S w' := by
  obtain ⟨loop, dial, hV, hL⟩ := hG
  cases hV.step hcall h with
  | quiet _ hV' hc _ hw =>
    refine ⟨loop, dial, hV', hc.trans hL.connected, ?_, hL.dial⟩
    rw [hw]
    exact hL.gap
  | loop a l c r hl _ hr hs _ hV' =>
    obtain ⟨hdead, hup, hL'⟩ := lost_loop hL hl hr hV.dead hV.upClosed
    exact ⟨_, _, hV' hdead hup, hs ▸ hL'⟩
  | dial a d c r hl _ hr hs _ hV' =>
    obtain ⟨hdead, hup, hL'⟩ := lost_dial hL hl hr hV.dead hV.upClosed
    exact ⟨_, _, hV' hdead hup, hs ▸ hL'⟩

theorem View.noDest {w : World} {offset : ℕ} {ps : List Bytes}
    (hV : View w (frameActs offset ps) [.destroy]) (hc : w.s.connected = false) : NoDest w := by
  -- a session whose dial has failed has only frames left that will be dropped
  obtain ⟨t, d, others, hts, ht, hd, hothers⟩ := hV.threads
  have hframes : ∀ (o : ℕ) (qs : List Bytes), ∀ a ∈ frameActs o qs, ∃ o' p, a = .onData o' p := by
    intro o qs
    induction qs generalizing o with
    | nil => simp [frameActs]
    | cons q qs ih =>
      rw [frameActs, List.forall_mem_cons]
      exact ⟨⟨o, q, rfl⟩, ih _⟩
  have hmem : ∀ a ∈ w.pending, a.feeds = true → (∃ o p, a = .onData o p) ∨ a = .destroy := by
    intro a ha hf
    simp only [World.pending, hts, List.flatten_cons, List.mem_append] at ha
    rcases ha with ha | ha | ha
    · have := List.mem_filter.mpr ⟨ha, hf⟩
      rw [ht] at this
      exact .inl (hframes _ _ a this)
    · have := List.mem_filter.mpr ⟨ha, hf⟩
      rw [hd, List.mem_singleton] at this
      exact .inr this
    · simp [hothers a ha] at hf
  refine ⟨hc, ?_, ?_⟩
  · intro a ha hu
    rcases hmem a ha (Act.feeds_of_up hu) with h | rfl
    · exact h
    · simp [Act.up] at hu
  · intro ha
    simpa using hmem _ ha rfl

theorem unbroken_step {S : Bytes} {w w' : World} {e : Event} (hcall : ∀ h, e ≠ .call h)
    (hI : Unbroken S w) (h : step w e = some w') :
    (timely w e = true → Unbroken S w') ∧ (timely w e = false → Gapped S w') := by
  rcases hI with hF | ⟨loop, dial, hV, hK⟩
  · obtain ⟨hF', ht⟩ := noDest_step hF hcall h
    exact ⟨fun _ => .inl hF', by simp [ht]⟩
  cases hV.step hcall h with
  | quiet _ hV' hc hp hw hd ht =>
    exact ⟨fun _ => .inr ⟨loop, dial, hV', hK.congr hc hp hw hd⟩, by simp [ht]⟩
  | loop a l c r hl hn hr hs hd hV' =>
    obtain ⟨hdead, hup, hkeep, hlose⟩ := kept_loop hV hK hl hn hr
    refine ⟨fun ht => .inr ⟨_, _, hV' hdead hup, ?_⟩, fun ht => ⟨_, _, hV' hdead hup, ?_⟩⟩
    · rw [hs, hd]
      exact hkeep ht
    · exact hs ▸ hlose ht
  | dial a d c r hl hn hr hs hd hV' =>
    obtain ⟨hdead, hup, hkeep, hlose⟩ := kept_dial hV hK hl hn hr
    refine ⟨?_, fun ht => ⟨_, _, hV' hdead hup, hs ▸ hlose ht⟩⟩
    intro ht
    rcases hkeep ht with ⟨hc, ⟨ps, rfl⟩, hpush⟩ | hK'
    · have hV'' := hV' hdead hup
      rw [hpush] at hV''
      exact .inl (hV''.noDest (hs ▸ hc))
    · refine .inr ⟨_, _, hV' hdead hup, ?_⟩
      rwa [hs, hd]

theorem filter_feeds_frameActs (offset : ℕ) (ps : List Bytes) :
    (frameActs offset ps).filter Act.feeds = frameActs offset ps := by
  induction ps generalizing offset with
  | nil => rfl
  | cons p ps ih => rw [frameActs, List.filter_cons_of_pos rfl, ih]

theorem unbroken_opened (sessionBufferBytes : ℕ) (actorID : Bytes) (sessionID : UInt64)
    (target : Bytes) (tc : ConnId) (frames : List Bytes) :
    Unbroken frames.flatten (opened sessionBufferBytes actorID sessionID target tc frames) := by
  refine .inr ⟨frameActs 0 frames, [.dial], ⟨⟨_, _, [], rfl, ?_, rfl, by simp⟩, rfl, rfl⟩, ?_⟩
  · exact filter_feeds_frameActs 0 frames
  · exact .dialing frames .dial (.inl rfl) rfl rfl rfl rfl

theorem View.returned {w : World} {loop dial : List Act} (hV : View w loop dial)
    (hret : ∀ a ∈ w.pending, a.up = false) : ∀ a ∈ loop ++ dial, a.up = false := by
  obtain ⟨t, d, others, hts, rfl, rfl, -⟩ := hV.threads
  intro a ha
  apply hret a
  rw [World.pending, hts, List.flatten_cons, List.flatten_cons]
  rw [List.mem_append] at ha ⊢
  rcases ha with ha | ha
  · exact .inl (List.mem_of_mem_filter ha)
  · exact .inr (List.mem_append_left _ (List.mem_of_mem_filter ha))

theorem frameActs_eq_nil {offset : ℕ} {ps : List Bytes}
    (h : ∀ a ∈ frameActs offset ps, a.up = false) : ps = [] := by
  cases ps with
  | nil => rfl
  | cons p ps => cases h _ (List.mem_cons_self ..)

theorem Kept.dest_eq {S : Bytes} {w : World} {loop dial : List Act} (hK : Kept S w.s w.dest loop dial)
    (hc : w.s.connected = true) (hret : ∀ a ∈ loop ++ dial, a.up = false) :
    w.dest = S ∧ w.s.upstreamWritten = S.length := by
  cases hK with
  | dialing _ _ _ hc' => simp [hc] at hc'
  | flush _ pre => simpa [Act.up] using hret (.flush pre) (by simp)
  | flushed _ pre => simpa [Act.up] using hret (.flushed pre.length) (by simp)
  | live ps _ hd hS =>
    obtain rfl := frameActs_eq_nil (by simpa using hret)
    rw [List.flatten_nil, List.append_nil] at hS
    exact ⟨hS, by rw [← hS, hd]⟩
  | write ps p => simpa [Act.up] using hret (.upWrite p) (by simp)
  | written ps n => simpa [Act.up] using hret (.onDataWritten n) (by simp)

theorem Lost.written_lt {total : ℕ} {s : Session} {loop dial : List Act}
    (hL : Lost total s loop dial) : s.upstreamWritten < total := by
  obtain ⟨front, offset, ps, rfl, htotal, -, hlt⟩ := hL.gap
  omega

/-- When the dial has succeeded and every call has returned, the destination has received the
concatenation of the frames, and `upstreamWritten` counts it, exactly if every step was
`timely`. -/
theorem dest_eq_frames_iff_timely {sessionBufferBytes : ℕ} {actorID : Bytes} {sessionID : UInt64}
    {target : Bytes} {tc : ConnId} {frames : List Bytes} {es : List Event} {w : World}
    (hcall : ∀ h, .call h ∉ es)
    (hrun : run step (opened sessionBufferBytes actorID sessionID target tc frames) es = some w)
    (hdial : w.s.connected = true) (hret : ∀ a ∈ w.pending, a.up = false) :
    (w.dest = frames.flatten ∧ w.s.upstreamWritten = frames.flatten.length) ↔
      Along step (fun w e => timely w e = true)
        (opened sessionBufferBytes actorID sessionID target tc frames) es := by
  have hes : ∀ e ∈ es, ∀ h, e ≠ .call h := by
    rintro e he h rfl
    exact hcall h he
  have hcases := run_dichotomy (P := fun w e => timely w e = true)
    (fun w e w' hC hI ht h => (unbroken_step hC hI h).1 ht)
    (fun w e w' hC hI ht h => (unbroken_step hC hI h).2 (by simpa using ht))
    (fun w e w' hC hG h => gapped_step hC hG h) hes
    (unbroken_opened sessionBufferBytes actorID sessionID target tc frames) hrun
  rcases hcases with ⟨halong, hF | ⟨loop, dial, hV, hK⟩⟩ | ⟨hnot, loop, dial, hV, hL⟩
  · simp [hF.connected] at hdial
  · exact ⟨fun _ => halong, fun _ => hK.dest_eq hdial (hV.returned hret)⟩
  · have hlt := hL.written_lt
    refine ⟨fun h => ?_, fun h => absurd h hnot⟩
    omega

def afterFlush : List Event :=
  -- the first frame is queued, the second arrives after the flush
  [.run 0 .ok, .run 1 .ok, .run 1 .ok, .run 1 .ok, .run 1 .ok, .run 0 .ok, .run 0 .ok, .run 0 .ok]

theorem dest_eq_frames_after_flush : ∃ w, run step (opened 16 [] 1 [] 0 [[1], [2]]) afterFlush =
      some w ∧ w.dest = [1, 2] ∧
    ((w.dest = [1, 2] ∧ w.s.upstreamWritten = 2) ↔
      Along step (fun w e => timely w e = true) (opened 16 [] 1 [] 0 [[1], [2]]) afterFlush) := by
  have hrun := (rfl : run step (opened 16 [] 1 [] 0 [[1], [2]]) afterFlush = some _)
  refine ⟨_, hrun, by decide, ?_⟩
  exact dest_eq_frames_iff_timely (by simp [afterFlush]) hrun rfl (by decide)

/-- The second frame is checked after the connection is published and before the first has been
recorded: it never reaches the destination. -/
theorem not_dest_eq_frames_in_window : ∃ es w, (∀ h, .call h ∉ es) ∧
    run step (opened 16 [] 1 [] 0 [[1], [2]]) es = some w ∧ w.s.connected = true ∧
    (∀ a ∈ w.pending, a.up = false) ∧ w.dest = [1] ∧
    ¬(w.dest = [[1], [2]].flatten ∧ w.s.upstreamWritten = [[1], [2]].flatten.length) := by
  refine ⟨[.run 0 .ok, .run 1 .ok, .run 1 .ok, .run 0 .ok, .run 1 .ok, .run 1 .ok], _, by simp, rfl,
    rfl, ?_, ?_, ?_⟩ <;> decide

end SubstratePoc.Broker
