import SubstratePoc.Pair.Connections

namespace SubstratePoc.Pair
open Lib Tunnel Broker Sidecar

/-! ## At rest -/

/-- What the sidecar has left to do is to wait: for a frame, for the agent, or for space. -/
def SAct.waiting (w : Core) : SAct → Bool
  | .readFrame k => (w.links k).down = []
  | .readAgent => true
  | .writeUp p _ => p ≠ [] && !w.cs.dead && w.cs.upBuf.free = 0
  | _ => false

def BAct.waiting (w : Core) : BAct → Bool
  | .readFrame k => (w.links k).up = []
  | .act _ .readUpstream => true
  | .act o (.produce p _) => p ≠ [] && !(w.objs o).s.dead && (w.objs o).s.downBuf.free = 0
  | _ => false

/-- All handlers are at rest, and no frame is in flight to anyone. -/
structure System.AtRest (w : System) : Prop where
  sidecar : ∀ a ∈ w.tunnel ++ w.proxy, a.waiting w.core = true
  broker : ∀ b ∈ w.pending, b.waiting w.core = true

instance (w : System) : Decidable w.AtRest :=
  decidable_of_iff ((∀ a ∈ w.tunnel ++ w.proxy, a.waiting w.core = true) ∧
      ∀ b ∈ w.pending, b.waiting w.core = true)
    ⟨fun h => ⟨h.1, h.2⟩, fun h => ⟨h.sidecar, h.broker⟩⟩

/-! ## The frame that carries the half-close -/

def halfCloses : Msg → Bool
  | .close _ dir _ => dir = dirUp
  | _ => false

/-- The sidecar's action puts a CLOSE(DirUp) into the tunnel. -/
def SAct.halfCloses : SAct → Bool
  | .send m | .write _ m => Pair.halfCloses m
  | _ => false

/-- The connections that a step half-closes, by the session they belong to. -/
def closedWrites (w : System) : Event → List ℕ
  | .broker i _ => match w.next i with
    | some (.act o .closeWrite) => [o]
    | _ => []
  | _ => []

/-- The sidecar's CLOSE finds a tunnel, and is written to a connection that the broker still
reads. -/
def System.carries (w : System) (c : Choice) : SAct → Bool
  | .send m => !halfCloses m || w.core.conn.isSome
  | .write k m => !halfCloses m ||
      (c = .ok && !(w.core.links k).closed && w.pending.contains (.readFrame k))
  | _ => true

/-- The broker reads the CLOSE, finds its session, and finds it connected; and no session is made
for the key once a CLOSE has been handled. -/
def System.applies (cfg : Config) (w : System) (c : Choice) : BAct → Bool
  | .readFrame k => c = .ok || (w.core.links k).up.all (!halfCloses ·)
  | .handleFrame _ m => !halfCloses m || w.core.sessions.isSome
  | .act o (.onSidecarClose dir) => dir ≠ dirUp || (w.core.objs o).s.upstream
  | .openSession _ target => w.core.sessions.isSome || !cfg.allowTarget target ||
      ((List.range w.core.created).all (fun o => !(w.core.objs o).s.upClosed) &&
        w.pending.all fun b => match b with
          | .act _ (.onSidecarClose dir) => dir ≠ dirUp
          | _ => true)
  | _ => true

def carried (cfg : Config) (w : System) : Event → Bool
  | .tunnel c => w.tunnel.head?.all (w.carries c)
  | .proxy c => w.proxy.head?.all (w.carries c)
  | .broker i c => (w.next i).all (w.applies cfg c)
  | .fire _ => true
  | .cut k m _ => ((w.core.links k).up.drop m).all (!halfCloses ·)

/-- Where the half-close is on its way from the agent to the destination. -/
inductive HalfClosing (w : System) (log : List ℕ) : Prop
  | sidecar (a : SAct) (ha : a ∈ w.tunnel ++ w.proxy) (hc : a.halfCloses = true)
  | inFlight (k : ConnId) (m : Msg) (hm : m ∈ (w.core.links k).up) (hc : halfCloses m = true)
    (hk : .readFrame k ∈ w.pending)
  | read (k : ConnId) (m : Msg) (hb : .handleFrame k m ∈ w.pending) (hc : halfCloses m = true)
  | found (o : ℕ) (hb : .act o (.onSidecarClose dirUp) ∈ w.pending) (ho : o + 1 = w.core.created)
  | applied (o : ℕ) (ho : o + 1 = w.core.created) (hu : (w.core.objs o).s.upClosed = true)
    (hw : .act o .closeWrite ∈ w.pending ∨ o ∈ log)

/-! ## One step -/

theorem side_stays {w w' : System} {a : SAct} {push : List SAct}
    (h : Runs w.tunnel w'.tunnel a push ∧ w'.proxy = w.proxy ∨
      Runs w.proxy w'.proxy a push ∧ w'.tunnel = w.tunnel) :
    (∀ x ∈ w.tunnel ++ w.proxy, x = a ∨ x ∈ w'.tunnel ++ w'.proxy) ∧
      ∀ x ∈ push, x ∈ w'.tunnel ++ w'.proxy := by
  rcases h with ⟨⟨rest, ht, ht'⟩, hp⟩ | ⟨⟨rest, hp, hp'⟩, ht⟩
  · rw [ht, ht', hp]
    constructor <;> intro x hx <;> simp only [List.mem_append, List.mem_cons] at hx ⊢ <;> tauto
  · rw [hp, hp', ht]
    constructor <;> intro x hx <;> simp only [List.mem_append, List.mem_cons] at hx ⊢ <;> tauto

theorem sexec_halfCloses {w : System} {a : SAct} {c : Choice}
    {r : Core × List SAct × List (List BAct)} (h : sexec w.core a c = some r)
    (ha : a.halfCloses = true) (hc : w.carries c a = true) :
    (∃ x ∈ r.2.1, x.halfCloses = true) ∨
    ∃ k, .readFrame k ∈ w.pending ∧ ∃ m ∈ (r.1.links k).up, halfCloses m = true := by
  -- the sidecar's CLOSE gets as far as the connection
  cases a with
  | send m =>
    have hm : halfCloses m = true := ha
    left
    rcases w.core.conn.eq_none_or_eq_some with hn | ⟨k, hk⟩
    · simp [System.carries, hm, hn] at hc
    · simp only [sexec, hk] at h
      obtain rfl := Option.some.inj h
      exact ⟨.write k m, List.mem_singleton_self _, hm⟩
  | write k m =>
    have hm : halfCloses m = true := ha
    right
    simp only [System.carries, hm, Bool.not_true, Bool.false_or, Bool.and_eq_true,
      decide_eq_true_eq, Bool.not_eq_true', List.contains_iff_mem] at hc
    obtain ⟨⟨rfl, hopen⟩, hk⟩ := hc
    refine ⟨k, hk, m, ?_, hm⟩
    simp only [sexec] at h
    split_ifs at h
    obtain rfl := Option.some.inj h
    simp [Core.toBroker, hopen, Core.setLink]
  | _ => cases ha

theorem SDoes.upClosed {w w' : Core} {a : SAct} {push : List SAct} {spawn : List (List BAct)}
    (h : SDoes w a w' push spawn) (hu : w'.cs.upClosed = true) :
    w.cs.upClosed = true ∨ ∃ x ∈ push, x.halfCloses = true := by
  cases h with
  | closeUp reason => exact .inr ⟨_, List.mem_singleton_self _, rfl⟩
  | writeOk k m =>
    left
    rw [Core.toBroker_eq] at hu
    exact hu
  | _ => exact .inl hu

theorem HalfClosing.of_sidecar {w w' : System} {log : List ℕ} {a : SAct} {c : Choice}
    {push : List SAct} {spawn : List (List BAct)} (hI : HalfClosing w log) (hB : Bounded w)
    (h : sexec w.core a c = some (w'.core, push, spawn)) (hc : w.carries c a = true)
    (hrun : Runs w.tunnel w'.tunnel a push ∧ w'.proxy = w.proxy ∨
      Runs w.proxy w'.proxy a push ∧ w'.tunnel = w.tunnel)
    (hts : w'.threads = w.threads ++ spawn) : HalfClosing w' log := by
  have hs := sexec_does h
  have hf := hs.frame
  have hp : ∀ b ∈ w.pending, b ∈ w'.pending := by
    intro b hb
    rw [System.pending, hts, List.flatten_append]
    exact List.mem_append_left _ hb
  obtain ⟨hstay, hpush⟩ := side_stays hrun
  cases hI with
  | sidecar x hx hxc =>
    rcases hstay x hx with rfl | hx
    · obtain ⟨y, hy, hyc⟩ | ⟨k, hk, m, hm, hmc⟩ := sexec_halfCloses h hxc hc
      · exact .sidecar y (hpush y hy) hyc
      · exact .inFlight k m hm hmc (hp _ hk)
    · exact .sidecar x hx hxc
  | inFlight k m hm hmc hk =>
    refine .inFlight k m ?_ hmc (hp _ hk)
    obtain hup | ⟨m', -, -, -, hup⟩ := hs.up (hB.loop _ hk k rfl)
    · rwa [hup]
    · rw [hup]
      exact List.mem_append_left _ hm
  | read k m hb hmc => exact .read k m (hp _ hb) hmc
  | found o hb ho => exact .found o (hp _ hb) (ho.trans hf.created.symm)
  | applied o ho hu hw =>
    refine .applied o (ho.trans hf.created.symm) ?_ (hw.imp_left (hp _))
    rwa [hf.objs]

theorem Does.upClosed_mono {s : Session} {a : Act} {c : Choice} {r : Result} (h : Does s a c r)
    (hu : s.upClosed = true) : r.s.upClosed = true := by
  cases h <;> first | rfl | exact hu

theorem Does.onSidecarClose {s : Session} {c : Choice} {r : Result}
    (h : Does s (.onSidecarClose dirUp) c r) (hu : s.upstream = true) :
    r.s.upClosed = true ∧ .closeWrite ∈ r.push := by
  cases h with
  | closeOther _ _ hd => exact absurd rfl hd
  | closeUp => exact ⟨rfl, List.mem_cons_self ..⟩
  | closeUpEarly _ hn =>
    rw [hu] at hn
    cases hn

theorem BDoes.objs_applied {cfg : Config} {w w' : Core} {a : BAct} {push : List BAct}
    {spawn : List (List BAct)} (h : BDoes cfg w a w' push spawn) {o : ℕ} (ho : o < w.created)
    (hu : (w.objs o).s.upClosed = true) : (w'.objs o).s.upClosed = true := by
  rcases h.cases_session with ⟨k, target, rfl, hs, rfl, -⟩ | ⟨j, b, c, r, rfl, hr, rfl, -⟩ | hf
  · show (Function.update w.objs w.created _ o).s.upClosed = true
    rwa [Function.update_of_ne ho.ne]
  · rw [Core.objs_objAct]
    by_cases hj : o = j
    · subst hj
      rw [Function.update_self]
      exact Does.upClosed_mono hr hu
    · rwa [Function.update_of_ne hj]
  · rwa [hf.objs]

theorem created_of_applies {cfg : Config} {w : System} {a : BAct} {c : Choice}
    {r : Core × List BAct × List (List BAct)} (h : bexec cfg w.core a c = some r)
    (hc : w.applies cfg c a = true) : r.1.created = w.core.created ∨
      (∀ o < w.core.created, (w.core.objs o).s.upClosed = false) ∧
      ∀ o, .act o (.onSidecarClose dirUp) ∉ w.pending := by
  refine (bexec_created h).imp id ?_
  rintro ⟨k, target, rfl, hallow, hs, -⟩
  simp only [System.applies, hs, hallow, Option.isSome_none, Bool.not_true, Bool.false_or,
    Bool.and_eq_true, List.all_eq_true, List.mem_range, Bool.not_eq_true'] at hc
  exact ⟨hc.1, fun o ho => by simpa using hc.2 _ ho⟩

theorem HalfClosing.of_readFrame {cfg : Config} {w w' : System} {log : List ℕ} {k : ConnId}
    {m : Msg} {c : Choice} {push : List BAct} {spawn : List (List BAct)}
    (hm : m ∈ (w.core.links k).up) (hmc : halfCloses m = true)
    (h : bexec cfg w.core (.readFrame k) c = some (w'.core, push, spawn))
    (hc : w.applies cfg c (.readFrame k) = true) (hpush : ∀ x ∈ push, x ∈ w'.pending) :
    HalfClosing w' log := by
  -- the loop that a CLOSE is in flight to reads on
  have hok : c = .ok := by
    simp only [System.applies, Bool.or_eq_true, decide_eq_true_eq, List.all_eq_true,
      Bool.not_eq_true'] at hc
    refine hc.resolve_right fun hall => ?_
    rw [hall m hm] at hmc
    cases hmc
  subst hok
  simp only [bexec] at h
  split at h
  · cases h
  · rename_i m' up hup
    simp only [Option.some.injEq, Prod.mk.injEq] at h
    obtain ⟨hcore, rfl, -⟩ := h
    have hread : .readFrame k ∈ w'.pending := hpush _ (by simp)
    rw [hup, List.mem_cons] at hm
    rcases hm with rfl | hm
    · exact .read k m (hpush _ (by simp)) hmc
    · refine .inFlight k m ?_ hmc hread
      rw [← hcore]
      simpa [Core.setLink] using hm

theorem HalfClosing.of_broker {cfg : Config} {w w' : System} {log : List ℕ} {i : ℕ} {a : BAct}
    {c : Choice} {X Y push : List BAct} {spawn : List (List BAct)} (hI : HalfClosing w log)
    (hK : Keyed w) (h : bexec cfg w.core a c = some (w'.core, push, spawn))
    (hc : w.applies cfg c a = true) (hn : w.next i = some a) (ht : w'.tunnel = w.tunnel)
    (hproxy : w'.proxy = w.proxy) (hp : w.pending = X ++ a :: Y)
    (hp' : w'.pending = X ++ (push ++ Y) ++ spawn.flatten) :
    HalfClosing w' (log ++ closedWrites w (.broker i c)) := by
  have hb := bexec_does h
  obtain ⟨hstay, hpush⟩ := pending_stays hp hp'
  have hne : ∀ x ∈ w.pending, a ≠ x → x ∈ w'.pending :=
    fun x hx ha => (hstay x hx).resolve_left (Ne.symm ha)
  cases hI with
  | sidecar x hx hxc => exact .sidecar x (by rwa [ht, hproxy]) hxc
  | inFlight k m hm hmc hk =>
    by_cases ha : a = .readFrame k
    · subst ha
      exact .of_readFrame hm hmc h hc hpush
    · refine .inFlight k m ?_ hmc (hne _ hk ha)
      obtain hup | ⟨_, hread, -⟩ := hb.up k
      · rwa [hup]
      · exact absurd hread ha
  | read k m hmem hmc =>
    by_cases ha : a = .handleFrame k m
    · subst ha
      cases m with
      | close sid dir reason =>
        obtain rfl : dir = dirUp := by simpa [halfCloses] using hmc
        rcases w.core.sessions.eq_none_or_eq_some with hs | ⟨o, hs⟩
        · simp [System.applies, hmc, hs] at hc
        · simp only [bexec, hs, handle, Option.some.injEq, Prod.mk.injEq] at h
          obtain ⟨hcore, rfl, -⟩ := h
          refine .found o (hpush _ (by simp)) ?_
          rw [← hcore]
          exact hK.latest o hs
      | _ => cases hmc
    · exact .read k m (hne _ hmem ha) hmc
  | found o hmem ho =>
    by_cases ha : a = .act o (.onSidecarClose dirUp)
    · subst ha
      simp only [bexec, Option.map_eq_some_iff, Prod.mk.injEq] at h
      obtain ⟨r, hr, hcore, rfl, -⟩ := h
      have hu : (w.core.objs o).s.upstream = true := by simpa [System.applies] using hc
      obtain ⟨hclosed, hwrite⟩ := Does.onSidecarClose (exec_does hr) hu
      have hpend : .act o .closeWrite ∈ w'.pending := hpush _ (List.mem_map_of_mem hwrite)
      refine .applied o ?_ ?_ (.inl hpend)
      · rw [← hcore, (w.core.objAct_affects o _ c r).created]
        exact ho
      · rw [← hcore, Core.objs_objAct, Function.update_self]
        exact hclosed
    · obtain hcreated | ⟨-, hnone⟩ := created_of_applies h hc
      · exact .found o (hne _ hmem ha) (ho.trans hcreated.symm)
      · exact absurd hmem (hnone o)
  | applied o ho hu hw =>
    have hlt : o < w.core.created := by omega
    obtain hcreated | ⟨hall, -⟩ := created_of_applies h hc
    · refine .applied o (ho.trans hcreated.symm) (hb.objs_applied hlt hu) ?_
      rcases hw with hw | hw
      · by_cases ha : a = .act o .closeWrite
        · right
          simp [closedWrites, hn, ha]
        · exact .inl (hne _ hw ha)
      · exact .inr (List.mem_append_left _ hw)
    · rw [hall o hlt] at hu
      cases hu

/-- Wherever the sidecar's half is closed, the half-close is on its way or has been applied. -/
structure HalfClosed (w : System) (log : List ℕ) : Prop where
  keyed : Keyed w
  bounded : Bounded w
  closing : w.core.cs.upClosed = true → HalfClosing w log

theorem HalfClosed.of_sidecar {cfg : Config} {w w' : System} {log : List ℕ} {e : Event} {a : SAct}
    {c : Choice} {push : List SAct} {spawn : List (List BAct)} (hI : HalfClosed w log)
    (hstep : step cfg w e = some w') (h : sexec w.core a c = some (w'.core, push, spawn))
    (hc : w.carries c a = true)
    (hrun : Runs w.tunnel w'.tunnel a push ∧ w'.proxy = w.proxy ∨
      Runs w.proxy w'.proxy a push ∧ w'.tunnel = w.tunnel)
    (hts : w'.threads = w.threads ++ spawn) : HalfClosed w' log := by
  refine ⟨hI.keyed.step hstep, hI.bounded.step hstep, fun hu => ?_⟩
  obtain hu | ⟨x, hx, hxc⟩ := (sexec_does h).upClosed hu
  · exact (hI.closing hu).of_sidecar hI.bounded h hc hrun hts
  · exact .sidecar x ((side_stays hrun).2 x hx) hxc

theorem HalfClosed.of_quiet {cfg : Config} {w w' : System} {log : List ℕ} {e : Event}
    (hI : HalfClosed w log) (h : Pair.step cfg w e = some w') (hq : Quiet w w')
    (hup : ∀ k, ∀ m ∈ (w.core.links k).up, halfCloses m = true → m ∈ (w'.core.links k).up) :
    HalfClosed w' (log ++ []) := by
  -- a timer fires, or frames are lost but no CLOSE is
  rw [List.append_nil]
  refine ⟨hI.keyed.step h, hI.bounded.step h, fun hu => ?_⟩
  rw [hq.cs] at hu
  obtain ⟨ws, hpend, -⟩ := hq.pending
  have hp : ∀ b ∈ w.pending, b ∈ w'.pending := by
    intro b hb
    rw [hpend]
    exact List.mem_append_left _ hb
  cases hI.closing hu with
  | sidecar x hx hxc => exact .sidecar x (by rwa [hq.tunnel, hq.proxy]) hxc
  | inFlight k m hm hmc hk => exact .inFlight k m (hup k m hm hmc) hmc (hp _ hk)
  | read k m hb hmc => exact .read k m (hp _ hb) hmc
  | found o hb ho => exact .found o (hp _ hb) (ho.trans hq.created.symm)
  | applied o ho hobj hw =>
    obtain ⟨b, hb⟩ := hq.objs o
    exact .applied o (ho.trans hq.created.symm) (by rw [hb]; exact hobj) (hw.imp_left (hp _))

theorem HalfClosed.step {cfg : Config} {w w' : System} {log : List ℕ} {e : Event}
    (hI : HalfClosed w log) (hc : carried cfg w e = true) (h : Pair.step cfg w e = some w') :
    HalfClosed w' (log ++ closedWrites w e) := by
  cases e with
  | tunnel c =>
    obtain ⟨a, rest, push, spawn, ht, hr, ht', hp, hts⟩ := step_tunnel h
    show HalfClosed w' (log ++ [])
    rw [List.append_nil]
    exact hI.of_sidecar h hr (by simpa [carried, ht] using hc) (.inl ⟨⟨rest, ht, ht'⟩, hp⟩) hts
  | proxy c =>
    obtain ⟨a, rest, push, spawn, hp, hr, hp', ht, hts⟩ := step_proxy h
    show HalfClosed w' (log ++ [])
    rw [List.append_nil]
    exact hI.of_sidecar h hr (by simpa [carried, hp] using hc) (.inr ⟨⟨rest, hp, hp'⟩, ht⟩) hts
  | broker i c =>
    refine ⟨hI.keyed.step h, hI.bounded.step h, fun hu => ?_⟩
    obtain ⟨a, X, Y, push, spawn, hn, hr, hpend, hpend', ht, hp⟩ := step_bexec h
    rw [(bexec_does hr).sidecar_eq.1] at hu
    exact (hI.closing hu).of_broker hI.keyed hr (by simpa [carried, hn] using hc) hn ht hp hpend
      hpend'
  | fire o =>
    refine hI.of_quiet h (step_fire h) fun k m hm _ => ?_
    simp only [Pair.step] at h
    split_ifs at h
    obtain rfl := Option.some.inj h
    exact hm
  | cut k m n =>
    refine hI.of_quiet h (step_cut h) fun j x hx hxc => ?_
    obtain rfl := Option.some.inj h
    by_cases hjk : j = k
    · subst hjk
      rw [← List.take_append_drop m (w.core.links j).up, List.mem_append] at hx
      simp only [Core.setLink, Function.update_self]
      refine hx.resolve_right fun hdrop => ?_
      have hall := List.all_eq_true.mp hc x hdrop
      rw [hxc] at hall
      cases hall
    · simpa [Core.setLink, hjk] using hx

/-- In a run whose steps are all `carried`, at rest: if the sidecar's half is closed, so is the
broker's, and the destination has been half-closed. -/
theorem upClosed_of_carried {cfg : Config} {es : List Event} {w : System} {o : ℕ}
    (hc : Along (step cfg) (fun w e => carried cfg w e = true) (start cfg) es)
    (hrun : run (step cfg) (start cfg) es = some w) (hrest : w.AtRest)
    (hs : w.core.sessions = some o) (hu : w.core.cs.upClosed = true) :
    (w.core.objs o).s.upClosed = true ∧ o ∈ trace (step cfg) closedWrites (start cfg) es := by
  have hI : HalfClosed w (trace (step cfg) closedWrites (start cfg) es) := by
    apply run_trace_invariant (fun w e w' log hI hc h => HalfClosed.step hI hc h) _ hc hrun
    exact ⟨keyed_start cfg, bounded_start cfg, fun hu => by cases hu⟩
  have hwait := hrest.broker
  cases hI.closing hu with
  | sidecar x hx hxc =>
    have hx := hrest.sidecar x hx
    cases x <;> simp_all [SAct.waiting, SAct.halfCloses]
  | inFlight k m hm hmc hk =>
    have hup : (w.core.links k).up = [] := by simpa [BAct.waiting] using hwait _ hk
    rw [hup] at hm
    cases hm
  | read k m hb hmc => simpa [BAct.waiting] using hwait _ hb
  | found o hb ho => simpa [BAct.waiting] using hwait _ hb
  | applied o' ho' hu' hw =>
    have ho := hI.keyed.latest o hs
    obtain rfl : o = o' := by omega
    refine ⟨hu', hw.resolve_left fun hb => ?_⟩
    simpa [BAct.waiting] using hwait _ hb

def agentEOF : List Event :=
  -- the agent's connection ends, up to the send of the CLOSE
  [.proxy (.read [] (some .eof)), .proxy .ok, .proxy .ok, .proxy .ok]

def dialedFirst : List Event :=
  -- the dial is done when the CLOSE is handled
  opening ++ brokerSteps 1 2 ++ agentEOF ++ [.proxy .ok] ++ brokerSteps 0 5

theorem upClosed_dialedFirst : ∃ w, run (step small) (start small) dialedFirst = some w ∧
    w.AtRest ∧ (w.core.objs 0).s.upClosed = true ∧
    0 ∈ trace (step small) closedWrites (start small) dialedFirst := by
  have hrun := (rfl : run (step small) (start small) dialedFirst = some _)
  refine ⟨_, hrun, by decide, ?_⟩
  exact upClosed_of_carried (by decide) hrun (by decide) rfl rfl

def whileDown : List Event := List.flatten
  -- the agent's connection ends while the tunnel is down, and the sidecar reconnects
  [opening, brokerSteps 1 2, [.tunnel (.fail 0 []), .tunnel .ok], agentEOF, tunnelSteps 4,
    brokerSteps 2 8, [.broker 0 (.fail 0 [])], brokerSteps 0 3, tunnelSteps 2]

/-- The CLOSE is dropped while the tunnel is down; or it is handled while the dial is under way. -/
theorem not_upClosed_whileDown :
    (∃ w, run (step small) (start small) whileDown = some w ∧ w.AtRest ∧ w.core.conn = some 1 ∧
      w.core.sessions = some 0 ∧ (w.core.objs 0).s.tconn = some 1 ∧
      (w.core.objs 0).s.connected = true ∧ w.core.cs.upClosed = true ∧
      (w.core.objs 0).s.upClosed = false) ∧
    ∃ w, run (step small) (start small)
        (opening ++ agentEOF ++ [.proxy .ok] ++ brokerSteps 0 4 ++ brokerSteps 1 2) = some w ∧
      w.AtRest ∧ w.core.conn = some 0 ∧ w.core.sessions = some 0 ∧
      (w.core.objs 0).s.tconn = some 0 ∧ (w.core.objs 0).s.connected = true ∧
      w.core.cs.upClosed = true ∧
      trace (step small) closedWrites (start small)
        (opening ++ agentEOF ++ [.proxy .ok] ++ brokerSteps 0 4 ++ brokerSteps 1 2) = [] := by
  refine ⟨⟨_, rfl, by decide, rfl, rfl, rfl, rfl, rfl, rfl⟩, _, rfl, by decide, rfl, rfl, rfl, rfl,
    rfl, ?_⟩
  decide

end SubstratePoc.Pair
