import SubstratePoc.Broker.Progress
import SubstratePoc.Pair.AgentStream

namespace SubstratePoc.Pair
open Lib Tunnel Broker Sidecar

/-- What an action holds of the agent's bytes for session `o`. -/
def BAct.held (o : ℕ) : BAct → List Act
  | .act j a => if j = o then a.held else []
  | _ => []

/-- The actions of session `o` that are between their decision and their record. -/
def System.hands (w : System) (o : ℕ) : List Act := w.pending.flatMap (BAct.held o)

/-- What session `o` has taken of the agent's stream: written, queued, or in hand. -/
def System.taken (w : System) (o : ℕ) : ℕ :=
  (w.core.objs o).s.upstreamWritten + (w.core.objs o).s.preConn.length +
    ((w.hands o).map Act.carrying).sum

def System.position (w : System) : ℕ := w.core.sessions.elim 0 w.taken

/-! ## When the half-close comes last -/

/-- The frame loop of the connection will have taken all of the agent's bytes when it has taken
what is there now. -/
def System.complete (w : System) (k : ConnId) : Bool := w.threads.all fun t =>
  !t.contains (.readFrame k) ||
    w.core.cs.upBuf.endOffset ≤ spliceAll w.position (line w.core t).reduceOption

/-- The CLOSE is written when all of the agent's bytes have been taken or are ahead of it. -/
def System.sendsLast (w : System) (c : Choice) : SAct → Bool
  | .write k m => !halfCloses m || c ≠ .ok || w.complete k
  | _ => true

/-- DATA finds the session; DATA and CLOSE are taken when no other of the agent's bytes are in
hand; and no write to the destination fails. -/
def System.takesInTurn (w : System) (c : Choice) : BAct → Bool
  | .handleFrame _ (.data _ _ _) => w.core.sessions.isSome
  | .act o (.onData _ _) | .act o (.onSidecarClose _) => w.hands o = []
  | .act o a => a.lossless (w.core.objs o).s c
  | _ => true

def closesLast (w : System) : Event → Bool
  | .tunnel c => w.tunnel.head?.all (w.sendsLast c)
  | .proxy c => w.proxy.head?.all (w.sendsLast c)
  | .broker i c => (w.next i).all (w.takesInTurn c)
  | .fire _ | .cut _ _ _ => true

/-! ## What has been written -/

structure Writing (S : Bytes) (ob : Obj) (as : List Act) : Prop where
  upstream : ob.s.upstream = true → ob.s.connected = true
  progress : Progress S ob.s ob.dest as

theorem Writing.mono {S S' : Bytes} {ob : Obj} {as : List Act} (h : Writing S ob as)
    (hS : S <+: S') : Writing S' ob as := ⟨h.upstream, h.progress.mono hS⟩

theorem writing_newObj (cfg : Config) (S target : Bytes) : Writing S (cfg.newObj target) [] :=
  ⟨by simp [Config.newObj, newSession], .idle (Nat.zero_le _) rfl List.nil_prefix (fun _ => rfl)⟩

theorem BDoes.held {cfg : Config} {w w' : Core} {a : BAct} {push : List BAct}
    {spawn : List (List BAct)} (h : BDoes cfg w a w' push spawn) (ha : ∀ o b, a ≠ .act o b)
    (o : ℕ) : (push ++ spawn.flatten).flatMap (BAct.held o) = [] := by
  cases h with
  | act j b => exact absurd rfl (ha j b)
  | handleFrame k m =>
    cases m <;> cases w.sessions <;> simp [handle, BAct.held, Act.held, Act.carrying]
  | _ => simp [BAct.held, Act.held, Act.carrying]

theorem flatMap_held_act (o : ℕ) (as : List Act) :
    (as.map (BAct.act o)).flatMap (BAct.held o) = as.flatMap Act.held := by
  simp [List.flatMap_map, BAct.held]

theorem flatMap_held_other {o j : ℕ} (h : j ≠ o) (as : List Act) :
    (as.map (BAct.act j)).flatMap (BAct.held o) = [] := by
  simp [List.flatMap_map, BAct.held, h]

section Step
variable {cfg : Config} {S : Bytes} {w w' : System}

theorem hands_of_append {new : List BAct} {o : ℕ} (hp : w'.pending = w.pending ++ new)
    (hnew : new.flatMap (BAct.held o) = []) : w'.hands o = w.hands o := by
  rw [System.hands, hp, List.flatMap_append, hnew, List.append_nil, System.hands]

theorem hands_of_replace {a : BAct} {X Y push new : List BAct} {o : ℕ}
    (hp : w.pending = X ++ a :: Y) (hp' : w'.pending = X ++ (push ++ Y) ++ new)
    (ha : a.held o = []) (hpush : (push ++ new).flatMap (BAct.held o) = []) :
    w'.hands o = w.hands o := by
  rw [List.flatMap_append, List.append_eq_nil_iff] at hpush
  simp only [System.hands, hp, hp', List.flatMap_append, List.flatMap_cons, ha, hpush.1, hpush.2,
    List.append_nil, List.nil_append]

theorem held_eq_nil_of_ne {a : BAct} (ha : ∀ o b, a ≠ .act o b) (o : ℕ) : a.held o = [] := by
  cases a with
  | act j b => exact absurd rfl (ha j b)
  | _ => rfl

/-- What one step does to the sessions and to what their goroutines hold. -/
inductive Deals (cfg : Config) (w w' : System) (e : Event) : Prop
  | same (hcreated : w'.core.created = w.core.created) (hsessions : w'.core.sessions = w.core.sessions)
    (hobjs : ∀ o, ∃ b, w'.core.objs o =
      { w.core.objs o with s := { (w.core.objs o).s with watchdog := b } })
    (hhands : ∀ o, w'.hands o = w.hands o)
    (hact : ∀ i c, e = .broker i c → ∀ o a, w.next i ≠ some (.act o a))
  | opened (i : ℕ) (c : Choice) (he : e = .broker i c) (k : ConnId) (target : Bytes)
    (hn : w.next i = some (.openSession k target)) (hs : w.core.sessions = none)
    (hcreated : w'.core.created = w.core.created + 1)
    (hobjs : w'.core.objs = Function.update w.core.objs w.core.created (cfg.newObj target))
    (hhands : ∀ o, w'.hands o = w.hands o)
  | acted (i : ℕ) (c : Choice) (he : e = .broker i c) (o : ℕ) (a : Act) (r : Result)
    (A B : List Act) (hn : w.next i = some (.act o a)) (hr : Does (w.core.objs o).s a c r)
    (hcore : w'.core = w.core.objAct o a c r) (hhands : w.hands o = A ++ (a.held ++ B))
    (hhands' : w'.hands o = A ++ (r.push.flatMap Act.held ++ B))
    (hother : ∀ j, j ≠ o → w'.hands j = w.hands j)

theorem deals_of_quiet {e : Event} (h : Quiet w w') (he : ∀ i c, e ≠ .broker i c) :
    Deals cfg w w' e := by
  refine .same h.created h.sessions h.objs (fun o => ?_) fun i c hb => absurd hb (he i c)
  obtain ⟨ws, hp, hws⟩ := h.pending
  refine hands_of_append hp ?_
  rw [List.flatMap_eq_nil_iff]
  intro b hb
  obtain ⟨j, -, rfl⟩ := hws b hb
  simp [BAct.held, Act.held, Act.carrying]

theorem deals_of_sidecar {e : Event} {a : SAct} {push : List SAct} {spawn : List (List BAct)}
    (h : SDoes w.core a w'.core push spawn) (hts : w'.threads = w.threads ++ spawn)
    (he : ∀ i c, e ≠ .broker i c) : Deals cfg w w' e := by
  have hf := h.frame
  refine .same hf.created hf.sessions (fun o => ⟨_, by rw [hf.objs]⟩) (fun o => ?_)
    fun i c hb => absurd hb (he i c)
  refine hands_of_append (by rw [System.pending, hts, List.flatten_append]; rfl) ?_
  rw [List.flatMap_eq_nil_iff]
  intro b hb
  obtain ⟨k, rfl, -⟩ := hf.spawn b hb
  rfl

theorem step_deals {e : Event} (h : step cfg w e = some w') : Deals cfg w w' e := by
  cases e with
  | tunnel c =>
    obtain ⟨a, rest, push, spawn, -, hr, -, -, hts⟩ := step_tunnel h
    exact deals_of_sidecar (sexec_does hr) hts (by simp)
  | proxy c =>
    obtain ⟨a, rest, push, spawn, -, hr, -, -, hts⟩ := step_proxy h
    exact deals_of_sidecar (sexec_does hr) hts (by simp)
  | fire o => exact deals_of_quiet (step_fire h) (by simp)
  | cut k m n => exact deals_of_quiet (step_cut h) (by simp)
  | broker i c =>
    obtain ⟨a, X, Y, push, spawn, hn, hr, hp, hp', -, -⟩ := step_bexec h
    by_cases hact : ∃ o b, a = .act o b
    · obtain ⟨o, b, rfl⟩ := hact
      obtain ⟨r, X, Y, hd, hcore, hp, hp'⟩ := step_act h hn
      rw [← List.append_nil (X ++ _)] at hp'
      refine .acted i c rfl o b r (X.flatMap (BAct.held o)) (Y.flatMap (BAct.held o)) hn hd
        hcore ?_ ?_ ?_
      · rw [System.hands, hp, List.flatMap_append, List.flatMap_cons, BAct.held, if_pos rfl]
      · rw [System.hands, hp', List.append_nil, List.flatMap_append, List.flatMap_append,
          flatMap_held_act]
      · exact fun j hj => hands_of_replace hp hp' (by rw [BAct.held, if_neg hj.symm])
          (by rw [List.append_nil, flatMap_held_other hj.symm])
    · push Not at hact
      have hb := bexec_does hr
      have hhands : ∀ o, w'.hands o = w.hands o := fun o =>
        hands_of_replace hp hp' (held_eq_nil_of_ne hact o) (hb.held hact o)
      rcases hb.cases_session with ⟨k, target, rfl, hs, hcore, -⟩ | ⟨o, b, -, -, rfl, -⟩ | hf
      · exact .opened i c rfl k target hn hs (congrArg Core.created hcore)
          (congrArg Core.objs hcore) hhands
      · exact absurd rfl (hact o b)
      · refine .same hf.created hf.sessions (fun o => ⟨_, by rw [hf.objs]⟩) hhands ?_
        intro j c' he o b hb'
        cases he
        rw [hn] at hb'
        exact hact o b (Option.some.inj hb')

def Written (S : Bytes) (w : System) : Prop :=
  ∀ o < w.core.created, Writing S (w.core.objs o) (w.hands o)

theorem Streamed.agrees_of_next (hS : Streamed S w) {i o offset : ℕ} {p : Bytes}
    (hn : w.next i = some (.act o (.onData offset p))) : Agrees S offset p := by
  obtain ⟨t, ht, hhead⟩ := Option.bind_eq_some_iff.mp hn
  have hmem : some (offset, p) ∈ line w.core t :=
    List.mem_flatMap.mpr ⟨_, List.mem_of_mem_head? hhead, List.mem_singleton_self _⟩
  exact hS.lines t (List.mem_of_getElem? ht) _ hmem

theorem Keyed.hands_created (hK : Keyed w) : w.hands w.core.created = [] := by
  rw [System.hands, List.flatMap_eq_nil_iff]
  intro b hb
  cases b with
  | act j a =>
    rw [BAct.held, if_neg (hK.named _ hb j rfl).ne]
  | _ => rfl

theorem Written.step {e : Event} (hI : Written S w) (hK : Keyed w) (hS : Streamed S w)
    (hc : closesLast w e = true) (h : Pair.step cfg w e = some w') : Written S w' := by
  intro o ho
  cases step_deals h with
  | same hcreated hsessions hobjs hhands hact =>
    obtain ⟨b, hb⟩ := hobjs o
    have hw := hI o (hcreated ▸ ho)
    rw [hb, hhands]
    exact ⟨hw.upstream, hw.progress.congr rfl rfl rfl⟩
  | opened i c he k target hn hs hcreated hobjs hhands =>
    rw [hobjs, hhands]
    rw [hcreated] at ho
    by_cases hoc : o = w.core.created
    · rw [hoc, hK.hands_created, Function.update_self]
      exact writing_newObj cfg S target
    · rw [Function.update_of_ne hoc]
      exact hI o (Nat.lt_of_le_of_ne (Nat.le_of_lt_succ ho) hoc)
  | acted i c he j a r A B hn hr hcore hhands hhands' hother =>
    subst he
    have hcreated := (w.core.objAct_affects j a c r).created
    rw [← hcore] at hcreated
    have hw := hI o (hcreated ▸ ho)
    rw [hcore, Core.objs_objAct]
    by_cases hoj : o = j
    · subst hoj
      rw [Function.update_self, hhands']
      rw [hhands] at hw
      have hturn : w.takesInTurn c (.act o a) = true := by
        simpa [closesLast, hn] using hc
      refine ⟨hr.connected_of_upstream hw.upstream, hr.progress hw.progress ?_ ?_⟩
      · rintro offset p rfl
        refine ⟨hS.agrees_of_next hn, .inl ?_⟩
        rw [← List.nil_append B]
        exact hhands.symm.trans (of_decide_eq_true hturn)
      · rintro p n text ha rfl
        have hloss : a.lossless (w.core.objs o).s (.fail n text) = true := by
          rcases ha with rfl | rfl <;> exact hturn
        exact .inl (Act.dead_of_lossless hloss ha)
    · rw [Function.update_of_ne hoj, hother o hoj]
      exact hw

/-! ## What has been taken -/

theorem taken_of_hands {o : ℕ} {as A B : List Act} (h : w.hands o = A ++ (as.flatMap Act.held ++ B)) :
    w.taken o = (w.core.objs o).s.upstreamWritten + (w.core.objs o).s.preConn.length +
      (as.map Act.carrying).sum + ((A ++ B).map Act.carrying).sum := by
  simp only [System.taken, h, List.map_append, List.sum_append, sum_held]
  omega

theorem taken_step {o : ℕ} {a : Act} {c : Choice} {r : Result} {A B : List Act}
    (hr : Does (w.core.objs o).s a c r) (hd : (w.core.objs o).s.dead = false)
    (hW : Writing S (w.core.objs o) (w.hands o)) (ht : w.takesInTurn c (.act o a) = true)
    (hcore : w'.core = w.core.objAct o a c r) (hhands : w.hands o = A ++ (a.held ++ B))
    (hhands' : w'.hands o = A ++ (r.push.flatMap Act.held ++ B)) :
    w'.taken o = spliceAll (w.taken o) a.items.reduceOption := by
  have hs : (w'.core.objs o).s = r.s := by
    rw [hcore, Core.objs_objAct, Function.update_self]
    rfl
  rw [taken_of_hands hhands', hs]
  by_cases ha : ∃ offset p, a = .onData offset p
  · obtain ⟨offset, p, rfl⟩ := ha
    have hnil : w.hands o = [] := of_decide_eq_true ht
    have hAB : A ++ B = [] := hhands.symm.trans hnil
    rw [hr.taken_onData hd hW.progress.preConn_eq_nil, hAB, System.taken, hnil]
    rfl
  · push Not at ha
    have hloss : a.lossless (w.core.objs o).s c = true := by
      cases a <;> first | rfl | exact ht
    have hsole : w.hands o = A ++ ([a].flatMap Act.held ++ B) := by simpa using hhands
    have hitems : a.items.reduceOption = [] := by
      cases a with
      | onData offset p => exact absurd rfl (ha offset p)
      | onSidecarClose dir =>
        simp only [Act.items]
        split_ifs <;> rfl
      | _ => rfl
    rw [hr.taken_eq ha hloss hd, hitems, taken_of_hands hsole]
    simp [spliceAll]

theorem Does.eq_removeSession {s : Session} {a : Act} {c : Choice} {r : Result} (h : Does s a c r)
    (hm : .removeSession ∈ r.eff) : a = .removeSession := by
  cases h with
  | removeSession => rfl
  | produceDone after => cases after <;> simp at hm
  | _ => simp at hm

theorem position_step {e : Event} (hK : Keyed w) (hW : Written S w) (hw : w.Alive)
    (hc : closesLast w e = true) (h : step cfg w e = some w') :
    w.position ≤ w'.position ∧
      ∀ s, w.takes (some s) e → splice w.position s.1 s.2 ≤ w'.position := by
  cases step_deals h with
  | same hcreated hsessions hobjs hhands hact =>
    have htaken : w'.taken = w.taken := by
      funext o
      obtain ⟨b, hb⟩ := hobjs o
      rw [System.taken, hb, hhands]
      rfl
    refine ⟨by rw [System.position, System.position, hsessions, htaken], fun s hs => ?_⟩
    cases e with
    | broker i c =>
      obtain ⟨o, a, hn, -⟩ | ⟨k, m, hn, hm, hnone⟩ := hs
      · exact absurd hn (hact i c rfl o a)
      · cases m with
        | data sid offset p => simp [closesLast, hn, System.takesInTurn, hnone] at hc
        | close sid dir reason =>
          simp only [item] at hm
          split_ifs at hm
          simp at hm
        | _ => cases hm
    | _ => cases hs
  | opened i c he k target hn hs hcreated hobjs hhands =>
    have hpos : w.position = 0 := by
      rw [System.position, hs]
      rfl
    rw [hpos]
    refine ⟨Nat.zero_le _, fun s ht => ?_⟩
    subst he
    obtain ⟨o, a, hn', -⟩ | ⟨k, m, hn', -⟩ := ht <;> simp [hn] at hn'
  | acted i c he o a r A B hn hr hcore hhands hhands' hother =>
    subst he
    have hmem := System.mem_pending_of_next hn
    have ho := hK.named _ hmem o rfl
    have hd := hw o ho
    obtain ⟨hs, -⟩ := hK.of_alive ho hd
    have hstays : .removeSession ∉ r.eff := by
      intro hrem
      obtain rfl := Does.eq_removeSession hr hrem
      rw [(hK.removing o hmem).2] at hd
      cases hd
    have hs' : w'.core.sessions = some o := by
      rw [hcore, (w.core.objAct_affects o a c r).sessions, if_neg hstays]
      exact hs
    have hpos : w'.position = spliceAll w.position a.items.reduceOption := by
      rw [System.position, System.position, hs, hs']
      exact taken_step hr hd (hW o ho) (by simpa [closesLast, hn] using hc) hcore hhands hhands'
    rw [hpos]
    refine ⟨le_spliceAll _ _, fun s ht => ?_⟩
    obtain ⟨j, b, hn', hb⟩ | ⟨k, m, hn', -⟩ := ht <;> rw [hn] at hn' <;> cases hn'
    rw [hb]
    rfl

/-! ## Half-closes come last -/

/-- Whoever half-closes the destination has the whole stream there, and every CLOSE on its way
comes when the whole stream has been taken. -/
structure Closing (S : Bytes) (w : System) : Prop where
  closes : ∀ o, .act o .closeWrite ∈ w.pending → (w.core.objs o).dest = S
  marked : ∀ t ∈ w.threads, Marked S.length w.position (line w.core t)

theorem sendsLast_of_writes {k : ConnId} {m : Msg} {e : Event} (hc : closesLast w e = true)
    (h : w.writes k m e) (hm : halfCloses m = true) : w.complete k = true := by
  cases e with
  | tunnel c =>
    obtain ⟨hhead, rfl⟩ := h
    simpa [closesLast, hhead, System.sendsLast, hm] using hc
  | proxy c =>
    obtain ⟨hhead, rfl⟩ := h
    simpa [closesLast, hhead, System.sendsLast, hm] using hc
  | _ => cases h

/-- A CLOSE is written behind all of the stream. -/
theorem marked_item {k : ConnId} {m : Msg} {e : Event} (hS : Streamed S w)
    (hc : closesLast w e = true) (h : w.writes k m e) {t : List BAct} (ht : t ∈ w.threads)
    (hk : .readFrame k ∈ t) :
    Marked S.length (spliceAll w.position (line w.core t).reduceOption) (item dirUp m) := by
  cases m with
  | close sid dir reason =>
    simp only [item]
    split_ifs with hd
    · have hall := sendsLast_of_writes hc h (by simp [halfCloses, hd])
      have hend := List.all_eq_true.mp hall t ht
      simp only [List.contains_iff_mem.mpr hk, Bool.not_true, Bool.false_or, decide_eq_true_eq,
        hS.retains.endOffset_eq] at hend
      exact ⟨hend, trivial⟩
    · trivial
  | _ => trivial

theorem Closing.marked_step {e : Event} (hI : Closing S w) (hS : Streamed S w)
    (hc : closesLast w e = true)
    (hpos : w.position ≤ w'.position ∧
      ∀ s, w.takes (some s) e → splice w.position s.1 s.2 ≤ w'.position)
    {l : List (Option (ℕ × Bytes))} (h : Advance w e l) : Marked S.length w'.position l := by
  cases h with
  | empty h =>
    rw [h]
    trivial
  | kept t ht h => exact ((hI.marked t ht).of_isPrefix h).mono hpos.1
  | written t ht k hk m he h =>
    rw [h]
    exact (marked_append.mpr ⟨hI.marked t ht, marked_item hS hc he ht hk⟩).mono hpos.1
  | taken t ht x he h =>
    have hm := hI.marked t ht
    rw [h] at hm
    cases x with
    | none => exact hm.2.mono hpos.1
    | some s =>
      rw [Marked] at hm
      exact hm.mono (hpos.2 s he)

/-- The handler of a CLOSE that half-closes the destination has the whole stream there. -/
theorem Closing.dest_eq_of_next {i o : ℕ} {c : Choice} (hI : Closing S w) (hK : Keyed w)
    (hW : Written S w) (hw : w.Alive) (hc : closesLast w (.broker i c) = true)
    (hn : w.next i = some (.act o (.onSidecarClose dirUp)))
    (hu : (w.core.objs o).s.upstream = true) : (w.core.objs o).dest = S := by
  have ho := hK.named _ (System.mem_pending_of_next hn) o rfl
  have hturn : w.takesInTurn c (.act o (.onSidecarClose dirUp)) = true := by
    simpa [closesLast, hn] using hc
  have hnil : w.hands o = [] := of_decide_eq_true hturn
  have hwr := hW o ho
  rw [hnil] at hwr
  obtain ⟨-, hdest, -, hpre⟩ := hwr.progress.of_idle
  obtain ⟨t, ht, l, hl⟩ := System.line_of_next hn
  have hm := hI.marked t ht
  rw [hl] at hm
  have hle := hm.1
  rw [System.position, (hK.of_alive ho (hw o ho)).1, Option.elim_some, System.taken, hnil,
    hpre (hwr.upstream hu)] at hle
  rw [hdest, List.take_of_length_le]
  simpa using hle

theorem Closing.step {e : Event} (hI : Closing S w) (hK : Keyed w) (hS : Streamed S w)
    (hW : Written S w) (hw : w.Alive) (hc : closesLast w e = true)
    (h : Pair.step cfg w e = some w') : Closing (S ++ produced w e) w' where
  closes o ho := by
    have hnil := hS.produced_eq_nil (hS.upClosed_of_closeWrite h ho) e
    rw [hnil, List.append_nil]
    have hold : o < w.core.created ∧ (w.core.objs o).dest = S := by
      obtain ho | ⟨i, c, rfl, hn, hu⟩ := closeWrite_step h ho
      · exact ⟨hK.named _ ho o rfl, hI.closes o ho⟩
      · exact ⟨hK.named _ (System.mem_pending_of_next hn) o rfl,
          hI.dest_eq_of_next hK hW hw hc hn hu⟩
    -- nothing the destination has is lost, and it has no more than the stream
    obtain ⟨hle, hobjs⟩ := objs_step h
    have hgrows : (w.core.objs o).dest <+: (w'.core.objs o).dest := by
      obtain ⟨-, heq⟩ | ⟨a, c, r, -, heq⟩ := hobjs o hold.1
      · rw [heq]
      · rw [heq]
        exact List.prefix_append _ _
    rw [hold.2] at hgrows
    have hbound := (hW.step hK hS hc h o (hold.1.trans_le hle)).progress.isPrefix
    exact hbound.eq_of_length_le hgrows.length_le
  marked t ht := by
    have hadv := hS.loops.advance h ht
    by_cases hu : w.core.cs.upClosed = true
    · rw [hS.produced_eq_nil hu e, List.append_nil]
      exact hI.marked_step hS hc (position_step hK hW hw hc h) hadv
    · exact marked_of_notMem fun hm => hu (hS.of_advance hadv none hm)

end Step

/-- Nothing is missing at the destination when it is half-closed. -/
theorem dest_eq_of_closesLast {cfg : Config} {es : List Event} {w : System} {i o : ℕ}
    (hes : Along (step cfg) (fun w e => w.Alive ∧ closesLast w e = true) (start cfg) es)
    (hrun : run (step cfg) (start cfg) es = some w)
    (hn : w.next i = some (.act o .closeWrite)) :
    (w.core.objs o).dest = trace (step cfg) produced (start cfg) es := by
  have hI : Keyed w ∧ Streamed (trace (step cfg) produced (start cfg) es) w ∧
      Written (trace (step cfg) produced (start cfg) es) w ∧
      Closing (trace (step cfg) produced (start cfg) es) w := by
    refine run_trace_invariant (I := fun w S => Keyed w ∧ Streamed S w ∧ Written S w ∧
      Closing S w) ?_ ?_ hes hrun
    · rintro w e w' S ⟨hK, hS, hW, hC⟩ ⟨hw, hc⟩ h
      refine ⟨hK.step h, hS.step h, fun o ho => ?_, hC.step hK hS hW hw hc h⟩
      exact (hW.step hK hS hc h o ho).mono (List.prefix_append _ _)
    · refine ⟨keyed_start cfg, streamed_start cfg, fun o ho => ?_, ⟨fun o ho => ?_, fun t ht => ?_⟩⟩
      · cases ho
      · cases ho
      · cases ht
  exact hI.2.2.2.closes o (System.mem_pending_of_next hn)

def lostWithConnection : List Event := List.flatten
  -- the agent sends two bytes and ends its stream. The DATA frame is lost with its connection,
  -- and the sidecar dials again
  [opening, brokerSteps 1 2, .proxy (.read [1, 2] (some .eof)) :: List.replicate 3 (.proxy .ok),
    [.cut 0 0 0, .tunnel (.fail 0 [])], tunnelSteps 5]

def lastClose : List Event :=
  -- `closeUp` and the CLOSE that it sends
  List.replicate 4 (.proxy .ok)

def closedAfterReplay : List Event := List.flatten
  -- the CLOSE is sent when the replay has been
  [lostWithConnection, brokerSteps 2 8, tunnelSteps 4, lastClose, brokerSteps 2 10]

theorem dest_eq_closedAfterReplay :
    ∃ w, run (step small) (start small) closedAfterReplay = some w ∧
      w.next 2 = some (.act 0 .closeWrite) ∧ (w.core.objs 0).dest = [1, 2] := by
  have hrun := (rfl : run (step small) (start small) closedAfterReplay = some _)
  have hes : Along (step small) (fun w e => w.Alive ∧ closesLast w e = true) (start small)
      closedAfterReplay := by decide
  exact ⟨_, hrun, rfl, (dest_eq_of_closesLast (i := 2) (o := 0) hes hrun rfl).trans (by decide)⟩

def closedBeforeReplay : List Event := List.flatten
  -- `closeUp` runs between the dial and the answer to ATTACH: the CLOSE is ahead of the replay
  [lostWithConnection, lastClose, brokerSteps 2 11]

theorem dest_ne_closedBeforeReplay :
    ∃ w, run (step small) (start small) closedBeforeReplay = some w ∧
      w.next 2 = some (.act 0 .closeWrite) ∧ (w.core.objs 0).dest = [] ∧
      trace (step small) produced (start small) closedBeforeReplay = [1, 2] :=
  ⟨_, rfl, rfl, rfl, by decide⟩

end SubstratePoc.Pair
