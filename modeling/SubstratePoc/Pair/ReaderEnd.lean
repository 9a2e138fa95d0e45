import SubstratePoc.Pair.Delivery

namespace SubstratePoc.Broker
open Lib Tunnel

/-- Where the goroutine of session `o` can be: it has not dialed before the connection is there,
and the error that ends its loop has been read. -/
def Act.Leads (T : List ℕ) (o : ℕ) (upstream : Bool) : Act → Prop
  | .dial | .dialed => upstream = false
  | .produce _ after => after = .read ∨ (∃ cause, after = .close cause) ∧ o ∈ T
  | _ => True

theorem Act.leads_of_not_reading {T : List ℕ} {o : ℕ} {u : Bool} {a : Act}
    (h : a.reading = false) : a.Leads T o u := by
  cases a <;> trivial

/-- The session whose destination ends with this action. -/
def Act.ends (o : ℕ) : Act → Choice → List ℕ
  | .readUpstream, .read _ (some _) => [o]
  | _, _ => []

/-- The write of the bytes queued before the dial succeeds, or comes after `destroy`. -/
def Act.flushes (s : Session) (c : Choice) : Act → Bool
  | .flush _ => c = .ok || s.dead
  | _ => true

theorem Does.leads {s : Session} {a : Act} {c : Choice} {r : Result} {T : List ℕ} {o : ℕ}
    (h : Does s a c r) (ha : a.Leads T o s.upstream) :
    ∀ b ∈ r.push, b.Leads (T ++ a.ends o c) o r.s.upstream := by
  by_cases hr : a.reading = true
  swap
  · exact fun b hb => Act.leads_of_not_reading (h.reading.2 (by simpa using hr) b hb)
  cases h with
  | dialOk =>
    intro b hb
    rw [List.mem_singleton.mp hb]
    exact ha
  | read p err =>
    intro b hb
    rw [List.mem_singleton.mp hb]
    cases err with
    | none => exact .inl rfl
    | some cause => exact .inr ⟨⟨cause, rfl⟩, List.mem_append_right _ (List.mem_singleton_self _)⟩
  | produceDone after => cases after <;> simp [After.acts, Act.Leads]
  | produceDetached | produceSent | produceLost =>
    intro b hb
    rw [List.mem_singleton.mp hb]
    exact ha.imp id fun h => ⟨h.1, List.mem_append_left _ h.2⟩
  | dialFail | dialedDead | dialedFlush | dialedRead | flushOk | flushFail | flushed | produceDead =>
    simp [Act.Leads]
  | _ => cases hr

theorem Does.reads_on {s : Session} {a : Act} {c : Choice} {r : Result} {T : List ℕ} {o : ℕ}
    (h : Does s a c r) (ha : a.Leads T o s.upstream) (hr : a.reading = true)
    (hf : a.flushes s c = true) (hu : r.s.upstream = true) (hd : r.s.dead = false) :
    (∃ b ∈ r.push, b.reading = true) ∨ o ∈ T := by
  -- the goroutine goes on until it has read the end
  cases h with
  | dialFail =>
    rw [show s.upstream = false from ha] at hu
    cases hu
  | flushFail => simp [Act.flushes, show s.dead = false from hd] at hf
  | dialedDead c hd' | produceDead p after c hp hd' =>
    rw [show s.dead = false from hd] at hd'
    cases hd'
  | produceDone after =>
    obtain rfl | ⟨⟨cause, rfl⟩, ho⟩ := ha
    · exact .inl ⟨_, List.mem_singleton_self _, rfl⟩
    · exact .inr ho
  | flushed n => exact .inl ⟨.readUpstream, by simp, rfl⟩
  | dialOk | dialedFlush | dialedRead | flushOk | read | produceDetached | produceSent
  | produceLost => exact .inl ⟨_, List.mem_singleton_self _, rfl⟩
  | _ => cases hr

theorem Does.upstream_eq {s : Session} {a : Act} {c : Choice} {r : Result} (h : Does s a c r)
    (ha : a ≠ .dialed) : r.s.upstream = s.upstream := by
  cases h <;> first | rfl | exact absurd rfl ha

end SubstratePoc.Broker

namespace SubstratePoc.Pair
open Lib Tunnel Broker Sidecar

/-! ## Nothing is read after the goroutine has ended -/

theorem handle_reading {k : ConnId} {m : Msg} {s : Option ℕ} : ∀ b ∈ handle k m s,
    b.reading = false := by
  cases m <;> cases s <;> simp [handle, BAct.reading, Act.reading]

theorem BDoes.reading {cfg : Config} {w w' : Core} {a : BAct} {push : List BAct}
    {spawn : List (List BAct)} (h : BDoes cfg w a w' push spawn) {b : BAct}
    (hb : b ∈ push ++ spawn.flatten) (hr : b.reading = true) :
    a.reading = true ∧ a.session = b.session ∨
      b = .startDial w.created ∧ w'.created = w.created + 1 := by
  -- the goroutine that reads a destination starts with the session
  have hnone : (∀ x ∈ push ++ spawn.flatten, x.reading = false) → a.reading = true ∧
      a.session = b.session ∨ b = .startDial w.created ∧ w'.created = w.created + 1 := by
    intro hall
    rw [hall b hb] at hr
    cases hr
  cases h with
  | act o x c r hx =>
    rw [List.flatten_nil, List.append_nil] at hb
    obtain ⟨y, hy, rfl⟩ := List.mem_map.mp hb
    refine .inl ⟨?_, rfl⟩
    by_contra hna
    have hy' : y.reading = false := hx.reading.2 (by simpa [BAct.reading] using hna) y hy
    rw [show (BAct.act o y).reading = y.reading from rfl, hy'] at hr
    cases hr
  | openSession k target =>
    simp only [List.flatten_nil, List.append_nil, List.mem_cons, List.not_mem_nil, or_false] at hb
    rcases hb with rfl | rfl
    · cases hr
    · exact .inr ⟨rfl, rfl⟩
  | startDial o =>
    rw [List.mem_singleton.mp hb]
    exact .inl ⟨rfl, rfl⟩
  | handleFrame k m =>
    apply hnone
    rw [List.flatten_nil, List.append_nil]
    exact handle_reading
  | _ => exact hnone (forall_false_of_all rfl)

section Step
variable {cfg : Config} {w w' : System} {e : Event}

theorem reading_step (h : step cfg w e = some w') {b : BAct} (hb : b ∈ w'.pending)
    (hr : b.reading = true) : (∃ a ∈ w.pending, a.reading = true ∧ a.session = b.session) ∨
      b = .startDial w.core.created ∧ w'.core.created = w.core.created + 1 := by
  cases step_moves h with
  | sidecar _ a push spawn hs hrun hp =>
    rw [hp, List.mem_append] at hb
    rcases hb with hb | hb
    · exact .inl ⟨b, hb, hr, rfl⟩
    · obtain ⟨k, rfl, -⟩ := hs.frame.spawn b hb
      cases hr
  | quiet _ hq =>
    obtain ⟨ws, hp, hws⟩ := hq.pending
    rw [hp, List.mem_append] at hb
    rcases hb with hb | hb
    · exact .inl ⟨b, hb, hr, rfl⟩
    · obtain ⟨o, -, rfl⟩ := hws b hb
      cases hr
  | broker i c a X Y push spawn hn hd ht hproxy hp hp' =>
    rcases mem_pending_of_replace hp hp' b hb with hb | hb
    · exact .inl ⟨b, hb, hr, rfl⟩
    · exact (hd.reading hb hr).imp (fun ha => ⟨a, by simp [hp], ha⟩) id

theorem read_step (h : step cfg w e = some w') {o : ℕ} (ho : o < w.core.created) :
    (w'.core.objs o).read = (w.core.objs o).read ∨
      ∃ a ∈ w.pending, a.reading = true ∧ a.session = some o := by
  cases step_moves h with
  | sidecar _ a push spawn hs hrun hp => exact .inl (by rw [hs.frame.objs])
  | quiet _ hq =>
    obtain ⟨b, hb⟩ := hq.objs o
    exact .inl (by rw [hb])
  | broker i c a X Y push spawn hn hd ht hproxy hp hp' =>
    rcases hd.cases_session with ⟨k, target, rfl, hs, hcore, -⟩ |
      ⟨j, b, c, r, rfl, hr, hcore, -⟩ | hf
    · exact .inl (by rw [hcore]; simp [ho.ne])
    · by_cases hj : o = j
      · subst hj
        by_cases hb : b.reading = true
        · exact .inr ⟨.act o b, by simp [hp], hb, rfl⟩
        · left
          have hnil : readBytes b c = [] := by
            cases b with
            | readUpstream => exact absurd rfl hb
            | _ => rfl
          rw [hcore, Core.objs_objAct, Function.update_self, Obj.after, hnil, List.append_nil]
      · exact .inl (by rw [hcore, Core.objs_objAct, Function.update_of_ne hj])
    · exact .inl (by rw [hf.objs])

def ReaderGone (o : ℕ) (w : System) : Prop :=
  o < w.core.created ∧ ∀ b ∈ w.pending, b.session = some o → b.reading = false

theorem ReaderGone.step {o : ℕ} (hI : ReaderGone o w) (h : Pair.step cfg w e = some w') :
    ReaderGone o w' ∧ (w'.core.objs o).read = (w.core.objs o).read := by
  obtain ⟨ho, hgone⟩ := hI
  have hnone : ¬∃ a ∈ w.pending, a.reading = true ∧ a.session = some o := by
    rintro ⟨a, ha, hr, hs⟩
    rw [hgone a ha hs] at hr
    cases hr
  refine ⟨⟨ho.trans_le (objs_step h).1, fun b hb hs => ?_⟩, (read_step h ho).resolve_right hnone⟩
  by_contra hr
  rcases reading_step h hb (by simpa using hr) with ⟨a, ha, har, has⟩ | ⟨rfl, -⟩
  · exact hnone ⟨a, ha, har, has.trans hs⟩
  · exact ho.ne (Option.some.inj hs).symm

theorem ReaderGone.read_run {o : ℕ} {es : List Event} (hI : ReaderGone o w)
    (hrun : run (Pair.step cfg) w es = some w') :
    (w'.core.objs o).read = (w.core.objs o).read := by
  refine (run_preserves (I := fun v => ReaderGone o v ∧ (v.core.objs o).read = (w.core.objs o).read)
    ?_ ⟨hI, rfl⟩ hrun).2
  rintro v e v' ⟨hv, heq⟩ hs
  exact ⟨(hv.step hs).1, (hv.step hs).2.trans heq⟩

end Step

/-! ## The goroutine ends with the stream -/

/-- The session whose destination ends with the step. -/
def ends (w : System) : Event → List ℕ
  | .broker i c => match w.next i with
    | some (.act o a) => a.ends o c
    | _ => []
  | _ => []

/-- What the step writes of the bytes queued before the dial is written. -/
def flushes (w : System) : Event → Bool
  | .broker i c => match w.next i with
    | some (.act o a) => a.flushes (w.core.objs o).s c
    | _ => true
  | _ => true

def BAct.Leads (T : List ℕ) (w : Core) : BAct → Prop
  | .startDial o => (w.objs o).s.upstream = false
  | .act o a => a.Leads T o (w.objs o).s.upstream
  | _ => True

/-- While a session that has its connection is alive, its goroutine reads on or has read the end.
`T` lists the sessions whose destinations have ended. -/
structure ReadsOn (T : List ℕ) (w : System) : Prop where
  leads : ∀ b ∈ w.pending, b.Leads T w.core
  reads : ∀ o < w.core.created, (w.core.objs o).s.upstream = true →
    (w.core.objs o).s.dead = false →
    (∃ b ∈ w.pending, b.reading = true ∧ b.session = some o) ∨ o ∈ T

theorem readsOn_start (cfg : Config) : ReadsOn [] (start cfg) where
  leads b hb := by cases hb
  reads o ho := absurd ho (Nat.not_lt_zero _)

theorem BAct.leads_of_not_reading {T : List ℕ} {w : Core} {b : BAct} (h : b.reading = false) :
    b.Leads T w := by
  cases b with
  | startDial => cases h
  | act o a => exact Act.leads_of_not_reading h
  | _ => trivial

theorem BAct.Leads.mono {T : List ℕ} {w w' : Core} {b : BAct} (h : b.Leads T w) (T' : List ℕ)
    (hu : ∀ o, b.session = some o → (w'.objs o).s.upstream = (w.objs o).s.upstream) :
    b.Leads (T ++ T') w' := by
  cases b with
  | startDial o => exact (hu o rfl).trans h
  | act o a =>
    cases a with
    | dial => exact (hu o rfl).trans h
    | dialed => exact (hu o rfl).trans h
    | produce p after => exact Or.imp id (fun h => ⟨h.1, List.mem_append_left _ h.2⟩) h
    | _ => trivial
  | _ => trivial

theorem BDoes.startDial_new {cfg : Config} {w w' : Core} {o : ℕ} {push : List BAct}
    {spawn : List (List BAct)} (h : BDoes cfg w (.startDial o) w' push spawn) :
    push ++ spawn.flatten = [.act o .dial] := by
  cases h
  rfl

section Step
variable {cfg : Config} {T : List ℕ} {w w' : System} {e : Event}

theorem ReadsOn.of_objs (hI : ReadsOn T w) (T' : List ℕ) (hcreated : w'.core.created = w.core.created)
    (hobjs : ∀ o, ∃ b, w'.core.objs o =
      { w.core.objs o with s := { (w.core.objs o).s with watchdog := b } })
    (hnew : ∀ b ∈ w'.pending, b ∈ w.pending ∨ b.Leads T w.core)
    (hstay : ∀ b ∈ w.pending, b.reading = true →
      ∃ b' ∈ w'.pending, b'.reading = true ∧ b'.session = b.session) :
    ReadsOn (T ++ T') w' := by
  have hu : ∀ o, (w'.core.objs o).s.upstream = (w.core.objs o).s.upstream := by
    intro o
    obtain ⟨b, hb⟩ := hobjs o
    rw [hb]
  have hd : ∀ o, (w'.core.objs o).s.dead = (w.core.objs o).s.dead := by
    intro o
    obtain ⟨b, hb⟩ := hobjs o
    rw [hb]
  refine ⟨fun b hb => ?_, fun o ho hup hdead => ?_⟩
  · exact ((hnew b hb).elim (hI.leads b) id).mono T' fun o _ => hu o
  · rw [hu] at hup
    rw [hd] at hdead
    refine (hI.reads o (hcreated ▸ ho) hup hdead).imp ?_ (List.mem_append_left _)
    rintro ⟨b, hb, hr, hs⟩
    obtain ⟨b', hb', hr', hs'⟩ := hstay b hb hr
    exact ⟨b', hb', hr', hs'.trans hs⟩

theorem ReadsOn.of_frame (hI : ReadsOn T w) {a : BAct} {X Y push : List BAct}
    {spawn : List (List BAct)} (h : BDoes cfg w.core a w'.core push spawn)
    (hf : BDoes.Frame w.core w'.core a (push ++ spawn.flatten)) (hp : w.pending = X ++ a :: Y)
    (hp' : w'.pending = X ++ (push ++ Y) ++ spawn.flatten) (T' : List ℕ) : ReadsOn (T ++ T') w' := by
  have hstart : a.reading = true → ∃ o, a = .startDial o ∧ push ++ spawn.flatten = [.act o .dial] := by
    intro hr
    cases a with
    | startDial o => exact ⟨o, rfl, h.startDial_new⟩
    | act o b => exact absurd rfl (hf.other o b)
    | _ => cases hr
  refine hI.of_objs T' hf.created (fun o => ⟨_, by rw [hf.objs]⟩) (fun b hb => ?_) fun b hb hr => ?_
  · refine (mem_pending_of_replace hp hp' b hb).imp id fun hb => ?_
    by_cases hr : a.reading = true
    · obtain ⟨o, rfl, hnew⟩ := hstart hr
      rw [hnew] at hb
      rw [List.mem_singleton.mp hb]
      exact hI.leads (.startDial o) (by simp [hp])
    · refine BAct.leads_of_not_reading ?_
      by_contra hb'
      rcases h.reading hb (by simpa using hb') with ⟨ha, -⟩ | ⟨-, hc⟩
      · exact hr ha
      · rw [hf.created] at hc
        omega
  · rcases (pending_stays hp hp').1 b hb with rfl | hb
    · obtain ⟨o, rfl, hnew⟩ := hstart hr
      refine ⟨.act o .dial, ?_, rfl, rfl⟩
      have hmem : BAct.act o .dial ∈ push ++ spawn.flatten := by simp [hnew]
      rw [hp']
      simp only [List.mem_append] at hmem ⊢
      tauto
    · exact ⟨b, hb, hr, rfl⟩

theorem ReadsOn.of_openSession (hI : ReadsOn T w) (hK : Keyed w) {k : ConnId} {target : Bytes}
    {X Y : List BAct}
    (hcore : w'.core = { w.core with
      created := w.core.created + 1
      objs := Function.update w.core.objs w.core.created (cfg.newObj target)
      sessions := some w.core.created })
    (hp : w.pending = X ++ .openSession k target :: Y)
    (hp' : w'.pending = X ++ ([.act w.core.created (.bind k), .startDial w.core.created] ++ Y))
    (T' : List ℕ) : ReadsOn (T ++ T') w' := by
  have hobjs : w'.core.objs = Function.update w.core.objs w.core.created (cfg.newObj target) := by
    rw [hcore]
  have hcreated : w'.core.created = w.core.created + 1 := by rw [hcore]
  rw [← List.append_nil (X ++ _)] at hp'
  refine ⟨fun b hb => ?_, fun o ho hu hd => ?_⟩
  · rcases mem_pending_of_replace hp hp' b hb with hb | hb
    · refine (hI.leads b hb).mono T' fun o ho => ?_
      rw [hobjs, Function.update_of_ne (hK.named b hb o ho).ne]
    · simp only [List.append_nil, List.mem_cons, List.not_mem_nil, or_false] at hb
      rcases hb with rfl | rfl
      · trivial
      · show (w'.core.objs w.core.created).s.upstream = false
        rw [hobjs, Function.update_self]
        rfl
  · rw [hobjs] at hu hd
    by_cases hoc : o = w.core.created
    · rw [hoc, Function.update_self] at hu
      cases hu
    · rw [Function.update_of_ne hoc] at hu hd
      refine (hI.reads o (by omega) hu hd).imp ?_ (List.mem_append_left _)
      rintro ⟨b, hb, hr, hs⟩
      rcases (pending_stays hp hp').1 b hb with rfl | hb
      · cases hr
      · exact ⟨b, hb, hr, hs⟩

theorem ReadsOn.leads_act (hI : ReadsOn T w) {o : ℕ} {a : Act} {c : Choice} {r : Result}
    {X Y : List BAct} (hone : (w.pending.filter BAct.reading).length ≤ 1)
    (h : Does (w.core.objs o).s a c r) (hobjs : w'.core.objs =
      Function.update w.core.objs o ((w.core.objs o).after a c r))
    (hp : w.pending = X ++ .act o a :: Y) :
    ∀ b ∈ X ++ (r.push.map (.act o) ++ Y), b.Leads (T ++ a.ends o c) w'.core := by
  -- where the goroutines of the broker are after an action on session `o`
  have hself : (w'.core.objs o).s.upstream = r.s.upstream := by
    rw [hobjs, Function.update_self]
    rfl
  have hold : ∀ b ∈ X ++ Y, b.Leads (T ++ a.ends o c) w'.core := by
    intro b hb
    by_cases had : a = .dialed
    · -- the goroutine that dials is the only one, so nothing else refers to `upstream`
      rw [hp] at hone
      exact BAct.leads_of_not_reading (forall_false_of_once hone (by rw [had]; rfl) b hb)
    · have hmem : b ∈ w.pending := by
        rw [hp]
        simp only [List.mem_append, List.mem_cons] at hb ⊢
        tauto
      refine (hI.leads b hmem).mono _ fun j _ => ?_
      by_cases hj : j = o
      · rw [hj, hself, h.upstream_eq had]
      · rw [hobjs, Function.update_of_ne hj]
  have hnew : ∀ b ∈ r.push.map (BAct.act o), b.Leads (T ++ a.ends o c) w'.core := by
    intro b hb
    obtain ⟨x, hx, rfl⟩ := List.mem_map.mp hb
    show x.Leads (T ++ a.ends o c) o (w'.core.objs o).s.upstream
    rw [hself]
    exact h.leads (hI.leads (.act o a) (by simp [hp])) x hx
  rw [List.forall_mem_append] at hold ⊢
  rw [List.forall_mem_append]
  exact ⟨hold.1, hnew, hold.2⟩

theorem ReadsOn.reads_act (hI : ReadsOn T w) {o : ℕ} {a : Act} {c : Choice} {r : Result}
    {X Y : List BAct} (ho : o < w.core.created) (h : Does (w.core.objs o).s a c r)
    (hf : a.flushes (w.core.objs o).s c = true) (hp : w.pending = X ++ .act o a :: Y)
    (hu : r.s.upstream = true) (hd : r.s.dead = false) :
    (∃ b ∈ X ++ (r.push.map (.act o) ++ Y), b.reading = true ∧ b.session = some o) ∨ o ∈ T := by
  -- the goroutine of session `o` reads on, or has read the end
  have ha : a.Leads T o (w.core.objs o).s.upstream := hI.leads (.act o a) (by simp [hp])
  by_cases hr : a.reading = true
  · refine (h.reads_on ha hr hf hu hd).imp ?_ id
    rintro ⟨b, hb, hbr⟩
    exact ⟨.act o b, by simp [hb], hbr, rfl⟩
  · have hdead : (w.core.objs o).s.dead = false := by
      by_contra hdead
      rw [h.dead_mono (by simpa using hdead)] at hd
      cases hd
    rw [h.upstream_eq fun had => hr (by rw [had]; rfl)] at hu
    refine (hI.reads o ho hu hdead).imp ?_ id
    rintro ⟨b, hb, hbr, hs⟩
    rw [hp, List.mem_append, List.mem_cons] at hb
    rcases hb with hb | rfl | hb
    · exact ⟨b, by simp [hb], hbr, hs⟩
    · exact absurd hbr hr
    · exact ⟨b, by simp [hb], hbr, hs⟩

theorem ReadsOn.of_act (hI : ReadsOn T w) (hK : Keyed w) {o : ℕ} {a : Act} {c : Choice} {r : Result}
    {X Y : List BAct} (hone : (w.pending.filter BAct.reading).length ≤ 1)
    (h : Does (w.core.objs o).s a c r) (hf : a.flushes (w.core.objs o).s c = true)
    (hcore : w'.core = w.core.objAct o a c r) (hp : w.pending = X ++ .act o a :: Y)
    (hp' : w'.pending = X ++ (r.push.map (.act o) ++ Y)) : ReadsOn (T ++ a.ends o c) w' := by
  have hobjs : w'.core.objs = Function.update w.core.objs o ((w.core.objs o).after a c r) := by
    rw [hcore, Core.objs_objAct]
  have hcreated : w'.core.created = w.core.created := by
    rw [hcore]
    exact (w.core.objAct_affects o a c r).created
  have ho := hK.named (.act o a) (by simp [hp]) o rfl
  refine ⟨hp' ▸ hI.leads_act hone h hobjs hp, fun j hj hu hd => ?_⟩
  rw [hobjs] at hu hd
  by_cases hjo : j = o
  · subst hjo
    rw [Function.update_self] at hu hd
    rw [hp']
    exact (hI.reads_act ho h hf hp hu hd).imp id (List.mem_append_left _)
  · rw [Function.update_of_ne hjo] at hu hd
    refine (hI.reads j (hcreated ▸ hj) hu hd).imp ?_ (List.mem_append_left _)
    rintro ⟨b, hb, hr, hs⟩
    rw [← List.append_nil (X ++ _)] at hp'
    rcases (pending_stays hp hp').1 b hb with rfl | hb
    · exact absurd (Option.some.inj hs).symm hjo
    · exact ⟨b, hb, hr, hs⟩

theorem ReadsOn.step (hI : ReadsOn T w) (hK : Keyed w)
    (hone : (w.pending.filter BAct.reading).length ≤ 1) (hf : flushes w e = true)
    (h : Pair.step cfg w e = some w') : ReadsOn (T ++ ends w e) w' := by
  cases step_moves h with
  | sidecar _ a push spawn hs hrun hp =>
    refine hI.of_objs _ hs.frame.created (fun o => ⟨_, by rw [hs.frame.objs]⟩) (fun b hb => ?_)
      fun b hb hr => ⟨b, by rw [hp]; exact List.mem_append_left _ hb, hr, rfl⟩
    rw [hp, List.mem_append] at hb
    refine hb.imp id fun hb => ?_
    obtain ⟨k, rfl, -⟩ := hs.frame.spawn b hb
    trivial
  | quiet _ hq =>
    obtain ⟨ws, hp, hws⟩ := hq.pending
    refine hI.of_objs _ hq.created hq.objs (fun b hb => ?_)
      fun b hb hr => ⟨b, by rw [hp]; exact List.mem_append_left _ hb, hr, rfl⟩
    rw [hp, List.mem_append] at hb
    refine hb.imp id fun hb => ?_
    obtain ⟨o, -, rfl⟩ := hws b hb
    trivial
  | broker i c a X Y push spawn hn hd ht hproxy hp hp' =>
    rcases hd.cases_session with ⟨k, target, rfl, hs, hcore, rfl, rfl⟩ |
      ⟨o, b, -, -, rfl, -⟩ | hframe
    · rw [List.flatten_nil, List.append_nil] at hp'
      exact hI.of_openSession hK hcore hp hp' _
    · obtain ⟨r, X, Y, hr, hcore, hp, hp'⟩ := step_act h hn
      simp only [flushes, hn] at hf
      simp only [ends, hn]
      exact hI.of_act hK hone hr hf hcore hp hp'
    · exact hI.of_frame hd hframe hp hp' _

end Step

end SubstratePoc.Pair
