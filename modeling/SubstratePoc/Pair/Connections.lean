import SubstratePoc.Pair.Sessions

namespace SubstratePoc.Pair
open Lib Tunnel Broker Sidecar

/-! ## Frames to the broker -/

theorem Core.links_setLink {β : Type*} {f : Link → β} {w : Core} {k : ConnId} {l : Link}
    (h : f l = f (w.links k)) (j : ConnId) : f ((w.setLink k l).links j) = f (w.links j) := by
  by_cases hj : j = k
  · subst hj
    simpa [setLink] using h
  · simp [setLink, hj]

theorem Core.links_effect {β : Type*} {f : Link → β}
    (hf : ∀ l m r, f { l with down := m, registered := r } = f l) (o : ℕ) (w : Core) (e : Effect)
    (j : ConnId) : f ((w.effect o e).links j) = f (w.links j) := by
  cases e with
  | frame tc m =>
    simp only [Core.effect, Core.toSidecar]
    split_ifs
    · rfl
    · exact links_setLink (hf (w.links tc) _ _) j
  | register tc => exact links_setLink (hf (w.links tc) _ _) j
  | _ => rfl

theorem Core.links_objAct {β : Type*} {f : Link → β}
    (hf : ∀ l m r, f { l with down := m, registered := r } = f l) (w : Core) (o : ℕ) (a : Act)
    (c : Choice) (r : Result) (j : ConnId) : f ((w.objAct o a c r).links j) = f (w.links j) := by
  have hfold : ∀ (eff : List Effect) (v : Core),
      f ((eff.foldl (Core.effect o) v).links j) = f (v.links j) := by
    intro eff
    induction eff with
    | nil => exact fun _ => rfl
    | cons e eff ih =>
      intro v
      rw [List.foldl_cons, ih, links_effect hf]
  exact hfold _ _

theorem SDoes.up {w w' : Core} {a : SAct} {push : List SAct} {spawn : List (List BAct)}
    (h : SDoes w a w' push spawn) {k : ConnId} (hk : k < w.conns) :
    (w'.links k).up = (w.links k).up ∨ ∃ m, a = .write k m ∧ push = [] ∧
      (w.links k).closed = false ∧ (w'.links k).up = (w.links k).up ++ [m] := by
  cases h with
  | connect => exact .inl (by simp [Core.setLink, hk.ne])
  | readFrame j m down hd => exact .inl (Core.links_setLink (f := Link.up) (by rfl) k)
  | closeConn j => exact .inl (Core.links_setLink (f := Link.up) (by rfl) k)
  | writeOk j m =>
    unfold Core.toBroker
    split_ifs with hc
    · exact .inl rfl
    · by_cases hj : k = j
      · subst hj
        exact .inr ⟨m, rfl, rfl, by simpa using hc, by simp [Core.setLink]⟩
      · exact .inl (by simp [Core.setLink, hj])
  | _ => exact .inl rfl

theorem BDoes.up {cfg : Config} {w w' : Core} {a : BAct} {push : List BAct}
    {spawn : List (List BAct)} (h : BDoes cfg w a w' push spawn) (k : ConnId) :
    (w'.links k).up = (w.links k).up ∨ ∃ m, a = .readFrame k ∧
      (w.links k).up = m :: (w'.links k).up ∧ push = [.handleFrame k m, .readFrame k] := by
  cases h with
  | readFrame j m up hu =>
    by_cases hj : k = j
    · subst hj
      exact .inr ⟨m, rfl, by simp [Core.setLink, hu], rfl⟩
    · exact .inl (by simp [Core.setLink, hj])
  | act o b c r hr => exact .inl (w.links_objAct (f := Link.up) (fun _ _ _ => rfl) o b c r k)
  | replyOk j m =>
    left
    unfold Core.toSidecar
    split_ifs
    · rfl
    · exact Core.links_setLink (f := Link.up) (by rfl) k
  | detachAll j o ho => exact .inl (Core.links_setLink (f := Link.up) (by rfl) k)
  | closeConn j => exact .inl (Core.links_setLink (f := Link.up) (by rfl) k)
  | _ => exact .inl rfl

theorem Core.closed_setLink {w : Core} {k j : ConnId} {l : Link}
    (h : (w.links k).closed = true → l.closed = true) (hc : (w.links j).closed = true) :
    ((w.setLink k l).links j).closed = true := by
  by_cases hj : j = k
  · subst hj
    simpa [setLink] using h hc
  · simpa [setLink, hj] using hc

theorem SDoes.closed {w w' : Core} {a : SAct} {push : List SAct} {spawn : List (List BAct)}
    (h : SDoes w a w' push spawn) {k : ConnId} (hk : k < w.conns)
    (hc : (w.links k).closed = true) : (w'.links k).closed = true := by
  cases h with
  | connect => simpa [Core.setLink, hk.ne] using hc
  | readFrame j m down hd => exact Core.closed_setLink id hc
  | closeConn j => exact Core.closed_setLink (fun _ => rfl) hc
  | writeOk j m =>
    unfold Core.toBroker
    split_ifs
    · exact hc
    · exact Core.closed_setLink id hc
  | _ => exact hc

theorem BDoes.closed {cfg : Config} {w w' : Core} {a : BAct} {push : List BAct}
    {spawn : List (List BAct)} (h : BDoes cfg w a w' push spawn) {k : ConnId}
    (hc : (w.links k).closed = true) : (w'.links k).closed = true := by
  cases h with
  | readFrame j m up hu => exact Core.closed_setLink id hc
  | act o b c r hr => rwa [w.links_objAct (f := Link.closed) (fun _ _ _ => rfl) o b c r k]
  | replyOk j m =>
    unfold Core.toSidecar
    split_ifs
    · exact hc
    · exact Core.closed_setLink id hc
  | detachAll j o ho => exact Core.closed_setLink id hc
  | closeConn j => exact Core.closed_setLink (fun _ => rfl) hc
  | _ => exact hc

/-! ## The goroutine that keeps the tunnel up -/

/-- The actions by which `Client.Run` goes from one connection to the next. -/
def SAct.steers : SAct → Bool
  | .connect | .attachFrame _ | .readFrame _ | .disconnect _ | .closeConn _ => true
  | _ => false

theorem dispatch_steers (m : Msg) : ∀ b ∈ dispatch m, b.steers = false := by
  cases m <;> exact forall_false_of_all rfl

theorem SDoes.steers {w w' : Core} {a : SAct} {push : List SAct} {spawn : List (List BAct)}
    (h : SDoes w a w' push spawn) (ha : a.steers = false) :
    w'.conns = w.conns ∧ w'.conn = w.conn ∧ spawn = [] ∧ ∀ b ∈ push, b.steers = false := by
  cases h with
  | connect | connectFail | attachFrame | readFrame | readFail | disconnect | closeConn => cases ha
  | onAttachOK offset => exact ⟨rfl, rfl, rfl, by simp [SAct.steers]⟩
  | writeOk k m =>
    rw [Core.toBroker_eq]
    exact ⟨rfl, rfl, rfl, by simp⟩
  | writeUpDone err => cases err <;> exact ⟨rfl, rfl, rfl, forall_false_of_all rfl⟩
  | writeUpDead p err push hp =>
    refine ⟨rfl, rfl, rfl, fun b hb => ?_⟩
    obtain ⟨reason, rfl⟩ := hp b hb
    rfl
  | _ => exact ⟨rfl, rfl, rfl, forall_false_of_all rfl⟩

/-- Where `Client.Run` is: it dials with all connections closed, it closes the newest one, or it
works on the newest one. -/
inductive Steering (w : Core) : List SAct → Prop
  | dialing (h : ∀ j < w.conns, (w.links j).closed = true) : Steering w [.connect]
  | closing (k : ConnId) (hk : w.conns = k + 1) : Steering w [.closeConn k, .connect]
  | lost (k : ConnId) (hk : w.conns = k + 1) : Steering w [.disconnect k]
  | reading (k : ConnId) (t : List SAct) (hk : w.conns = k + 1)
    (ht : ∀ a ∈ t, a.steers = false ∨ a = .attachFrame k) : Steering w (t ++ [.readFrame k])

/-- The sidecar works on its newest connection, and all others are closed. -/
structure Newest (w : Core) (tunnel : List SAct) : Prop where
  tunnel : Steering w tunnel
  conn : ∀ k, w.conn = some k → w.conns = k + 1
  earlier : ∀ j, j + 1 < w.conns → (w.links j).closed = true

theorem Newest.congr {w w' : Core} {t : List SAct} (h : Newest w t) (hconns : w'.conns = w.conns)
    (hconn : w'.conn = w.conn)
    (hclosed : ∀ j < w.conns, (w.links j).closed = true → (w'.links j).closed = true) :
    Newest w' t := by
  refine ⟨?_, fun k hk => hconns.trans (h.conn k (hconn ▸ hk)), fun j hj => ?_⟩
  · cases h.tunnel with
    | dialing hall => exact .dialing fun j hj => hclosed j (hconns ▸ hj) (hall j (hconns ▸ hj))
    | closing k hk => exact .closing k (hconns.trans hk)
    | lost k hk => exact .lost k (hconns.trans hk)
    | reading k t hk ht => exact .reading k t (hconns.trans hk) ht
  · rw [hconns] at hj
    exact hclosed j (by omega) (h.earlier j hj)

theorem Newest.step {w w' : Core} {a : SAct} {rest push : List SAct} {spawn : List (List BAct)}
    (hI : Newest w (a :: rest)) (h : SDoes w a w' push spawn) : Newest w' (push ++ rest) := by
  have hclosed : ∀ j < w.conns, (w.links j).closed = true → (w'.links j).closed = true :=
    fun j hj hc => h.closed hj hc
  have hsteer := hI.tunnel
  generalize ht : a :: rest = t at hsteer
  cases hsteer with
  | dialing hall =>
    obtain ⟨rfl, rfl⟩ := List.cons.inj ht
    rw [List.append_nil]
    cases h with
    | connect =>
      refine ⟨.reading w.conns _ rfl ?_, fun k hk => ?_, fun j hj => ?_⟩
      · split_ifs <;> simp
      · rw [Option.some.inj hk.symm]
        rfl
      · have hj' : j < w.conns := Nat.lt_of_succ_lt_succ hj
        exact hclosed j hj' (hall j hj')
    | connectFail => exact hI
  | closing k hk =>
    obtain ⟨rfl, rfl⟩ := List.cons.inj ht
    cases h
    refine ⟨.dialing fun j hj => ?_, hI.conn, fun j hj => ?_⟩
    · change j < w.conns at hj
      by_cases hjk : j = k
      · subst hjk
        simp [Core.closeConn, Core.setLink]
      · exact hclosed j hj (hI.earlier j (by omega))
    · exact hclosed j (Nat.lt_of_succ_lt hj) (hI.earlier j hj)
  | lost k hk =>
    obtain ⟨rfl, rfl⟩ := List.cons.inj ht
    cases h
    refine ⟨.closing k hk, fun j hj => hI.conn j ?_, hI.earlier⟩
    dsimp only at hj
    split_ifs at hj
    exact hj
  | reading k t hk hacts =>
    cases t with
    | nil =>
      obtain ⟨rfl, rfl⟩ := List.cons.inj ht
      rw [List.append_nil]
      cases h with
      | readFrame _ m down hd =>
        refine ⟨.reading k _ hk fun b hb => .inl ?_, hI.conn, fun j hj => ?_⟩
        · split_ifs at hb
          · exact dispatch_steers m b hb
          · cases hb
        · exact hclosed j (Nat.lt_of_succ_lt hj) (hI.earlier j hj)
      | readFail => exact ⟨.lost k hk, hI.conn, hI.earlier⟩
    | cons b t =>
      obtain ⟨rfl, rfl⟩ := List.cons.inj ht
      rw [List.forall_mem_cons] at hacts
      obtain ⟨ha | rfl, hacts⟩ := hacts
      · obtain ⟨hconns, hconn, -, hpush⟩ := h.steers ha
        have hI' := hI.congr hconns hconn hclosed
        refine ⟨?_, hI'.conn, hI'.earlier⟩
        change Steering w' (push ++ (t ++ [.readFrame k]))
        rw [← List.append_assoc]
        refine .reading k _ (hconns.trans hk) fun x hx => ?_
        rw [List.mem_append] at hx
        exact hx.elim (fun hx => .inl (hpush x hx)) (hacts x)
      · cases h
        refine ⟨.reading k (.write k _ :: t) hk ?_, hI.conn, hI.earlier⟩
        rw [List.forall_mem_cons]
        exact ⟨.inl rfl, hacts⟩

structure Steered (w : System) : Prop where
  newest : Newest w.core w.tunnel
  proxy : ∀ a ∈ w.proxy, a.steers = false

theorem steered_start (cfg : Config) : Steered (start cfg) where
  newest := {
    tunnel := .dialing fun _ h => absurd h (Nat.not_lt_zero _)
    conn := fun _ h => nomatch h
    earlier := fun _ h => absurd h (Nat.not_lt_zero _) }
  proxy := by simp [start, SAct.steers]

theorem BDoes.conn {cfg : Config} {w w' : Core} {a : BAct} {push : List BAct}
    {spawn : List (List BAct)} (h : BDoes cfg w a w' push spawn) :
    w'.conns = w.conns ∧ w'.conn = w.conn := by
  cases h with
  | act o b c r hr =>
    have hfold : ∀ (eff : List Effect) (v : Core), (eff.foldl (Core.effect o) v).conns = v.conns ∧
        (eff.foldl (Core.effect o) v).conn = v.conn := by
      intro eff
      induction eff with
      | nil => exact fun _ => ⟨rfl, rfl⟩
      | cons e eff ih =>
        intro v
        have he : (v.effect o e).conns = v.conns ∧ (v.effect o e).conn = v.conn := by
          cases e with
          | frame tc m =>
            simp only [Core.effect, Core.toSidecar]
            split_ifs <;> exact ⟨rfl, rfl⟩
          | _ => exact ⟨rfl, rfl⟩
        exact ⟨(ih _).1.trans he.1, (ih _).2.trans he.2⟩
    exact hfold _ _
  | replyOk k m =>
    rw [Core.toSidecar_eq]
    exact ⟨rfl, rfl⟩
  | _ => exact ⟨rfl, rfl⟩

theorem Steered.step {cfg : Config} {w w' : System} {e : Event} (hI : Steered w)
    (h : step cfg w e = some w') : Steered w' := by
  cases e with
  | tunnel c =>
    obtain ⟨a, rest, push, spawn, ht, hr, ht', hp, -⟩ := step_tunnel h
    have hN := hI.newest
    rw [ht] at hN
    exact ⟨ht' ▸ hN.step (sexec_does hr), hp ▸ hI.proxy⟩
  | proxy c =>
    obtain ⟨a, rest, push, spawn, hp, hr, hp', ht, -⟩ := step_proxy h
    have hacts := hI.proxy
    rw [hp, List.forall_mem_cons] at hacts
    have hs := sexec_does hr
    obtain ⟨hconns, hconn, -, hpush⟩ := hs.steers hacts.1
    refine ⟨?_, ?_⟩
    · rw [ht]
      exact hI.newest.congr hconns hconn fun j hj hc => hs.closed hj hc
    · rw [hp', List.forall_mem_append]
      exact ⟨hpush, hacts.2⟩
  | broker i c =>
    obtain ⟨a, -, -, push, spawn, -, hr, -, -, ht, hp⟩ := step_bexec h
    have hb := bexec_does hr
    refine ⟨?_, hp ▸ hI.proxy⟩
    rw [ht]
    exact hI.newest.congr hb.conn.1 hb.conn.2 fun j _ hc => hb.closed hc
  | fire o =>
    simp only [Pair.step] at h
    split_ifs at h
    obtain rfl := Option.some.inj h
    exact ⟨hI.newest.congr rfl rfl fun _ _ hc => hc, hI.proxy⟩
  | cut k m n =>
    obtain rfl := Option.some.inj h
    refine ⟨hI.newest.congr rfl rfl fun j _ hc => ?_, hI.proxy⟩
    exact Core.closed_setLink (fun _ => rfl) hc

/-! ## Binding -/

/-- The connection that the action is about to bind the session to. -/
def BAct.binding : BAct → Option ConnId
  | .handleFrame k m => if m.asks then some k else none
  | .openSession k _ | .attachSession k _ _ | .act _ (.bind k) => some k
  | _ => none

/-- The connection whose frame loop the action belongs to, up to the bind. -/
def BAct.loop : BAct → Option ConnId
  | .readFrame k => some k
  | b => b.binding

/-- No OPEN or ATTACH of a connection before `k` has still to be handled. -/
structure Past (k : ConnId) (w : System) : Prop where
  lt : k < w.core.conns
  up : ∀ j < k, ∀ m ∈ (w.core.links j).up, m.asks = false
  pending : ∀ b ∈ w.pending, ∀ j, b.binding = some j → k ≤ j

def System.past (w : System) (k : ConnId) : Bool :=
  (List.range k).all (fun j => (w.core.links j).up.all (!Msg.asks ·)) &&
    w.pending.all fun b => b.binding.all (k ≤ ·)

/-- A session is bound to a connection when every OPEN and ATTACH of an earlier connection has
been handled. -/
def forward (w : System) : Event → Bool
  | .broker i _ => match w.next i with
    | some (.act _ (.bind k)) => w.past k
    | _ => true
  | _ => true

theorem handle_binding {k : ConnId} {m : Msg} {s : Option ℕ} {b : BAct} (hb : b ∈ handle k m s)
    {j : ConnId} (hj : b.binding = some j) : j = k ∧ m.asks = true := by
  cases m <;> cases s <;> simp_all [handle, BAct.binding, Msg.asks]

theorem BDoes.binding {cfg : Config} {w w' : Core} {a : BAct} {push : List BAct}
    {spawn : List (List BAct)} (h : BDoes cfg w a w' push spawn) :
    ∀ b ∈ push ++ spawn.flatten, ∀ j, b.binding = some j → a.binding = some j ∨
      a = .readFrame j ∧ ∃ m ∈ (w.links j).up, m.asks = true := by
  -- only a frame loop that reads an OPEN or ATTACH sets out to bind the session
  cases h with
  | readFrame k m up hu =>
    intro b hb j hj
    simp only [List.flatten_nil, List.append_nil, List.mem_cons, List.not_mem_nil, or_false] at hb
    rcases hb with rfl | rfl
    · right
      simp only [BAct.binding] at hj
      split_ifs at hj with hm
      obtain rfl := Option.some.inj hj
      exact ⟨rfl, m, hu ▸ List.mem_cons_self .., hm⟩
    · cases hj
  | handleFrame k m =>
    intro b hb j hj
    rw [List.flatten_nil, List.append_nil] at hb
    obtain ⟨rfl, hm⟩ := handle_binding hb hj
    left
    simp [BAct.binding, hm]
  | act o x c r hr =>
    intro b hb j hj
    rw [List.flatten_nil, List.append_nil] at hb
    obtain ⟨y, hy, rfl⟩ := List.mem_map.mp hb
    -- no action on a session leads to a bind
    have hne : ∀ k, y ≠ .bind k := by
      intro k
      rintro rfl
      revert hy
      cases hr with
      | produceDone after => cases after <;> simp [After.acts]
      | _ => simp
    cases y with
    | bind k => exact absurd rfl (hne k)
    | _ => cases hj
  | _ => simp [BAct.binding]

theorem System.past_iff {w : System} {k : ConnId} (hk : k < w.core.conns) :
    w.past k = true ↔ Past k w := by
  simp only [System.past, Bool.and_eq_true, List.all_eq_true, List.mem_range, Option.all_eq_true,
    decide_eq_true_eq, Bool.not_eq_true']
  constructor
  · rintro ⟨hup, hpend⟩
    exact ⟨hk, hup, hpend⟩
  · rintro ⟨-, hup, hpend⟩
    exact ⟨hup, hpend⟩

theorem up_step {cfg : Config} {w w' : System} {e : Event} (hS : Steered w)
    (h : step cfg w e = some w') {j : ConnId} (hj : j + 1 < w.core.conns) :
    ∀ m ∈ (w'.core.links j).up, m ∈ (w.core.links j).up := by
  -- nothing is written to an earlier connection any more
  have hlt : j < w.core.conns := Nat.lt_of_succ_lt hj
  have hclosed := hS.newest.earlier j hj
  have hside : ∀ {a : SAct} {push : List SAct} {spawn : List (List BAct)},
      SDoes w.core a w'.core push spawn → (w'.core.links j).up = (w.core.links j).up := by
    intro a push spawn hs
    obtain hup | ⟨m, -, -, hopen, -⟩ := hs.up hlt
    · exact hup
    · rw [hclosed] at hopen
      cases hopen
  intro m hm
  cases e with
  | tunnel c =>
    obtain ⟨a, rest, push, spawn, -, hr, -⟩ := step_tunnel h
    rwa [hside (sexec_does hr)] at hm
  | proxy c =>
    obtain ⟨a, rest, push, spawn, -, hr, -⟩ := step_proxy h
    rwa [hside (sexec_does hr)] at hm
  | broker i c =>
    obtain ⟨a, -, -, push, spawn, -, hr, -⟩ := step_bexec h
    obtain hup | ⟨m', -, hup, -⟩ := (bexec_does hr).up j
    · rwa [hup] at hm
    · rw [hup]
      exact List.mem_cons_of_mem _ hm
  | fire o =>
    simp only [step] at h
    split_ifs at h
    obtain rfl := Option.some.inj h
    exact hm
  | cut k n n' =>
    obtain rfl := Option.some.inj h
    exact ((w.core.grows_cut k n n' j).up m hm).elim id False.elim

theorem Past.step {cfg : Config} {w w' : System} {e : Event} {k : ConnId} (hI : Past k w)
    (hS : Steered w) (h : Pair.step cfg w e = some w') : Past k w' := by
  have hup : ∀ j < k, ∀ m ∈ (w'.core.links j).up, m.asks = false := by
    intro j hj m hm
    exact hI.up j hj m (up_step hS h (Nat.lt_of_le_of_lt hj hI.lt) m hm)
  cases step_moves h with
  | sidecar _ a push spawn hs hrun hp =>
    refine ⟨hI.lt.trans_le hs.frame.le_conns, hup, fun b hb j hj => ?_⟩
    rw [hp, List.mem_append] at hb
    rcases hb with hb | hb
    · exact hI.pending b hb j hj
    · obtain ⟨i, rfl, -⟩ := hs.frame.spawn b hb
      cases hj
  | quiet _ hq =>
    refine ⟨hq.conns ▸ hI.lt, hup, fun b hb j hj => ?_⟩
    obtain ⟨ws, hp, hws⟩ := hq.pending
    rw [hp, List.mem_append] at hb
    rcases hb with hb | hb
    · exact hI.pending b hb j hj
    · obtain ⟨o, -, rfl⟩ := hws b hb
      cases hj
  | broker i c a X Y push spawn hn hb ht hproxy hp hp' =>
    refine ⟨hb.conn.1 ▸ hI.lt, hup, fun b hmem j hj => ?_⟩
    rcases mem_pending_of_replace hp hp' b hmem with hmem | hmem
    · exact hI.pending b hmem j hj
    · obtain hbind | ⟨-, m, hm, hask⟩ := hb.binding b hmem j hj
      · exact hI.pending a (by simp [hp]) j hbind
      · by_contra hlt
        rw [hI.up j (Nat.lt_of_not_le hlt) m hm] at hask
        cases hask

theorem Does.tconn_of_bind {s : Session} {a : Act} {c : Choice} {r : Result} (h : Does s a c r)
    {k : ConnId} (hk : r.s.tconn = some k) : s.tconn = some k ∨ a = .bind k := by
  cases h <;> simp_all

theorem tconn_step {cfg : Config} {w w' : System} {e : Event} (h : step cfg w e = some w') {o : ℕ}
    {k : ConnId} (hk : (w'.core.objs o).s.tconn = some k) :
    (w.core.objs o).s.tconn = some k ∨
      ∃ i c, e = .broker i c ∧ w.next i = some (.act o (.bind k)) := by
  cases step_moves h with
  | sidecar _ a push spawn hs hrun hp =>
    rw [hs.frame.objs] at hk
    exact .inl hk
  | quiet _ hq =>
    obtain ⟨b, hb⟩ := hq.objs o
    rw [hb] at hk
    exact .inl hk
  | broker i c a X Y push spawn hn hb ht hproxy hp hp' =>
    rcases hb.cases_session with ⟨j, target, rfl, hs, hcore, rfl, rfl⟩ |
      ⟨o', b, c', r, rfl, hr, hcore, rfl, rfl⟩ | hf
    · have hobjs : w'.core.objs = Function.update w.core.objs w.core.created (cfg.newObj target) := by
        rw [hcore]
      rw [hobjs] at hk
      by_cases ho : o = w.core.created
      · subst ho
        rw [Function.update_self] at hk
        cases hk
      · rw [Function.update_of_ne ho] at hk
        exact .inl hk
    · rw [hcore, Core.objs_objAct] at hk
      by_cases ho : o = o'
      · subst ho
        rw [Function.update_self] at hk
        obtain hk | rfl := Does.tconn_of_bind hr hk
        · exact .inl hk
        · exact .inr ⟨i, c, rfl, hn⟩
      · rw [Function.update_of_ne ho] at hk
        exact .inl hk
    · rw [hf.objs] at hk
      exact .inl hk

theorem System.mem_pending_of_next {w : System} {i : ℕ} {b : BAct} (h : w.next i = some b) :
    b ∈ w.pending := by
  obtain ⟨t, ht, hhead⟩ := Option.bind_eq_some_iff.mp h
  exact List.mem_flatten.mpr ⟨t, List.mem_of_getElem? ht, List.mem_of_mem_head? hhead⟩

structure Bounded (w : System) : Prop where
  loop : ∀ b ∈ w.pending, ∀ j, b.loop = some j → j < w.core.conns
  tconn : ∀ o j, (w.core.objs o).s.tconn = some j → j < w.core.conns

theorem BDoes.loop {cfg : Config} {w w' : Core} {a : BAct} {push : List BAct}
    {spawn : List (List BAct)} (h : BDoes cfg w a w' push spawn) :
    ∀ b ∈ push ++ spawn.flatten, ∀ j, b.loop = some j → a.loop = some j := by
  intro b hb j hj
  by_cases hr : ∃ k, b = .readFrame k
  · obtain ⟨k, rfl⟩ := hr
    have ha : a = .readFrame k := by
      cases h with
      | handleFrame k' m => cases m <;> cases hs : w.sessions <;> simp_all [handle]
      | _ => simp_all
    rw [ha, hj]
  · have hbind : b.binding = some j := by
      cases b with
      | readFrame k => exact absurd ⟨k, rfl⟩ hr
      | _ => exact hj
    obtain ha | ⟨rfl, -⟩ := h.binding b hb j hbind
    · cases a with
      | readFrame k => cases ha
      | _ => exact ha
    · rfl

theorem Bounded.step {cfg : Config} {w w' : System} {e : Event} (hI : Bounded w)
    (h : Pair.step cfg w e = some w') : Bounded w' := by
  have hle : w.core.conns ≤ w'.core.conns := by
    cases step_moves h with
    | sidecar _ a push spawn hs hrun hp => exact hs.frame.le_conns
    | quiet _ hq => exact hq.conns.ge
    | broker i c a X Y push spawn hn hb ht hproxy hp hp' => exact hb.conn.1.ge
  refine ⟨?_, fun o j hj => ?_⟩
  · intro b hb j hj
    cases step_moves h with
    | sidecar _ a push spawn hs hrun hp =>
      rw [hp, List.mem_append] at hb
      rcases hb with hb | hb
      · exact (hI.loop b hb j hj).trans_le hle
      · obtain ⟨i, rfl, hi⟩ := hs.frame.spawn b hb
        exact Option.some.inj hj ▸ hi
    | quiet _ hq =>
      obtain ⟨ws, hp, hws⟩ := hq.pending
      rw [hp, List.mem_append] at hb
      rcases hb with hb | hb
      · exact (hI.loop b hb j hj).trans_le hle
      · obtain ⟨o, -, rfl⟩ := hws b hb
        cases hj
    | broker i c a X Y push spawn hn hbd ht hproxy hp hp' =>
      rcases mem_pending_of_replace hp hp' b hb with hmem | hmem
      · exact (hI.loop b hmem j hj).trans_le hle
      · exact (hI.loop a (by simp [hp]) j (hbd.loop b hmem j hj)).trans_le hle
  · obtain hj | ⟨i, c, -, hn⟩ := tconn_step h hj
    · exact (hI.tconn o j hj).trans_le hle
    · exact (hI.loop _ (System.mem_pending_of_next hn) j rfl).trans_le hle

theorem bounded_start (cfg : Config) : Bounded (start cfg) where
  loop b hb := by cases hb
  tconn o j hj := by cases hj

/-- Where a session is bound, nothing will bind it back. -/
structure Forward (w : System) : Prop where
  steered : Steered w
  bounded : Bounded w
  past : ∀ o k, (w.core.objs o).s.tconn = some k → Past k w

theorem Forward.step {cfg : Config} {w w' : System} {e : Event} (hI : Forward w)
    (hf : forward w e = true) (h : Pair.step cfg w e = some w') : Forward w' := by
  refine ⟨hI.steered.step h, hI.bounded.step h, fun o k hk => ?_⟩
  suffices hp : Past k w from hp.step hI.steered h
  obtain hk | ⟨i, c, rfl, hn⟩ := tconn_step h hk
  · exact hI.past o k hk
  · have hlt := hI.bounded.loop _ (System.mem_pending_of_next hn) k rfl
    apply (System.past_iff hlt).mp
    simpa [forward, hn] using hf

/-- A session that is bound to a connection in a run whose steps are all `forward` is bound to
none that is older afterwards, and so to no other as long as this is the newest. -/
theorem tconn_le_of_forward {cfg : Config} {es es' : List Event} {w w' : System} {o : ℕ}
    {k j : ConnId} (hf : Along (step cfg) (fun w e => forward w e = true) (start cfg) es)
    (hrun : run (step cfg) (start cfg) es = some w) (hrun' : run (step cfg) w es' = some w')
    (hk : (w.core.objs o).s.tconn = some k) (hj : (w'.core.objs o).s.tconn = some j) :
    k ≤ j ∧ (w'.core.conns = k + 1 → j = k) := by
  have hF : Forward w := by
    apply run_invariant (fun w e w' hI hf h => Forward.step hI hf h) _ hf hrun
    exact ⟨steered_start cfg, bounded_start cfg, fun o k hk => by cases hk⟩
  have hK : Steered w' ∧ Bounded w' ∧ Past k w' ∧ ∀ j, (w'.core.objs o).s.tconn = some j → k ≤ j := by
    apply run_preserves (I := fun w => Steered w ∧ Bounded w ∧ Past k w ∧
      ∀ j, (w.core.objs o).s.tconn = some j → k ≤ j) _ _ hrun'
    · rintro w e w' ⟨hS, hB, hP, hle⟩ h
      refine ⟨hS.step h, hB.step h, hP.step hS h, fun j hj => ?_⟩
      obtain hj | ⟨i, c, -, hn⟩ := tconn_step h hj
      · exact hle j hj
      · exact hP.pending _ (System.mem_pending_of_next hn) j rfl
    · refine ⟨hF.steered, hF.bounded, hF.past o k hk, fun j hj => ?_⟩
      rw [Option.some.inj (hk.symm.trans hj)]
  obtain ⟨-, hB, -, hle⟩ := hK
  have hkj := hle j hj
  refine ⟨hkj, fun hw => Nat.le_antisymm ?_ hkj⟩
  have hjw := hB.tconn o j hj
  rw [hw] at hjw
  exact Nat.lt_succ_iff.mp hjw

def reconnected : List Event := List.flatten
  -- an OPEN is left unread on the first connection, and the ATTACH is sent on the second
  [[.tunnel .ok, .proxy .ok, .proxy .ok, .proxy .ok, .tunnel (.fail 0 [])], tunnelSteps 5]

/-- The OPEN is handled first, and then the ATTACH. -/
theorem tconn_le_inTurn : ∃ w w',
    run (step small) (start small) (reconnected ++ brokerSteps 0 4 ++ brokerSteps 1 4) = some w ∧
    run (step small) w (brokerSteps 0 2 ++ brokerSteps 1 3) = some w' ∧
    (w.core.objs 0).s.tconn = some 1 ∧ ∃ j, (w'.core.objs 0).s.tconn = some j ∧ 1 ≤ j := by
  have hrun := (rfl : run (step small) (start small)
    (reconnected ++ brokerSteps 0 4 ++ brokerSteps 1 4) = some _)
  refine ⟨_, _, hrun, rfl, rfl, 1, rfl, ?_⟩
  exact (tconn_le_of_forward (o := 0) (by decide) hrun
    (rfl : run (step small) _ (brokerSteps 0 2 ++ brokerSteps 1 3) = some _) rfl rfl).1

/-- The second loop binds the session, and then the first loop binds it back to its connection. -/
theorem not_tconn_le_overtaken : ∃ w w',
    run (step small) (start small) (reconnected ++ brokerSteps 1 5) = some w ∧
    run (step small) w (brokerSteps 0 5) = some w' ∧ w'.core.conn = some 1 ∧
    (w.core.objs 0).s.tconn = some 1 ∧ (w'.core.objs 0).s.tconn = some 0 :=
  ⟨_, _, rfl, rfl, rfl, rfl, rfl⟩

end SubstratePoc.Pair
