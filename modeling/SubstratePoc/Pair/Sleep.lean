import SubstratePoc.Lib.Cond
import SubstratePoc.Pair.Connections

namespace SubstratePoc.Broker
open Lib Tunnel

/-- The calls of `s.cond.Broadcast`; the one of `bind` comes after `register`.  The source makes them
right after it has released `s.mu`; here they are counted with that critical section. -/
def Act.broadcasts (s : Session) : Act → Bool
  | .register _ | .onDownstreamAck _ => true
  | .detach tc => s.tconn = some tc
  | .destroy => !s.dead
  | _ => false

theorem free_append {b b' : ReplayBuffer} {p : Bytes} (h : b.append p = some b') :
    b'.free ≤ b.free := by
  obtain ⟨-, hbuf, hmax⟩ := ReplayBuffer.append_eq_some h
  unfold ReplayBuffer.free
  rw [hbuf, hmax, List.length_append]
  omega

theorem Does.still {s : Session} {a : Act} {c : Choice} {r : Result} (h : Does s a c r)
    (hb : a.broadcasts s = false) : r.s.dead = s.dead ∧ r.s.downBuf.free ≤ s.downBuf.free := by
  cases h with
  | produceDetached p after c b hp hd hf happ => exact ⟨rfl, free_append happ⟩
  | produceSent p after b tc hp hd hf happ => exact ⟨rfl, free_append happ⟩
  | produceLost p after n text b tc hp hd hf happ => exact ⟨rfl, free_append happ⟩
  | ackDrained | ackKept => cases hb
  | destroy c hd =>
    rw [Act.broadcasts, hd] at hb
    cases hb
  | _ => exact ⟨rfl, le_rfl⟩

/-- What leads to no ACK, while nothing waits for the dial. -/
def Act.silent : Act → Bool
  | .flush _ | .flushed _ | .onData _ _ | .upWrite _ | .onDataWritten _ => false
  | .send (.ack _ _) | .write _ (.ack _ _) => false
  | _ => true

theorem silent_onSidecarAttach (s : Session) (d : ℕ) :
    ∀ m ∈ s.onSidecarAttach d, (Act.send m).silent = true := by
  obtain ⟨ms, hms, hrest⟩ := s.onSidecarAttach_cons d
  rw [hms, List.forall_mem_cons]
  refine ⟨rfl, fun m hm => ?_⟩
  rcases hrest m hm with ⟨p, rfl⟩ | rfl <;> rfl

/-- Such an action leads to others of its kind, and writes no ACK. -/
structure Hushed (r : Result) : Prop where
  queue : r.s.preConn = []
  push : ∀ x ∈ r.push, x.silent = true
  frames : ∀ tc sid offset, .frame tc (.ack sid offset) ∉ r.eff

theorem Does.hushed {s : Session} {a : Act} {c : Choice} {r : Result} (h : Does s a c r)
    (ha : a.silent = true) (hq : s.preConn = []) : Hushed r := by
  cases h with
  | dialedFlush c hd hp => exact absurd hq hp
  | dialedRead => exact ⟨rfl, by simp [Act.silent], by simp⟩
  | flushOk | flushFail | flushed | onDataDropped | onDataQueued | onDataAdmitted | upWriteOk
  | upWriteFail | onDataWritten => cases ha
  | produceDone after c => cases after <;> exact ⟨hq, by simp [After.acts, Act.silent], by simp⟩
  | produceDetached | produceLost =>
    refine ⟨hq, by simp [Act.silent], ?_⟩
    intro tc sid offset hm
    split_ifs at hm <;> simp at hm
  | attach offset c =>
    refine ⟨hq, fun x hx => ?_, by simp⟩
    obtain ⟨m, hm, rfl⟩ := List.mem_map.mp hx
    exact silent_onSidecarAttach s offset m hm
  | sendSome m c tc ht =>
    refine ⟨hq, fun x hx => ?_, by simp⟩
    rw [List.mem_singleton.mp hx]
    cases m <;> first | rfl | cases ha
  | writeOk tc m hm =>
    refine ⟨hq, by simp, ?_⟩
    intro tc' sid offset hmem
    simp only [List.mem_singleton, Effect.frame.injEq] at hmem
    rw [← hmem.2] at ha
    cases ha
  | _ => exact ⟨hq, by simp [Act.silent], by simp⟩

end SubstratePoc.Broker

namespace SubstratePoc.Pair
open Lib Tunnel Broker Sidecar

/-- The calls of `s.cond.Broadcast` in the sidecar, counted with the critical section before them;
in `closeAll` the source makes it after `agent.Close`. -/
def SAct.broadcasts (cs : ClientSession) : SAct → Bool
  | .onUpstreamAck _ => true
  | .closeAll => !cs.dead
  | _ => false

/-- The goroutines that may sleep: the one in `writeUp`, and those of the broker. -/
inductive Sleeper
  | proxy
  | broker (i : ℕ)
  deriving DecidableEq

namespace System

/-- The goroutine is at a `cond.Wait`: there is something to write, the session lives, and its
buffer is full. -/
def waits (w : System) : Sleeper → Bool
  | .proxy => match w.proxy with
    | .writeUp p _ :: _ => p ≠ [] && !w.core.cs.dead && w.core.cs.upBuf.free = 0
    | _ => false
  | .broker i => match w.next i with
    | some (.act o (.produce p _)) =>
      p ≠ [] && !(w.core.objs o).s.dead && (w.core.objs o).s.downBuf.free = 0
    | _ => false

/-- The next action of the goroutine that moves broadcasts to the session of the sleeper. -/
def wakes (w : System) : Event → Sleeper → Bool
  | .tunnel _, .proxy => w.tunnel.head?.any (SAct.broadcasts w.core.cs)
  | .broker j _, .broker i => match w.next j, w.next i with
    | some (.act o a), some (.act o' _) => o = o' && a.broadcasts (w.core.objs o).s
    | _, _ => false
  | _, _ => false

end System

def conds : Cond System Event Sleeper where
  mover
    | .proxy _ => some .proxy
    | .broker i _ => some (.broker i)
    | _ => none
  waits := System.waits
  wakes := System.wakes

/-- The step makes room in `upBuf` without a broadcast, while the writer sleeps. -/
def unheard (w : System × (Sleeper → Bool)) : Event ⊕ Sleeper → Bool
  | .inl (.tunnel _) => match w.1.tunnel.head? with
    | some (.onAttachOK offset) => w.2 .proxy && w.1.core.cs.upBuf.base < offset
    | _ => false
  | _ => false

theorem SDoes.still {w w' : Core} {a : SAct} {push : List SAct} {spawn : List (List BAct)}
    (h : SDoes w a w' push spawn) (hb : a.broadcasts w.cs = false)
    (ha : ∀ offset, a = .onAttachOK offset → offset ≤ w.cs.upBuf.base) :
    w'.cs.dead = w.cs.dead ∧ w'.cs.upBuf.free ≤ w.cs.upBuf.free := by
  cases h with
  | onAttachOK offset =>
    have htrim : w.cs.upBuf.trimTo offset = w.cs.upBuf := if_pos (ha offset rfl)
    refine ⟨rfl, ?_⟩
    show (w.cs.upBuf.trimTo offset).free ≤ _
    rw [htrim]
  | onUpstreamAck => cases hb
  | closeAll =>
    refine ⟨?_, le_rfl⟩
    unfold SAct.broadcasts at hb
    simpa using hb
  | writeUp p err b n happ => exact ⟨rfl, free_append happ⟩
  | writeOk k m =>
    rw [Core.toBroker_eq]
    exact ⟨rfl, le_rfl⟩
  | _ => exact ⟨rfl, le_rfl⟩

section Step
variable {cfg : Config} {w w' : System} {e : Event}

theorem next_step {i : ℕ} {a : BAct} (h : step cfg w e = some w')
    (hm : conds.mover e ≠ some (.broker i)) (hn : w.next i = some a) : w'.next i = some a := by
  -- the others leave the next action of a goroutine of the broker alone
  obtain ⟨t, ht, hta⟩ := Option.bind_eq_some_iff.mp hn
  have hlt := (List.getElem?_eq_some_iff.mp ht).1
  have happ : ∀ ts ts', ts[i]? = w.threads[i]? → w'.threads = ts ++ ts' → w'.next i = some a := by
    intro ts ts' heq hts
    unfold System.next
    rw [hts, List.getElem?_append_left, heq, ht]
    · exact hta
    · rw [ht] at heq
      exact (List.getElem?_eq_some_iff.mp heq).1
  cases e with
  | tunnel c =>
    obtain ⟨-, -, -, spawn, -, -, -, -, hts⟩ := step_tunnel h
    exact happ _ spawn rfl hts
  | proxy c =>
    obtain ⟨-, -, -, spawn, -, -, -, -, hts⟩ := step_proxy h
    exact happ _ spawn rfl hts
  | fire o =>
    simp only [step] at h
    split_ifs at h
    cases h
    exact happ _ _ rfl rfl
  | cut k m n =>
    cases h
    exact hn
  | broker j c =>
    have hij : j ≠ i := fun hij => hm (by rw [hij]; rfl)
    simp only [step] at h
    split at h
    · obtain ⟨r, -, rfl⟩ := Option.map_eq_some_iff.mp h
      exact happ _ _ (List.getElem?_set_ne hij) rfl
    · cases h

theorem proxy_step (h : step cfg w e = some w') (hm : conds.mover e ≠ some .proxy) :
    w'.proxy = w.proxy := by
  cases e with
  | proxy c => exact absurd rfl hm
  | tunnel c =>
    obtain ⟨-, -, -, -, -, -, -, hp, -⟩ := step_tunnel h
    exact hp
  | broker j c =>
    obtain ⟨-, -, -, -, -, -, -, -, -, -, hp⟩ := step_bexec h
    exact hp
  | fire o => exact (step_fire h).proxy
  | cut k m n => exact (step_cut h).proxy

theorem cs_broker {i : ℕ} {c : Choice} (h : step cfg w (.broker i c) = some w') :
    w'.core.cs = w.core.cs := by
  obtain ⟨a, X, Y, push, spawn, -, hr, -⟩ := step_bexec h
  have hdo : BDoes cfg w.core a w'.core push spawn := bexec_does hr
  rcases hdo.cases_session with ⟨k, target, -, -, hcore, -⟩ | ⟨o, b, c, r, -, -, hcore, -⟩ | hf
  · rw [hcore]
  · rw [hcore]
    exact (w.core.objAct_affects o b c r).cs
  · exact hf.cs

theorem waits_proxy_step {z : Sleeper → Bool} (hu : unheard (w, z) (.inl e) = false)
    (h : step cfg w e = some w') (hm : conds.mover e ≠ some .proxy)
    (hw : w.wakes e .proxy = false) (hz : z .proxy = true) (hwait : w.waits .proxy = true) :
    w'.waits .proxy = true := by
  -- a writer that waits goes on waiting until it is woken, or room is made in silence
  have hproxy := proxy_step h hm
  have hcs : w'.core.cs.dead = w.core.cs.dead ∧
      w'.core.cs.upBuf.free ≤ w.core.cs.upBuf.free := by
    cases e with
    | proxy c => exact absurd rfl hm
    | broker j c => rw [cs_broker h]; exact ⟨rfl, le_rfl⟩
    | fire o => rw [(step_fire h).cs]; exact ⟨rfl, le_rfl⟩
    | cut k m n => rw [(step_cut h).cs]; exact ⟨rfl, le_rfl⟩
    | tunnel c =>
      obtain ⟨a, rest, push, spawn, ht, hr, -⟩ := step_tunnel h
      apply (sexec_does hr).still
      · simpa [System.wakes, ht] using hw
      · rintro offset rfl
        simpa [unheard, ht, hz] using hu
  unfold System.waits at hwait ⊢
  rw [hproxy]
  dsimp only at hwait ⊢
  split at hwait
  · simp only [Bool.and_eq_true, decide_eq_true_eq] at hwait ⊢
    rw [hcs.1]
    exact ⟨hwait.1, by omega⟩
  · cases hwait

theorem waits_broker_step {i : ℕ} (hK : Keyed w) (h : step cfg w e = some w')
    (hm : conds.mover e ≠ some (.broker i)) (hw : w.wakes e (.broker i) = false)
    (hwait : w.waits (.broker i) = true) : w'.waits (.broker i) = true := by
  -- a reader of the broker that waits goes on waiting until it is woken
  unfold System.waits at hwait ⊢
  dsimp only at hwait ⊢
  split at hwait
  · rename_i o p after hn
    have ho : o < w.core.created := hK.named _ (System.mem_pending_of_next hn) o rfl
    have hobj : (w'.core.objs o).s.dead = (w.core.objs o).s.dead ∧
        (w'.core.objs o).s.downBuf.free ≤ (w.core.objs o).s.downBuf.free := by
      cases step_moves h with
      | sidecar _ a push spawn hs hrun hp => rw [hs.frame.objs]; exact ⟨rfl, le_rfl⟩
      | quiet _ hq =>
        obtain ⟨b, hb⟩ := hq.objs o
        rw [hb]
        exact ⟨rfl, le_rfl⟩
      | broker j c a X Y push spawn hj hb ht hproxy hp hp' =>
        rcases hb.cases_session with ⟨k, target, -, -, hcore, -⟩ |
          ⟨o', b, c, r, rfl, hr, hcore, -⟩ | hf
        · rw [hcore]
          dsimp only
          rw [Function.update_of_ne ho.ne]
          exact ⟨rfl, le_rfl⟩
        · rw [hcore, Core.objs_objAct]
          by_cases hoo : o = o'
          · subst hoo
            rw [Function.update_self]
            refine hr.still ?_
            simpa [System.wakes, hj, hn] using hw
          · rw [Function.update_of_ne hoo]
            exact ⟨rfl, le_rfl⟩
        · rw [hf.objs]
          exact ⟨rfl, le_rfl⟩
    rw [next_step h hm hn]
    simp only [Bool.and_eq_true, decide_eq_true_eq] at hwait ⊢
    rw [hobj.1]
    exact ⟨hwait.1, by omega⟩
  · cases hwait

end Step

/-- The broker loses no wake-up: in every run the reader of a destination sleeps in `cond.Wait` only
while its session lives and `downBuf` is full. -/
theorem reader_waits_of_asleep {cfg : Config} {w : System} {z : Sleeper → Bool}
    {xs : List (Event ⊕ Sleeper)}
    (hrun : run (conds.step (step cfg)) (start cfg, fun _ => false) xs = some (w, z)) (i : ℕ) :
    z (.broker i) = true → w.waits (.broker i) = true := by
  refine Cond.run_waits (C := conds) (.broker i) (J := Keyed) (P := fun _ _ => True)
    (fun _ _ _ hK h => hK.step h) ?_ (keyed_start cfg) (by simp) (.of_mem _ (by simp)) hrun
  intro s z e s' hK _ h hm hw _ hwait
  exact waits_broker_step hK h hm hw hwait

def steps (es : List Event) : List (Event ⊕ Sleeper) := es.map .inl

def readerFull : List (Event ⊕ Sleeper) :=
  -- the destination sends five bytes into a buffer of four, while the tunnel is cut
  steps (opening ++ brokerSteps 1 2 ++ [.cut 0 0 0, .broker 1 (.read [1, 2, 3, 4, 5] none),
    .broker 1 (.fail 0 [])]) ++ [.inr (.broker 1)]

theorem reader_waits_of_asleep_full : ∃ w z,
    run (conds.step (step small)) (start small, fun _ => false) readerFull = some (w, z) ∧
      z (.broker 1) = true ∧ w.waits (.broker 1) = true := by
  have hrun := (rfl : run (conds.step (step small)) (start small, fun _ => false) readerFull = some _)
  exact ⟨_, _, hrun, rfl, reader_waits_of_asleep hrun 1 rfl⟩

/-- The sidecar loses none either, unless an ATTACH_OK makes room while the writer sleeps. -/
theorem writer_waits_of_asleep {cfg : Config} {w : System} {z : Sleeper → Bool}
    {xs : List (Event ⊕ Sleeper)}
    (hrun : run (conds.step (step cfg)) (start cfg, fun _ => false) xs = some (w, z))
    (hheard : Along (conds.step (step cfg)) (fun v x => unheard v x = false)
      (start cfg, fun _ => false) xs) : z .proxy = true → w.waits .proxy = true := by
  refine Cond.run_waits (C := conds) .proxy (J := fun _ => True) (fun _ _ _ _ _ => trivial) ?_
    trivial (by simp) hheard hrun
  intro s z e s' _ hu h hm hw hz hwait
  exact waits_proxy_step hu h hm hw hz hwait

def writerFull : List (Event ⊕ Sleeper) :=
  -- the agent sends five bytes into a buffer of four. The destination gets the four, and the
  -- ACK of them is lost with the connection
  steps (opening ++ brokerSteps 1 2 ++
    .proxy (.read [1, 2, 3, 4, 5] none) :: List.replicate 3 (.proxy .ok)) ++ [.inr .proxy] ++
  steps (brokerSteps 0 7 ++ [.cut 0 0 0, .tunnel (.fail 0 [])])

theorem writer_waits_of_asleep_full : ∃ w z,
    run (conds.step (step small)) (start small, fun _ => false) writerFull = some (w, z) ∧
      z .proxy = true ∧ w.waits .proxy = true := by
  have hrun := (rfl : run (conds.step (step small)) (start small, fun _ => false) writerFull = some _)
  refine ⟨_, _, hrun, rfl, writer_waits_of_asleep hrun ?_ rfl⟩
  decide

/-! ## The wake-up that is lost -/

/-- What a goroutine of the sidecar is about to do neither sends DATA nor broadcasts for an ACK. -/
def SAct.silent : SAct → Bool
  | .onUpstreamAck _ | .openSession | .readAgent | .writeUp _ _ => false
  | .send (.data _ _ _) | .write _ (.data _ _ _) => false
  | _ => true

def BAct.silent : BAct → Bool
  | .act _ a => a.silent
  | .handleFrame _ (.data _ _ _) | .reply _ (.ack _ _) => false
  | _ => true

/-- The writer has bytes to write and its buffer is empty, and there is neither DATA nor an ACK
anywhere. -/
structure Stranded (w : System) : Prop where
  empty : w.core.cs.upBuf.buf = []
  tunnel : ∀ a ∈ w.tunnel, a.silent = true
  broker : ∀ a ∈ w.pending, a.silent = true
  up : ∀ k sid offset p, .data sid offset p ∉ (w.core.links k).up
  down : ∀ k sid offset, .ack sid offset ∉ (w.core.links k).down
  queue : ∀ o, (w.core.objs o).s.preConn = []

theorem trimTo_empty {b : ReplayBuffer} (h : b.buf = []) (offset : ℕ) : b.trimTo offset = b := by
  obtain ⟨base, buf, max, hmax⟩ := b
  subst h
  unfold ReplayBuffer.trimTo
  split_ifs with h1 h2
  · rfl
  · rfl
  · simp only [ReplayBuffer.endOffset, List.length_nil] at h1 h2
    omega

theorem onAttachOK_empty {cs : ClientSession} (h : cs.upBuf.buf = []) (offset : ℕ) :
    (cs.onAttachOK offset).2 = [] := by
  unfold ClientSession.onAttachOK
  rw [trimTo_empty h]
  dsimp only
  split
  · rfl
  · rename_i replay hr
    rw [(ReplayBuffer.fromOffset_eq_ok hr).2.2, h, List.drop_nil]
    rfl

theorem SDoes.dead_mono {w w' : Core} {a : SAct} {push : List SAct} {spawn : List (List BAct)}
    (h : SDoes w a w' push spawn) (hd : w.cs.dead = true ∨ a = .closeAll) : w'.cs.dead = true := by
  cases h with
  | closeAll => rfl
  | closeAllAgain hd' => exact hd'
  | writeOk k m =>
    rw [Core.toBroker_eq]
    show w.cs.dead = true
    simpa using hd
  | _ => simpa [Core.closeConn, Core.setLink] using hd

theorem SDoes.hushed {w w' : Core} {a : SAct} {push : List SAct} {spawn : List (List BAct)}
    (h : SDoes w a w' push spawn) (ha : a.silent = true) (hempty : w.cs.upBuf.buf = [])
    (hdown : ∀ k sid offset, .ack sid offset ∉ (w.links k).down) :
    w'.cs.upBuf = w.cs.upBuf ∧ ∀ x ∈ push, x.silent = true := by
  -- with an empty buffer and without an ACK the sidecar goes on as it is
  cases h with
  | connect =>
    refine ⟨rfl, ?_⟩
    split_ifs <;> simp [SAct.silent]
  | readFrame k m down hd =>
    refine ⟨rfl, ?_⟩
    rw [List.forall_mem_append]
    refine ⟨?_, by simp [SAct.silent]⟩
    split_ifs
    · cases m with
      | ack sid offset => exact absurd (hd ▸ List.mem_cons_self) (hdown k sid offset)
      | _ => simp [dispatch, SAct.silent]
    · simp
  | onAttachOK offset =>
    refine ⟨trimTo_empty hempty offset, ?_⟩
    rw [onAttachOK_empty hempty]
    simp
  | sendSome m k hc =>
    refine ⟨rfl, fun x hx => ?_⟩
    rw [List.mem_singleton.mp hx]
    cases m <;> first | rfl | cases ha
  | writeOk k m =>
    rw [Core.toBroker_eq]
    exact ⟨rfl, by simp⟩
  | attachFrame k => exact ⟨rfl, by simp [SAct.silent, ClientSession.attachFrame]⟩
  | onUpstreamAck | openSession | readAgent | writeUpDone | writeUpDead | writeUp => cases ha
  | _ => exact ⟨rfl, by simp [SAct.silent]⟩

theorem BDoes.hushed {cfg : Config} {w w' : Core} {a : BAct} {push : List BAct}
    {spawn : List (List BAct)} (h : BDoes cfg w a w' push spawn) (hact : ∀ o x, a ≠ .act o x)
    (ha : a.silent = true) (hup : ∀ k sid offset p, .data sid offset p ∉ (w.links k).up) :
    ∀ x ∈ push ++ spawn.flatten, x.silent = true := by
  -- what the broker does beside its sessions
  cases h with
  | act o x => exact absurd rfl (hact o x)
  | readFrame k m up hk =>
    have hm : (BAct.handleFrame k m).silent = true := by
      cases m with
      | data sid offset p => exact absurd (hk ▸ List.mem_cons_self) (hup k sid offset p)
      | _ => rfl
    rw [List.flatten_nil, List.append_nil, List.forall_mem_cons]
    exact ⟨hm, by simp [BAct.silent]⟩
  | handleFrame k m =>
    cases m with
    | data => cases ha
    | _ => cases w.sessions <;> simp [handle, BAct.silent, Act.silent]
  | _ => simp [BAct.silent, Act.silent]

section Stranded
variable {cfg : Config} {w w' : System} {e : Event}

theorem Stranded.of_tunnel {a : SAct} {rest push : List SAct} {spawn : List (List BAct)}
    (hs : Stranded w) (h : SDoes w.core a w'.core push spawn) (ht : w.tunnel = a :: rest)
    (ht' : w'.tunnel = push ++ rest) (hp : w'.threads = w.threads ++ spawn) :
    Stranded w' ∧ w'.core.cs.upBuf = w.core.cs.upBuf := by
  have hf := h.frame
  have ha := hs.tunnel
  rw [ht, List.forall_mem_cons] at ha
  obtain ⟨hbuf, hpush⟩ := h.hushed ha.1 hs.empty hs.down
  refine ⟨?_, hbuf⟩
  constructor
  · rw [hbuf]
    exact hs.empty
  · rw [ht', List.forall_mem_append]
    exact ⟨hpush, ha.2⟩
  · unfold System.pending
    rw [hp, List.flatten_append, List.forall_mem_append]
    refine ⟨hs.broker, fun x hx => ?_⟩
    obtain ⟨k, rfl, -⟩ := hf.spawn x hx
    rfl
  · intro k sid offset p hm
    rcases (hf.links k).up _ hm with hm | rfl
    · exact hs.up k sid offset p hm
    · cases ha.1
  · intro k sid offset hm
    exact ((hf.links k).down _ hm).elim (hs.down k sid offset) False.elim
  · rw [hf.objs]
    exact hs.queue

theorem Stranded.of_broker {i : ℕ} {c : Choice} (hs : Stranded w)
    (h : step cfg w (.broker i c) = some w') : Stranded w' := by
  obtain ⟨a, X, Y, push, spawn, -, hr, hp, hp', ht, -⟩ := step_bexec h
  have hdo : BDoes cfg w.core a w'.core push spawn := bexec_does hr
  have ha := hs.broker a (by simp [hp])
  have hmem := mem_pending_of_replace hp hp'
  have hempty : w'.core.cs.upBuf.buf = [] := cs_broker h ▸ hs.empty
  have htunnel : ∀ a ∈ w'.tunnel, a.silent = true := ht ▸ hs.tunnel
  rcases hdo.cases_session with ⟨k, target, -, -, hcore, rfl, rfl⟩ |
    ⟨o, b, c, r, rfl, hact, hcore, rfl, rfl⟩ | hf
  · refine ⟨hempty, htunnel, fun x hx => ?_, ?_, ?_, ?_⟩
    · rcases hmem x hx with hx | hx
      · exact hs.broker x hx
      · simp only [List.flatten_nil, List.append_nil, List.mem_pair] at hx
        rcases hx with rfl | rfl <;> rfl
    · rw [hcore]
      exact hs.up
    · rw [hcore]
      exact hs.down
    · intro o
      rw [hcore]
      dsimp only
      by_cases ho : o = w.core.created
      · rw [ho, Function.update_self]
        rfl
      · rw [Function.update_of_ne ho]
        exact hs.queue o
  · have hh := hact.hushed ha (hs.queue o)
    have haff := w.core.objAct_affects o b c r
    rw [← hcore] at haff
    refine ⟨hempty, htunnel, fun x hx => ?_, fun k sid offset p hm => ?_,
      fun k sid offset hm => ?_, fun o' => ?_⟩
    · rcases hmem x hx with hx | hx
      · exact hs.broker x hx
      · rw [List.flatten_nil, List.append_nil] at hx
        obtain ⟨y, hy, rfl⟩ := List.mem_map.mp hx
        exact hh.push y hy
    · exact ((haff.links k).up _ hm).elim (hs.up k sid offset p) False.elim
    · exact ((haff.links k).down _ hm).elim (hs.down k sid offset) (hh.frames k sid offset)
    · rw [hcore, Core.objs_objAct]
      by_cases ho : o' = o
      · rw [ho, Function.update_self]
        exact hh.queue
      · rw [Function.update_of_ne ho]
        exact hs.queue o'
  · refine ⟨hempty, htunnel, fun x hx => ?_, fun k sid offset p hm => ?_,
      fun k sid offset hm => ?_, ?_⟩
    · exact (hmem x hx).elim (hs.broker x) (hdo.hushed hf.other ha hs.up x)
    · exact ((hf.links k).up _ hm).elim (hs.up k sid offset p) False.elim
    · rcases (hf.links k).down _ hm with hm | rfl
      · exact hs.down k sid offset hm
      · cases ha
    · rw [hf.objs]
      exact hs.queue

theorem Stranded.of_quiet (hs : Stranded w) (h : Quiet w w') : Stranded w' := by
  obtain ⟨ws, hpend, hws⟩ := h.pending
  constructor
  · rw [h.cs]
    exact hs.empty
  · rw [h.tunnel]
    exact hs.tunnel
  · rw [hpend, List.forall_mem_append]
    refine ⟨hs.broker, fun x hx => ?_⟩
    obtain ⟨o, -, rfl⟩ := hws x hx
    rfl
  · intro k sid offset p hm
    exact ((h.links k).up _ hm).elim (hs.up k sid offset p) False.elim
  · intro k sid offset hm
    exact ((h.links k).down _ hm).elim (hs.down k sid offset) False.elim
  · intro o
    obtain ⟨b, hb⟩ := h.objs o
    rw [hb]
    exact hs.queue o

theorem Stranded.step (hs : Stranded w) (h : step cfg w e = some w')
    (hm : conds.mover e ≠ some .proxy) :
    Stranded w' ∧ w'.core.cs.upBuf = w.core.cs.upBuf ∧
      (w.wakes e .proxy = true → w'.core.cs.dead = true) := by
  -- whoever moves but the writer itself, it stays where it is, and nobody wakes it who does
  -- not end the session
  cases e with
  | proxy c => exact absurd rfl hm
  | tunnel c =>
    obtain ⟨a, rest, push, spawn, ht, hr, ht', -, hts⟩ := step_tunnel h
    have hdo : SDoes w.core a w'.core push spawn := sexec_does hr
    obtain ⟨hs', hbuf⟩ := hs.of_tunnel hdo ht ht' hts
    refine ⟨hs', hbuf, fun hw => hdo.dead_mono ?_⟩
    have ha := hs.tunnel a (by simp [ht])
    simp only [System.wakes, ht, List.head?_cons, Option.any_some] at hw
    cases a with
    | closeAll => exact .inr rfl
    | onUpstreamAck => cases ha
    | _ => cases hw
  | broker i c =>
    refine ⟨hs.of_broker h, ?_, by simp [System.wakes]⟩
    rw [cs_broker h]
  | fire o =>
    refine ⟨hs.of_quiet (step_fire h), ?_, by simp [System.wakes]⟩
    rw [(step_fire h).cs]
  | cut k m n =>
    refine ⟨hs.of_quiet (step_cut h), ?_, by simp [System.wakes]⟩
    rw [(step_cut h).cs]

theorem dead_step_sidecar (h : Pair.step cfg w e = some w') (hd : w.core.cs.dead = true) :
    w'.core.cs.dead = true := by
  cases step_moves h with
  | sidecar _ a push spawn hdo => exact hdo.dead_mono (.inl hd)
  | broker i c => rw [cs_broker h]; exact hd
  | quiet _ hq => rw [hq.cs]; exact hd

/-- The writer sleeps where it has `l` to do, before a buffer `b` that is empty. -/
structure SleepsOn (l : List SAct) (b : ReplayBuffer) (v : System × (Sleeper → Bool)) : Prop where
  stranded : Stranded v.1
  asleep : v.2 .proxy = true
  proxy : v.1.proxy = l
  upBuf : v.1.core.cs.upBuf = b

theorem SleepsOn.step {l : List SAct} {b : ReplayBuffer} {v v' : System × (Sleeper → Bool)}
    {x : Event ⊕ Sleeper} (hI : SleepsOn l b v) (h : conds.step (Pair.step cfg) v x = some v') :
    v'.1.core.cs.dead = true ∨ SleepsOn l b v' := by
  obtain ⟨v, y⟩ := v
  obtain ⟨v', y'⟩ := v'
  obtain ⟨hs, hsleep, hproxy, hbuf⟩ := hI
  dsimp only at hs hsleep hproxy hbuf ⊢
  rcases Cond.step_cases h with ⟨e, rfl, ht, hmover, hy⟩ | ⟨i, rfl, rfl, hw, rfl⟩
  · have hm : conds.mover e ≠ some .proxy := by
      intro hm
      rw [hmover _ hm] at hsleep
      cases hsleep
    obtain ⟨hs', hbuf', hwake⟩ := hs.step ht hm
    by_cases hw : v.wakes e .proxy = true
    · exact .inl (hwake hw)
    · refine .inr ⟨hs', ?_, (proxy_step ht hm).trans hproxy, hbuf'.trans hbuf⟩
      dsimp only
      rw [hy, hsleep, Bool.true_and, Bool.not_eq_true']
      exact Bool.eq_false_iff.mpr hw
  · refine .inr ⟨hs, ?_, hproxy, hbuf⟩
    dsimp only
    by_cases hi : i = .proxy
    · rw [hi, Function.update_self]
    · rw [Function.update_of_ne (Ne.symm hi)]
      exact hsleep

end Stranded

/-- A wake-up that is lost for good: a writer that sleeps before an empty buffer while there is
neither DATA nor an ACK under way sleeps for ever, whatever reconnects, unless the session is closed.
Of what the agent has still to send nothing is taken. -/
theorem writer_sleeps_forever {cfg : Config} {w w' : System} {z z' : Sleeper → Bool}
    {xs : List (Event ⊕ Sleeper)} (hz : z .proxy = true) (hs : Stranded w)
    (hrun : run (conds.step (step cfg)) (w, z) xs = some (w', z')) :
    w'.core.cs.dead = true ∨
      z' .proxy = true ∧ w'.proxy = w.proxy ∧ w'.core.cs.upBuf = w.core.cs.upBuf := by
  have hstep (v : System × (Sleeper → Bool)) (x : Event ⊕ Sleeper) (v' : System × (Sleeper → Bool))
      (hI : v.1.core.cs.dead = true ∨ SleepsOn w.proxy w.core.cs.upBuf v)
      (h : conds.step (Pair.step cfg) v x = some v') :
      v'.1.core.cs.dead = true ∨ SleepsOn w.proxy w.core.cs.upBuf v' := by
    rcases hI with hd | hI
    · rcases Cond.step_cases h with ⟨e, -, ht, -⟩ | ⟨i, -, heq, -⟩
      · exact .inl (dead_step_sidecar ht hd)
      · exact .inl (heq ▸ hd)
    · exact hI.step h
  rcases run_preserves hstep (.inr ⟨hs, hz, rfl, rfl⟩) hrun with hd | hI
  · exact .inl hd
  · exact .inr ⟨hI.asleep, hI.proxy, hI.upBuf⟩

def stranding : List (Event ⊕ Sleeper) :=
  -- after `writerFull` the sidecar reconnects, and the broker answers its ATTACH
  writerFull ++ steps (tunnelSteps 5 ++ brokerSteps 2 8 ++ tunnelSteps 2)

theorem writer_sleeps_forever_stranding : ∃ w z,
    run (conds.step (step small)) (start small, fun _ => false) stranding = some (w, z) ∧
      w.core.cs.upBuf.buf = [] ∧ w.proxy = [.writeUp [5] none] ∧
      ∀ xs w' z', run (conds.step (step small)) (w, z) xs = some (w', z') →
        w'.core.cs.dead = true ∨ w'.proxy = [.writeUp [5] none] := by
  have hrun := (rfl : run (conds.step (step small)) (start small, fun _ => false) stranding = some _)
  refine ⟨_, _, hrun, rfl, rfl, fun xs w' z' h => ?_⟩
  refine (writer_sleeps_forever rfl ?_ h).imp_right fun h => h.2.1
  constructor
  · rfl
  · intro a ha
    have ha : a ∈ [SAct.readFrame 1] := ha
    rw [List.mem_singleton.mp ha]
    rfl
  · intro a ha
    have ha : a ∈ [BAct.readFrame 0, .act 0 .readUpstream, .readFrame 1] := ha
    simp only [List.mem_cons, List.not_mem_nil, or_false] at ha
    rcases ha with rfl | rfl | rfl <;> rfl
  · rintro (_ | _ | k) sid offset p hm <;> cases hm
  · rintro (_ | _ | k) sid offset hm <;> cases hm
  · rintro (_ | o) <;> rfl

end SubstratePoc.Pair
