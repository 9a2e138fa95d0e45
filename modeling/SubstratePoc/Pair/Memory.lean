import SubstratePoc.Lib.Keep
import SubstratePoc.Pair.AgentStream
import SubstratePoc.Pair.Trim

namespace SubstratePoc.Pair
open Lib Tunnel Broker Sidecar

/-! ## The replay buffers -/

theorem Does.max_downBuf {s : Session} {a : Act} {c : Choice} {r : Result} (h : Does s a c r) :
    r.s.downBuf.max = s.downBuf.max := by
  cases h with
  | produceDetached p after c b hp hd hf hb | produceSent p after b tc hp hd hf hb
  | produceLost p after n text b tc hp hd hf hb => exact (ReplayBuffer.append_eq_some hb).2.2
  | ackDrained | ackKept => exact ReplayBuffer.max_trimTo ..
  | _ => rfl

theorem SDoes.max_upBuf {w w' : Core} {a : SAct} {push : List SAct} {spawn : List (List BAct)}
    (h : SDoes w a w' push spawn) : w'.cs.upBuf.max = w.cs.upBuf.max := by
  cases h with
  | onAttachOK | onUpstreamAck => exact ReplayBuffer.max_trimTo ..
  | writeUp p err b n hb => exact (ReplayBuffer.append_eq_some hb).2.2
  | writeOk k m =>
    rw [Core.toBroker_eq]
    rfl
  | _ => rfl

/-- The buffers have the sizes that the two ends are configured with. -/
structure Sized (cfg : Config) (w : System) : Prop where
  up : w.core.cs.upBuf.max = cfg.sessionBuffer
  down : ∀ o, (w.core.objs o).s.downBuf.max = cfg.sessionBufferBytes

theorem sized_start (cfg : Config) : Sized cfg (start cfg) := ⟨rfl, fun _ => rfl⟩

theorem Sized.step {cfg : Config} {w w' : System} {e : Event} (hI : Sized cfg w)
    (h : step cfg w e = some w') : Sized cfg w' := by
  cases step_moves h with
  | sidecar _ a push spawn hs hrun hp =>
    refine ⟨hs.max_upBuf.trans hI.up, fun o => ?_⟩
    rw [hs.frame.objs]
    exact hI.down o
  | quiet _ hq =>
    refine ⟨hq.cs ▸ hI.up, fun o => ?_⟩
    obtain ⟨b, hb⟩ := hq.objs o
    rw [hb]
    exact hI.down o
  | broker i c a X Y push spawn hn hb ht hproxy hp hp' =>
    refine ⟨hb.sidecar_eq.1 ▸ hI.up, fun j => ?_⟩
    rcases hb.cases_session with ⟨k, target, rfl, hs, hcore, rfl, rfl⟩ |
      ⟨o, b, c, r, rfl, hr, hcore, rfl, rfl⟩ | hf
    · rw [hcore]
      by_cases hj : j = w.core.created
      · subst hj
        simp [Config.newObj, newSession, newReplayBuffer]
      · simpa [hj] using hI.down j
    · rw [hcore, Core.objs_objAct]
      obtain ⟨rfl, h⟩ | ⟨-, h⟩ := update_cases w.core.objs o ((w.core.objs o).after b c r) j <;> rw [h]
      · exact (Does.max_downBuf hr).trans (hI.down j)
      · exact hI.down j
    · rw [hf.objs]
      exact hI.down j

theorem sized_run {cfg : Config} {es : List Event} {w : System}
    (hrun : run (step cfg) (start cfg) es = some w) : Sized cfg w :=
  run_preserves (fun _ _ _ hI hs => hI.step hs) (sized_start cfg) hrun

/-! ## Bytes queued for a dial -/

def Act.writing : Act → Bool
  | .flush _ | .upWrite _ => true
  | _ => false

theorem Does.writing {s : Session} {a : Act} {c : Choice} {r : Result} (h : Does s a c r) :
    (s.connected = true → r.s.connected = true) ∧
    (∀ b ∈ r.push, Act.writing b = true → r.s.connected = true) ∧
    (Act.writing a = false → r.eff.flatMap Effect.bytes = []) := by
  cases h with
  | produceDone after => cases after <;> simp [After.acts, Act.writing]
  | produceDetached | produceLost =>
    dsimp only
    split_ifs <;> simp [Act.writing, Effect.bytes]
  | onDataAdmitted offset p c hd hc => simp [Act.writing, hc]
  | _ => simp [Act.writing, Effect.bytes]

theorem Does.preConn {s : Session} {a : Act} {c : Choice} {r : Result} (h : Does s a c r) :
    r.s.preConn.length ≤ s.preConn.length ∨ ∃ offset p, a = .onData offset p ∧ p ≠ [] ∧
      s.dead = false ∧ s.connected = false ∧ r.s.preConn.length ≤ offset + p.length := by
  cases h with
  | onDataQueued offset p c hd hc ho hl =>
    have hpos : s.position = s.upstreamWritten + s.preConn.length := if_neg (by simp [hc])
    by_cases hp : p = []
    · subst hp
      exact .inl (by simp)
    · refine .inr ⟨offset, p, rfl, hp, hd, hc, ?_⟩
      simp only [List.length_append, List.length_drop]
      omega
  | dialedFlush | dialedRead => exact .inl (Nat.zero_le _)
  | _ => exact .inl le_rfl

theorem BDoes.writing {cfg : Config} {w w' : Core} {a : BAct} {push : List BAct}
    {spawn : List (List BAct)} (h : BDoes cfg w a w' push spawn) (ha : ∀ o b, a ≠ .act o b) {o : ℕ}
    {b : Act} (hb : .act o b ∈ push ++ spawn.flatten) : Act.writing b = false := by
  cases h with
  | act j x => exact absurd rfl (ha j x)
  | handleFrame k m =>
    cases m <;> cases hs : w.sessions <;> simp [handle, hs] at hb <;> rw [hb.2] <;> rfl
  | attachSession =>
    simp only [List.flatten_nil, List.append_nil, List.mem_cons, List.not_mem_nil, or_false,
      BAct.act.injEq] at hb
    rcases hb with ⟨-, rfl⟩ | ⟨-, rfl⟩ <;> rfl
  | openSession | reattach | startDial | detachAll =>
    simp at hb
    rw [hb.2]
    rfl
  | _ => simp at hb

/-- A session is made only while no other session of its key has written to a destination. -/
def opensUnwritten (w : System) : Event → Bool
  | .broker i _ => match w.next i with
    | some (.openSession _ _) =>
      w.core.sessions.isSome || decide (∀ o < w.core.created, (w.core.objs o).dest = [])
    | _ => true
  | _ => true

/-- The sessions of a key before and after they are connected. -/
structure Queued (cfg : Config) (w : System) : Prop where
  bounded : ∀ o, (w.core.objs o).s.preConn.length ≤ cfg.sessionBuffer
  unwritten : ∀ o, (w.core.objs o).s.connected = false → (w.core.objs o).dest = []
  writes : ∀ o a, .act o a ∈ w.pending → Act.writing a = true →
    (w.core.objs o).s.connected = true
  spent : ∀ o, o + 1 < w.core.created → (w.core.objs o).dest = []

theorem queued_start (cfg : Config) : Queued cfg (start cfg) where
  bounded o := Nat.zero_le _
  unwritten o _ := rfl
  writes o a h := by cases h
  spent o h := absurd h (Nat.not_lt_zero _)

section Step
variable {cfg : Config} {S : Bytes} {w w' : System} {e : Event}

theorem Streamed.le_of_next (hI : Streamed S w) {i o offset : ℕ} {p : Bytes}
    (hn : w.next i = some (.act o (.onData offset p))) (hp : p ≠ []) :
    offset + p.length ≤ w.core.cs.upBuf.endOffset := by
  obtain ⟨t, ht, hhead⟩ := Option.bind_eq_some_iff.mp hn
  obtain ⟨rest, rfl⟩ := List.head?_eq_some_iff.mp hhead
  have hpiece : Agrees S offset p :=
    hI.lines _ (List.mem_of_getElem? ht) (some (offset, p)) (List.mem_cons_self ..)
  have hle := List.IsPrefix.length_le hpiece
  have hpos := List.length_pos_iff.mpr hp
  rw [hI.retains.endOffset_eq]
  rw [List.length_drop] at hle
  omega

theorem Queued.of_quiet (hI : Queued cfg w) (hcreated : w'.core.created = w.core.created)
    (hobjs : ∀ o, ∃ b, w'.core.objs o =
      { w.core.objs o with s := { (w.core.objs o).s with watchdog := b } })
    (hpending : ∀ o a, .act o a ∈ w'.pending → .act o a ∈ w.pending ∨ Act.writing a = false) :
    Queued cfg w' := by
  refine ⟨fun o => ?_, fun o ho => ?_, fun o a ha hw => ?_, fun o ho => ?_⟩ <;>
    obtain ⟨b, hb⟩ := hobjs o
  · rw [hb]
    exact hI.bounded o
  · rw [hb] at ho ⊢
    exact hI.unwritten o ho
  · rw [hb]
    exact hI.writes o a ((hpending o a ha).resolve_right (by simp [hw])) hw
  · rw [hb]
    exact hI.spent o (hcreated ▸ ho)

theorem Queued.of_openSession (hI : Queued cfg w) (hK : Keyed w) {target : Bytes}
    (hcreated : w'.core.created = w.core.created + 1)
    (hobjs : w'.core.objs = Function.update w.core.objs w.core.created (cfg.newObj target))
    (hpending : ∀ o a, .act o a ∈ w'.pending → .act o a ∈ w.pending ∨ Act.writing a = false)
    (hdest : ∀ o < w.core.created, (w.core.objs o).dest = []) : Queued cfg w' := by
  have hcases (o : ℕ) := update_cases w.core.objs w.core.created (cfg.newObj target) o
  rw [← hobjs] at hcases
  refine ⟨fun o => ?_, fun o ho => ?_, fun o a ha hw => ?_, fun o ho => ?_⟩ <;>
    obtain ⟨rfl, h⟩ | ⟨-, h⟩ := hcases o
  · rw [h]
    exact Nat.zero_le _
  · rw [h]
    exact hI.bounded o
  · rw [h]
    rfl
  · rw [h] at ho ⊢
    exact hI.unwritten o ho
  · have := hK.named _ ((hpending _ a ha).resolve_right (by simp [hw])) _ rfl
    exact absurd this (lt_irrefl _)
  · rw [h]
    exact hI.writes o a ((hpending o a ha).resolve_right (by simp [hw])) hw
  · omega
  · rw [h]
    exact hdest o (by omega)

/-- What is queued for a dial is a part of what the sidecar has in its buffer: the session is the
only one that could have written, and it has not. -/
theorem Queued.le_sessionBuffer (hI : Queued cfg w) (hK : Keyed w) (hZ : Sized cfg w)
    (hS : Streamed S w)
    (hU : (∀ o < w.core.created, (w.core.objs o).dest = []) → Untrimmed w) {i o offset : ℕ}
    {p : Bytes} (hn : w.next i = some (.act o (.onData offset p)))
    (hmem : .act o (.onData offset p) ∈ w.pending) (hne : p ≠ [])
    (hd : (w.core.objs o).s.dead = false) (hc : (w.core.objs o).s.connected = false) :
    offset + p.length ≤ cfg.sessionBuffer := by
  have hdest : ∀ j < w.core.created, (w.core.objs j).dest = [] := by
    intro j hj
    by_cases hlast : j + 1 < w.core.created
    · exact hI.spent j hlast
    · have := (hK.of_alive (hK.named _ hmem o rfl) hd).2
      obtain rfl : j = o := by omega
      exact hI.unwritten j hc
  calc offset + p.length
      ≤ w.core.cs.upBuf.endOffset := hS.le_of_next hn hne
    _ = w.core.cs.upBuf.buf.length := by
      rw [ReplayBuffer.endOffset, (hU hdest).base, Nat.zero_add]
    _ ≤ w.core.cs.upBuf.max := w.core.cs.upBuf.le_max
    _ = cfg.sessionBuffer := hZ.up

theorem Queued.of_act (hI : Queued cfg w) (hK : Keyed w) (hZ : Sized cfg w) (hS : Streamed S w)
    (hU : (∀ o < w.core.created, (w.core.objs o).dest = []) → Untrimmed w) {i o : ℕ} {a : Act}
    {c : Choice} {r : Result} {X Y : List BAct} (hn : w.next i = some (.act o a))
    (hr : Does (w.core.objs o).s a c r) (hcore : w'.core = w.core.objAct o a c r)
    (hp : w.pending = X ++ .act o a :: Y) (hp' : w'.pending = X ++ (r.push.map (.act o) ++ Y)) :
    Queued cfg w' := by
  have hmem : .act o a ∈ w.pending := by simp [hp]
  have hcreated : w'.core.created = w.core.created := by
    rw [hcore]
    exact (w.core.objAct_affects o a c r).created
  have hobjs : w'.core.objs = Function.update w.core.objs o ((w.core.objs o).after a c r) := by
    rw [hcore, Core.objs_objAct]
  have hcases (j : ℕ) := update_cases w.core.objs o ((w.core.objs o).after a c r) j
  rw [← hobjs] at hcases
  obtain ⟨hconn, hpush, hbytes⟩ := Does.writing hr
  refine ⟨fun j => ?_, fun j hj => ?_, fun j b hb hw => ?_, fun j hj => ?_⟩
  · obtain ⟨rfl, h⟩ | ⟨-, h⟩ := hcases j <;> rw [h]
    · refine (Does.preConn hr).elim (·.trans (hI.bounded j)) ?_
      rintro ⟨offset, p, rfl, hne, hd, hc, hle⟩
      exact hle.trans (hI.le_sessionBuffer hK hZ hS hU hn hmem hne hd hc)
    · exact hI.bounded j
  · obtain ⟨rfl, h⟩ | ⟨-, h⟩ := hcases j <;> rw [h] at hj ⊢
    · have hold : (w.core.objs j).s.connected = false := by
        by_contra hc
        rw [Obj.after, hconn (by simpa using hc)] at hj
        cases hj
      have hnw : Act.writing a = false := by
        by_contra hw
        rw [hI.writes j a hmem (by simpa using hw)] at hold
        cases hold
      rw [Obj.after, hI.unwritten j hold, hbytes hnw, List.append_nil]
    · exact hI.unwritten j hj
  · rw [hp'] at hb
    rcases mem_of_replace (a := .act o a) hb with hnew | hold
    · obtain ⟨x, hx, heq⟩ := List.mem_map.mp hnew
      obtain ⟨rfl, rfl⟩ := BAct.act.inj heq
      simp only [hobjs, Function.update_self, Obj.after]
      exact hpush x hx hw
    · have hc := hI.writes j b (hp ▸ hold) hw
      obtain ⟨rfl, h⟩ | ⟨-, h⟩ := hcases j <;> rw [h]
      · exact hconn hc
      · exact hc
  · rw [hcreated] at hj
    obtain ⟨rfl, h⟩ | ⟨-, h⟩ := hcases j <;> rw [h]
    · rw [Obj.after, hI.spent j hj, hr.bytes_of_dead (hK.earlier j hj), List.append_nil]
    · exact hI.spent j hj

theorem Queued.step (hI : Queued cfg w) (hK : Keyed w) (hZ : Sized cfg w) (hS : Streamed S w)
    (hU : (∀ o < w.core.created, (w.core.objs o).dest = []) → Untrimmed w)
    (he : opensUnwritten w e = true) (h : step cfg w e = some w') : Queued cfg w' := by
  cases step_moves h with
  | sidecar _ a push spawn hs hrun hp =>
    have hf := hs.frame
    refine hI.of_quiet hf.created (fun o => ⟨_, by rw [hf.objs]⟩) fun o b hb => .inl ?_
    rw [hp, List.mem_append] at hb
    refine hb.resolve_right fun hb => ?_
    obtain ⟨k, hk, -⟩ := hf.spawn _ hb
    cases hk
  | quiet _ hq =>
    obtain ⟨ws, hp, hws⟩ := hq.pending
    refine hI.of_quiet hq.created hq.objs fun o b hb => ?_
    rw [hp, List.mem_append] at hb
    refine hb.imp id fun hb => ?_
    obtain ⟨j, -, hj⟩ := hws _ hb
    rw [(BAct.act.inj hj).2]
    rfl
  | broker i c a X Y push spawn hn hb ht hproxy hp hp' =>
    have hpending (ha : ∀ o b, a ≠ .act o b) (o : ℕ) (b : Act) (hmem : .act o b ∈ w'.pending) :
        .act o b ∈ w.pending ∨ Act.writing b = false :=
      (mem_pending_of_replace hp hp' _ hmem).imp id (hb.writing ha)
    rcases hb.cases_session with ⟨k, target, rfl, hs, hcore, rfl, rfl⟩ |
      ⟨o, b, c, r, rfl, hr, hcore, rfl, rfl⟩ | hf
    · refine hI.of_openSession hK (by rw [hcore]) (by rw [hcore]) (hpending (by simp)) ?_
      simpa [opensUnwritten, hn, hs] using he
    · rw [List.flatten_nil, List.append_nil] at hp'
      exact hI.of_act hK hZ hS hU hn hr hcore hp hp'
    · exact hI.of_quiet hf.created (fun o => ⟨_, by rw [hf.objs]⟩) (hpending hf.other)

end Step

theorem queued_run {cfg : Config} {es : List Event} {w : System}
    (hrun : run (step cfg) (start cfg) es = some w)
    (hes : Along (step cfg) (fun w e => opensUnwritten w e = true) (start cfg) es) :
    Queued cfg w := by
  have hI : Queued cfg w ∧ Keyed w ∧ Sized cfg w ∧ (∃ S, Streamed S w) ∧
      ((∀ o < w.core.created, (w.core.objs o).dest = []) → Untrimmed w) := by
    refine run_invariant (I := fun w => Queued cfg w ∧ Keyed w ∧ Sized cfg w ∧ (∃ S, Streamed S w) ∧
      ((∀ o < w.core.created, (w.core.objs o).dest = []) → Untrimmed w)) ?_
      ⟨queued_start cfg, keyed_start cfg, sized_start cfg, ⟨[], streamed_start cfg⟩,
        fun _ => untrimmed_start cfg⟩ hes hrun
    rintro w e w' ⟨hI, hK, hZ, ⟨S, hS⟩, hU⟩ he h
    refine ⟨hI.step hK hZ hS hU he h, hK.step h, hZ.step h, ⟨_, hS.step h⟩, fun hw => ?_⟩
    exact (hU (dest_eq_nil_of_step hw h)).step hK hw h
  exact hI.1

/-- The replay buffers stay within their sizes and `Append` is never asked for more than is free; a
full buffer blocks.  `preConn` stays within the sidecar's buffer size if a session is made only
while no other session of its key has written to a destination. -/
theorem memory_bounded {cfg : Config} {es : List Event} {w : System}
    (hrun : run (step cfg) (start cfg) es = some w) :
    (∀ o, (w.core.objs o).s.downBuf.len ≤ cfg.sessionBufferBytes) ∧
    w.core.cs.upBuf.len ≤ cfg.sessionBuffer ∧
    (Along (step cfg) (fun w e => opensUnwritten w e = true) (start cfg) es →
      ∀ o, (w.core.objs o).s.preConn.length ≤ cfg.sessionBuffer) ∧
    (∀ o p, (w.core.objs o).s.produce p ≠ none) ∧ (∀ p, w.core.cs.writeUp p ≠ none) ∧
    (∀ o p after c, p ≠ [] → (w.core.objs o).s.dead = false → (w.core.objs o).s.downBuf.free = 0 →
      exec (w.core.objs o).s (.produce p after) c = none) ∧
    ∀ p err c, p ≠ [] → w.core.cs.dead = false → w.core.cs.upBuf.free = 0 →
      sexec w.core (.writeUp p err) c = none := by
  have hZ := sized_run hrun
  refine ⟨fun o => ?_, ?_, fun hes => (queued_run hrun hes).bounded, fun o p => ?_, fun p => ?_,
    fun o p after c hp hd hf => ?_, fun p err c hp hd hf => ?_⟩
  · rw [← hZ.down o]
    exact (w.core.objs o).s.downBuf.le_max
  · rw [← hZ.up]
    exact w.core.cs.upBuf.le_max
  · obtain ⟨b, hb⟩ := (w.core.objs o).s.downBuf.append_take_free p
    simp [Session.produce, Session.nextChunk, hb]
  · obtain ⟨b, hb⟩ := w.core.cs.upBuf.append_take_free p
    simp [ClientSession.writeUp, ClientSession.nextChunk, hb]
  · simp [exec, execProduce, hp, hd, hf]
  · simp [sexec, hp, hd, hf]

def queueing : List Event :=
  -- the agent's bytes wait for the dial
  opening ++ .proxy (.read [1, 2, 3, 4] none) :: List.replicate 3 (.proxy .ok) ++ brokerSteps 0 3

theorem memory_bounded_queueing : ∃ w, run (step small) (start small) queueing = some w ∧
    (w.core.objs 0).s.preConn = [1, 2, 3, 4] ∧
    (w.core.objs 0).s.preConn.length ≤ small.sessionBuffer ∧
    w.core.cs.upBuf.len ≤ small.sessionBuffer := by
  have hrun := (rfl : run (step small) (start small) queueing = some _)
  have hes : Along (step small) (fun w e => opensUnwritten w e = true) (start small) queueing := by
    decide
  obtain ⟨-, hup, hpre, -⟩ := memory_bounded hrun
  exact ⟨_, hrun, rfl, hpre hes 0, hup⟩

def reattaching : List Event :=
  -- the sidecar gives up a connection, makes another and attaches at offset zero
  .tunnel (.fail 0 []) :: tunnelSteps 5

def queuedTwice : List Event := List.flatten
  -- four bytes are sent on two connections and acknowledged, and four more go after them on
  -- the second. The session ends while the frames on the second connection are still to be
  -- read; the sidecar, which has delivered nothing, has it made again, and the old frames are
  -- queued for it
  [opening, brokerSteps 1 2, [.proxy (.read [1, 2, 3, 4] none)], List.replicate 4 (.proxy .ok),
    [.proxy (.read [5, 6, 7, 8] none)], reattaching, brokerSteps 2 8, tunnelSteps 4,
    brokerSteps 0 7, tunnelSteps 2, List.replicate 3 (.proxy .ok), reattaching, brokerSteps 3 8,
    [.proxy .ok, .proxy (.read [] (some .eof))], List.replicate 4 (.proxy .ok), brokerSteps 3 5,
    [.broker 1 (.read [] (some .eof))], brokerSteps 1 7, reattaching, brokerSteps 4 7,
    brokerSteps 2 6]

theorem preConn_exceeds_queuedTwice : ∃ w, run (step small) (start small) queuedTwice = some w ∧
    (w.core.objs 1).s.preConn = [1, 2, 3, 4, 5, 6, 7, 8] ∧ small.sessionBuffer = 4 := by
  refine ⟨_, rfl, ?_, rfl⟩
  decide

end SubstratePoc.Pair
