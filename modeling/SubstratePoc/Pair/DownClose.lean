import SubstratePoc.Pair.DownLine
import SubstratePoc.Pair.ReaderEnd

namespace SubstratePoc.Pair
open Lib Tunnel Broker Sidecar

/-! ## When the end of input comes last -/

def closesDown : Msg → Bool
  | .close _ dir _ => dir = dirDown
  | _ => false

/-- Nobody reads the destination any more, and the sidecar will have delivered all that was read
from it when it has taken what is on its way to it. -/
def System.drained (w : System) : Bool := w.pending.all (!·.reading) &&
  (w.core.objs 0).read.length ≤ spliceAll w.reach w.downLine.reduceOption

/-- A CLOSE(DirDown) enters the connection that the sidecar reads when the output is drained. -/
def System.closesBehind (w : System) (c : Choice) (k : ConnId) (m : Msg) : Bool :=
  !closesDown m || c ≠ .ok || !w.tunnel.contains (.readFrame k) || (w.core.links k).closed ||
    w.drained

/-- The only session is made, and made when no CLOSE is on its way to the sidecar. -/
def System.opensFirst (cfg : Config) (w : System) (target : Bytes) : Bool :=
  !cfg.allowTarget target || w.core.sessions.isSome ||
    (w.core.created = 0 && !w.downLine.contains none)

def System.endsInTurn (cfg : Config) (w : System) (c : Choice) : BAct → Bool
  | .act _ (.write k m) | .reply k m => w.closesBehind c k m
  | .openSession _ target => w.opensFirst cfg target
  | _ => true

def endsLast (cfg : Config) (w : System) : Event → Bool
  | .broker i c => flushes w (.broker i c) && (w.next i).all (w.endsInTurn cfg c)
  | _ => true

/-! ## One step -/

theorem SDoes.agentOK {cw cw' : Core} {a : SAct} {push : List SAct} {spawn : List (List BAct)}
    (h : SDoes cw a cw' push spawn) (hok : cw'.agentOK = true) : cw.agentOK = true := by
  cases h with
  | agentWriteFail => cases hok
  | writeOk k m =>
    rw [Core.toBroker_eq] at hok
    exact hok
  | _ => exact hok

section Step
variable {cfg : Config} {w w' : System} {e : Event}

theorem created_step (hc : endsLast cfg w e = true) (h : step cfg w e = some w') :
    w'.core.created = w.core.created ∨ w.core.created = 0 ∧ w'.core.created = 1 ∧
      none ∉ w.downLine ∧ ∃ i c k target, e = .broker i c ∧
        w.next i = some (.openSession k target) := by
  cases e with
  | tunnel c =>
    obtain ⟨a, rest, push, spawn, -, hr, -⟩ := step_tunnel h
    exact .inl (sexec_does hr).frame.created
  | proxy c =>
    obtain ⟨a, rest, push, spawn, -, hr, -⟩ := step_proxy h
    exact .inl (sexec_does hr).frame.created
  | fire o => exact .inl (step_fire h).created
  | cut k m n => exact .inl (step_cut h).created
  | broker i c =>
    obtain ⟨a, -, -, push, spawn, hn, hr, -⟩ := step_bexec h
    refine (bexec_created hr).imp id ?_
    rintro ⟨k, target, rfl, hallow, hs, hcreated⟩
    simp only [endsLast, hn, Option.all_some, System.endsInTurn, System.opensFirst, hallow, hs,
      Bool.not_true, Option.isSome_none, Bool.false_or, Bool.and_eq_true, decide_eq_true_eq,
      Bool.not_eq_true', List.contains_eq_mem, decide_eq_false_iff_not] at hc
    refine ⟨hc.2.1, ?_, hc.2.2, i, c, k, target, rfl, hn⟩
    rw [show w'.core.created = w.core.created + 1 from hcreated, hc.2.1]

/-- A CLOSE enters the sidecar's line when the output is drained. -/
theorem drained_of_sent {i : ℕ} {c : Choice} {a : BAct} {k : ConnId} {m : Msg}
    (hc : endsLast cfg w (.broker i c) = true) (hn : w.next i = some a)
    (hk : .readFrame k ∈ w.tunnel)
    (hm : ((∃ o, a = .act o (.write k m)) ∨ a = .reply k m) ∧ c = .ok ∨ none ∉ item dirDown m)
    (hopen : (w.core.links k).closed = false) (hmark : none ∈ item dirDown m) :
    w.drained = true := by
  obtain ⟨ha, rfl⟩ := hm.resolve_right fun h => h hmark
  have hclose : closesDown m = true := by
    cases m with
    | close sid dir reason =>
      simp only [item] at hmark
      split_ifs at hmark with hd
      · simp [closesDown, hd]
      · cases hmark
    | _ => simp [item] at hmark
  have hbehind : w.closesBehind .ok k m = true := by
    rcases ha with ⟨o, rfl⟩ | rfl
    · simpa [endsLast, flushes, Act.flushes, hn, System.endsInTurn] using hc
    · simpa [endsLast, flushes, hn, System.endsInTurn] using hc
  simpa [System.closesBehind, hclose, hk, hopen] using hbehind

/-! ## The end of input comes last -/

/-- Every CLOSE on its way to the sidecar comes when the destination has been read to its end and
the agent has it all. -/
structure Ending (w : System) : Prop where
  ended : none ∈ w.downLine → ∀ b ∈ w.pending, b.reading = false
  marked : Marked (w.core.objs 0).read.length w.reach w.downLine

theorem dead_of_dropped (hL : Unopened w ∨ Listed w) {k : ConnId}
    (hl : w.core.listed = false) (hd : (w.core.links k).down ≠ []) : w.core.cs.dead = true := by
  rcases hL with hL | hL
  · exact absurd (hL.links k).2.1 hd
  · rcases hL.listed with h | h
    · rw [hl] at h
      cases h
    · exact h

theorem Ending.settled (hI : Ending w) (hS : Steered w) (hL : Unopened w ∨ Listed w)
    (hd : w.core.cs.dead = false) (hc : endsLast cfg w e = true) (h : step cfg w e = some w')
    (hmark : none ∈ w'.downLine) :
    (∀ b ∈ w.pending, b.reading = false) ∧ w'.core.created = w.core.created := by
  -- with a CLOSE on its way nothing is read any more, and no session is made
  have hcreated : none ∈ w.downLine → w'.core.created = w.core.created := fun hm =>
    (created_step hc h).resolve_right fun hnew => hnew.2.2.1 hm
  cases hS.advance h with
  | kept hk =>
    have hm := hk.subset hmark
    exact ⟨hI.ended hm, hcreated hm⟩
  | delivered c he offset p ht hl =>
    have hm : none ∈ w.downLine := hl ▸ List.mem_cons_of_mem _ hmark
    exact ⟨hI.ended hm, hcreated hm⟩
  | closed hl =>
    have hm : none ∈ w.downLine := hl ▸ List.mem_cons_self ..
    exact ⟨hI.ended hm, hcreated hm⟩
  | dropped k ht hl hdown =>
    rw [dead_of_dropped hL hl hdown] at hd
    cases hd
  | sent i c he a hn k hk m hm hopen hl =>
    subst he
    rw [hl, List.mem_append] at hmark
    rcases hmark with hmark | hmark
    · exact ⟨hI.ended hmark, hcreated hmark⟩
    · have hdrained := drained_of_sent hc hn hk hm hopen hmark
      rw [System.drained, Bool.and_eq_true, List.all_eq_true] at hdrained
      refine ⟨fun b hb => by simpa using hdrained.1 b hb, ?_⟩
      refine (created_step hc h).resolve_right ?_
      rintro ⟨-, -, -, i', c', j, target, he, hn'⟩
      cases he
      obtain ⟨ha, -⟩ := hm.resolve_right fun hno => hno hmark
      rw [hn] at hn'
      rcases ha with ⟨o, rfl⟩ | rfl <;> cases hn'

theorem Ending.step {P P' : Bytes} (hI : Ending w) (hS : Steered w) (hL : Unopened w ∨ Listed w)
    (hD : Delivering P w) (hD' : Delivering P' w') (hd : w.core.cs.dead = false)
    (hok : w'.core.agentOK = true) (hc : endsLast cfg w e = true)
    (h : Pair.step cfg w e = some w') : Ending w' := by
  have hsettled := hI.settled hS hL hd hc h
  refine ⟨fun hmark b hb => ?_, ?_⟩
  · obtain ⟨hgone, hcreated⟩ := hsettled hmark
    by_contra hr
    rcases reading_step h hb (by simpa using hr) with ⟨a, ha, har, -⟩ | ⟨-, hnew⟩
    · rw [hgone a ha] at har
      cases har
    · omega
  by_cases hmark : none ∈ w'.downLine
  swap
  · exact marked_of_notMem hmark
  obtain ⟨hgone, hcreated⟩ := hsettled hmark
  have hread : (w'.core.objs 0).read = (w.core.objs 0).read := by
    by_cases h0 : w.core.created = 0
    · rw [hD.reader.unborn h0, hD'.reader.unborn (hcreated.trans h0)]
    · refine (read_step h (Nat.pos_of_ne_zero h0)).resolve_right ?_
      rintro ⟨a, ha, har, -⟩
      rw [hgone a ha] at har
      cases har
  obtain ⟨hreach, htaken⟩ := reach_step hD hd hok h
  rw [hread]
  cases hS.advance h with
  | kept hk => exact (hI.marked.of_isPrefix hk).mono hreach
  | delivered c he offset p ht hl =>
    have hm := hI.marked
    rw [hl, Marked] at hm
    exact hm.mono (htaken offset p c he ht)
  | closed hl =>
    have hm := hI.marked
    rw [hl] at hm
    exact hm.2.mono hreach
  | dropped k ht hl hdown =>
    rw [dead_of_dropped hL hl hdown] at hd
    cases hd
  | sent i c he a hn k hk m hm hopen hl =>
    subst he
    rw [hl]
    refine (marked_append.mpr ⟨hI.marked, ?_⟩).mono hreach
    by_cases hitem : none ∈ item dirDown m
    · have hdrained := drained_of_sent hc hn hk hm hopen hitem
      rw [System.drained, Bool.and_eq_true, decide_eq_true_eq] at hdrained
      rcases item_eq dirDown m with hnil | ⟨x, hx⟩
      · rw [hnil]
        trivial
      · rw [hx] at hitem ⊢
        rw [← List.mem_singleton.mp hitem]
        exact ⟨hdrained.2, trivial⟩
    · exact marked_of_notMem hitem

/-- Everything that is known of a run whose steps all meet the condition. -/
structure Draining (T : List ℕ) (w : System) : Prop where
  keyed : Keyed w
  steered : Steered w
  listed : Unopened w ∨ Listed w
  one : w.core.created ≤ 1
  delivering : w.Alive → ∃ P, Delivering P w
  readsOn : w.Alive → ReadsOn T w
  ending : w.Alive → w.core.cs.dead = false → w.core.agentOK = true → Ending w

theorem draining_start (cfg : Config) : Draining [] (start cfg) where
  keyed := keyed_start cfg
  steered := steered_start cfg
  listed := .inl (unopened_start cfg)
  one := Nat.zero_le 1
  delivering _ := ⟨[], delivering_start cfg⟩
  readsOn _ := readsOn_start cfg
  ending _ _ _ := ⟨(fun h => nomatch h), trivial⟩

theorem side_step (h : step cfg w e = some w') :
    (w'.core.cs.dead = false → w.core.cs.dead = false) ∧
      (w'.core.agentOK = true → w.core.agentOK = true) := by
  cases step_moves h with
  | sidecar _ a push spawn hs hrun hp =>
    refine ⟨fun hd => ?_, hs.agentOK⟩
    by_contra hdead
    rw [hs.listed.1 (by simpa using hdead)] at hd
    cases hd
  | quiet _ hq =>
    rw [hq.cs, hq.agentOK]
    exact ⟨id, id⟩
  | broker i c a X Y push spawn hn hb ht hproxy hp hp' =>
    obtain ⟨hcs, -, hok⟩ := hb.sidecar_eq
    rw [hcs, hok]
    exact ⟨id, id⟩

theorem Draining.step {T : List ℕ} (hI : Draining T w) (hc : endsLast cfg w e = true)
    (h : Pair.step cfg w e = some w') : Draining (T ++ ends w e) w' := by
  have hf : flushes w e = true := by
    cases e with
    | broker i c =>
      rw [endsLast, Bool.and_eq_true] at hc
      exact hc.1
    | _ => rfl
  have hdel : w'.Alive → ∃ P', Delivering P' w' := by
    intro hw'
    have hw := hw'.of_step h
    obtain ⟨P, hP⟩ := hI.delivering hw
    obtain ⟨Q, hQ⟩ := hP.step hI.keyed hw h
    exact ⟨P ++ Q, hQ⟩
  refine ⟨hI.keyed.step h, hI.steered.step h, listed_step hI.listed h, ?_, hdel, ?_, ?_⟩
  · have hone := hI.one
    rcases created_step hc h with hcreated | ⟨-, hcreated, -⟩ <;> omega
  · intro hw'
    have hw := hw'.of_step h
    obtain ⟨P, hP⟩ := hI.delivering hw
    exact (hI.readsOn hw).step hI.keyed (hP.reader.once.trans hI.one) hf h
  · intro hw' hd hok
    have hw := hw'.of_step h
    obtain ⟨P, hP⟩ := hI.delivering hw
    obtain ⟨P', hP'⟩ := hdel hw'
    obtain ⟨hdead, hagent⟩ := side_step h
    exact (hI.ending hw (hdead hd) (hagent hok)).step hI.steered hI.listed hP hP' (hdead hd) hok hc h

/-- At the CLOSE the agent has all that has been read, and nobody reads any more. -/
theorem Draining.agent_eq {T : List ℕ} (hI : Draining T w) (hw : w.Alive)
    (hd : w.core.cs.dead = false) (hn : w.tunnel.head? = some (.onClose dirDown)) :
    w.core.cs.downDelivered = (w.core.objs 0).read.length ∧
      w.core.agent = (w.core.objs 0).read ∧ ∀ b ∈ w.pending, b.reading = false := by
  obtain ⟨P, hP⟩ := hI.delivering hw
  obtain ⟨rest, ht⟩ := List.head?_eq_some_iff.mp hn
  have hidle : Idle P w.core := by
    have hphase := hP.phase
    rw [hn] at hphase
    exact hphase
  have hok : w.core.agentOK = true := by
    by_contra hok
    rw [hidle.dead_of_failed (by simpa using hok)] at hd
    cases hd
  have hE := hI.ending hw hd hok
  have hline : w.downLine = none :: rest.flatMap (SAct.items w.core) := by
    rw [System.downLine, ht]
    rfl
  have hmarked := hE.marked
  rw [hline] at hmarked
  have hreach : w.reach = w.core.cs.downDelivered := by
    have hrest : (rest.map SAct.carrying).sum = 0 :=
      sum_carrying_eq_zero fun b hb => hP.tail b (by simpa [ht] using hb)
    rw [System.reach, ht, List.map_cons, List.sum_cons, hrest]
    rfl
  have hle : (w.core.objs 0).read.length ≤ w.core.cs.downDelivered := hreach ▸ hmarked.1
  have hPread := hP.reader.isPrefix
  have hlen := hP.le_length
  obtain rfl : P = (w.core.objs 0).read := hPread.eq_of_length_le (hle.trans hlen)
  refine ⟨hlen.antisymm hle, ?_, hE.ended (hline ▸ List.mem_cons_self ..)⟩
  rw [hidle.exact_of_ok hok, List.take_of_length_le hle]

end Step

/-- When the sidecar half-closes the agent's connection, the agent has the whole output of the
destination: all that any continuation of the run reads from it, up to the error that ended it. -/
theorem agent_eq_of_endsLast {cfg : Config} {es es' : List Event} {w w' : System} {o : ℕ}
    (hes : Along (step cfg) (fun w e => endsLast cfg w e = true) (start cfg) es)
    (hrun : run (step cfg) (start cfg) es = some w) (hs : w.core.sessions = some o)
    (ho : (w.core.objs o).s.dead = false) (hd : w.core.cs.dead = false)
    (hn : w.tunnel.head? = some (.onClose dirDown)) (hrun' : run (step cfg) w es' = some w') :
    w.core.cs.downDelivered = (w'.core.objs o).read.length ∧
      w.core.agent = (w'.core.objs o).read ∧
      ((w.core.objs o).s.upstream = true → o ∈ trace (step cfg) ends (start cfg) es) := by
  have hI : Draining (trace (step cfg) ends (start cfg) es) w :=
    run_trace_invariant (I := fun w T => Draining T w) (fun _ _ _ _ hI hc h => hI.step hc h)
      (draining_start cfg) hes hrun
  have hlast := hI.keyed.latest o hs
  have hone := hI.one
  obtain rfl : o = 0 := by omega
  have hw : w.Alive := by
    intro j hj
    obtain rfl : j = 0 := by omega
    exact ho
  obtain ⟨hlen, hagent, hgone⟩ := hI.agent_eq hw hd hn
  have hread : (w'.core.objs 0).read = (w.core.objs 0).read :=
    ReaderGone.read_run ⟨by omega, fun b hb _ => hgone b hb⟩ hrun'
  rw [hread]
  refine ⟨hlen, hagent, fun hu => ?_⟩
  refine ((hI.readsOn hw).reads 0 (by omega) hu ho).resolve_left ?_
  rintro ⟨b, hb, hr, -⟩
  rw [hgone b hb] at hr
  cases hr

def answeredDetached : List Event := List.flatten
  -- the destination answers and ends its stream while the actor is suspended: the sidecar
  -- dials again, and the answer is in the broker's buffer
  [opening, brokerSteps 1 2, [.cut 0 0 0, .tunnel (.fail 0 [])], tunnelSteps 5,
    [.broker 0 (.fail 0 [])], brokerSteps 0 3, [.broker 1 (.read [1, 2] (some .eof))],
    brokerSteps 1 1]

def endedInTurn : List Event := List.flatten
  -- the attach replays the answer and then sends the CLOSE
  [answeredDetached, brokerSteps 1 3, brokerSteps 2 12, tunnelSteps 9]

theorem agent_eq_endedInTurn : ∃ w, run (step small) (start small) endedInTurn = some w ∧
    w.tunnel.head? = some (.onClose dirDown) ∧ w.core.agent = [1, 2] ∧
    w.core.cs.downDelivered = (w.core.objs 0).read.length ∧
    0 ∈ trace (step small) ends (start small) endedInTurn := by
  have hrun := (rfl : run (step small) (start small) endedInTurn = some _)
  have hes : Along (step small) (fun w e => endsLast small w e = true) (start small)
      endedInTurn := by decide
  obtain ⟨hlen, hagent, hend⟩ :=
    agent_eq_of_endsLast (o := 0) hes hrun rfl rfl rfl rfl (rfl : run (step small) _ [] = some _)
  exact ⟨_, hrun, rfl, hagent, hlen, hend rfl⟩

def closedByWriter : List Event := List.flatten
  -- a write to the destination fails while its answer has been read and not been sent
  [opening, brokerSteps 1 2, .proxy (.read [7] none) :: List.replicate 3 (.proxy .ok),
    [.broker 1 (.read [1, 2] none)], brokerSteps 0 3, [.broker 0 (.fail 0 [])], brokerSteps 0 3,
    tunnelSteps 1]

def closedBeforeAttached : List Event := List.flatten
  -- the reader comes to the end between the bind of an attach and its replay
  [answeredDetached, brokerSteps 2 5, brokerSteps 1 4, tunnelSteps 1]

theorem agent_ne_closedByWriter :
    (∃ w, run (step small) (start small) closedByWriter = some w ∧ w.core.sessions = some 0 ∧
      (w.core.objs 0).s.dead = false ∧ w.core.cs.dead = false ∧
      w.tunnel.head? = some (.onClose dirDown) ∧ w.core.agent = [] ∧
      w.core.cs.downDelivered = 0 ∧ (w.core.objs 0).read = [1, 2]) ∧
    ∃ w, run (step small) (start small) closedBeforeAttached = some w ∧
      w.core.sessions = some 0 ∧ (w.core.objs 0).s.dead = false ∧ w.core.cs.dead = false ∧
      w.tunnel.head? = some (.onClose dirDown) ∧ w.core.agent = [] ∧
      w.core.cs.downDelivered = 0 ∧ (w.core.objs 0).read = [1, 2] :=
  ⟨⟨_, rfl, rfl, rfl, rfl, rfl, rfl, rfl, rfl⟩, _, rfl, rfl, rfl, rfl, rfl, rfl, rfl, rfl⟩

end SubstratePoc.Pair
