import SubstratePoc.Pair.Sessions

namespace SubstratePoc.Pair
open Lib Tunnel Broker Sidecar

/-- A frame on which the sidecar drops agent bytes. -/
def trims : Msg → Bool
  | .ack _ offset | .attachOK _ offset => offset != 0
  | _ => false

def SAct.trims : SAct → Bool
  | .onAttachOK offset | .onUpstreamAck offset => offset != 0
  | _ => false

/-- What a broker goroutine has still to do that ends in such a frame. -/
def Act.trims : Act → Bool
  | .flushed n | .onDataWritten n => n != 0
  | .send m | .write _ m => Pair.trims m
  | _ => false

def BAct.trims : BAct → Bool
  | .act _ a => Act.trims a
  | .reply _ m => Pair.trims m
  | _ => false

/-- Nothing has been trimmed, and nothing under way will trim anything. -/
structure Untrimmed (w : System) : Prop where
  base : w.core.cs.upBuf.base = 0
  side : ∀ a ∈ w.tunnel ++ w.proxy, a.trims = false
  down : ∀ k, ∀ m ∈ (w.core.links k).down, trims m = false
  broker : ∀ b ∈ w.pending, b.trims = false
  written : ∀ o, (w.core.objs o).s.upstreamWritten = 0

theorem untrimmed_start (cfg : Config) : Untrimmed (start cfg) where
  base := rfl
  side a ha := by
    simp only [start, List.singleton_append, List.mem_cons, List.not_mem_nil, or_false] at ha
    rcases ha with rfl | rfl <;> rfl
  down k m hm := by cases hm
  broker b hb := by cases hb
  written o := rfl

theorem base_trimTo_zero {b : ReplayBuffer} (hb : b.base = 0) {offset : ℕ}
    (h : (offset != 0) = false) : (b.trimTo offset).base = 0 := by
  obtain rfl : offset = 0 := by simpa using h
  rw [ReplayBuffer.base_trimTo]
  omega

theorem SDoes.trims {w w' : Core} {a : SAct} {push : List SAct} {spawn : List (List BAct)}
    (h : SDoes w a w' push spawn) (hb : w.cs.upBuf.base = 0) (ha : a.trims = false)
    (hdown : ∀ k, ∀ m ∈ (w.links k).down, Pair.trims m = false) :
    w'.cs.upBuf.base = 0 ∧ ∀ b ∈ push, b.trims = false := by
  cases h with
  | connect =>
    refine ⟨hb, ?_⟩
    split_ifs <;> exact forall_false_of_all rfl
  | readFrame k m down hd =>
    refine ⟨hb, fun b hb => ?_⟩
    have hm := hdown k m (hd ▸ List.mem_cons_self ..)
    rw [List.mem_append, List.mem_singleton] at hb
    rcases hb with hb | rfl
    · split_ifs at hb
      · cases m with
        | opn | attach => cases hb
        | _ =>
          rw [List.mem_singleton.mp hb]
          exact hm
      · cases hb
    · rfl
  | onAttachOK offset =>
    refine ⟨base_trimTo_zero hb ha, fun b hb => ?_⟩
    obtain ⟨m, -, rfl⟩ := List.mem_map.mp hb
    rfl
  | onUpstreamAck offset => exact ⟨base_trimTo_zero hb ha, by simp⟩
  | writeOk k m =>
    rw [Core.toBroker_eq]
    exact ⟨hb, by simp⟩
  | writeUpDead p err push hp =>
    refine ⟨hb, fun b hb => ?_⟩
    obtain ⟨reason, rfl⟩ := hp b hb
    rfl
  | writeUpDone err => cases err <;> exact ⟨hb, forall_false_of_all rfl⟩
  | writeUp p err b n happ =>
    exact ⟨(ReplayBuffer.append_eq_some happ).1.trans hb, forall_false_of_all rfl⟩
  | _ => exact ⟨hb, forall_false_of_all rfl⟩

theorem Does.trims {s : Session} {a : Act} {c : Choice} {r : Result} (h : Does s a c r)
    (hs : s.upstreamWritten = 0) (ha : Act.trims a = false)
    (hbytes : r.eff.flatMap Effect.bytes = []) :
    r.s.upstreamWritten = 0 ∧ (∀ b ∈ r.push, Act.trims b = false) ∧
      ∀ tc m, .frame tc m ∈ r.eff → Pair.trims m = false := by
  cases h with
  | flushOk pre hd =>
    obtain rfl : pre = [] := by simpa [Effect.bytes] using hbytes
    exact ⟨hs, forall_false_of_all rfl, by simp⟩
  | upWriteOk p hd =>
    obtain rfl : p = [] := by simpa [Effect.bytes] using hbytes
    exact ⟨hs, forall_false_of_all rfl, by simp⟩
  | flushed n c =>
    obtain rfl : n = 0 := by simpa [Act.trims] using ha
    refine ⟨hs, ?_, by simp⟩
    rw [hs]
    exact forall_false_of_all rfl
  | onDataWritten n c =>
    obtain rfl : n = 0 := by simpa [Act.trims] using ha
    refine ⟨hs, ?_, by simp⟩
    rw [hs]
    exact forall_false_of_all rfl
  | produceDone after c => cases after <;> exact ⟨hs, forall_false_of_all rfl, by simp⟩
  | produceSent p after b tc =>
    refine ⟨hs, forall_false_of_all rfl, fun tc' m hm => ?_⟩
    simp only [List.mem_singleton, Effect.frame.injEq] at hm
    rw [hm.2]
    rfl
  | produceDetached | produceLost =>
    refine ⟨hs, forall_false_of_all rfl, ?_⟩
    split_ifs <;> simp
  | attach offset c =>
    refine ⟨hs, fun b hb => ?_, by simp⟩
    obtain ⟨m, hm, rfl⟩ := List.mem_map.mp hb
    obtain ⟨ms, hms, hrest⟩ := s.onSidecarAttach_cons offset
    rw [hms, hs, List.mem_cons] at hm
    obtain rfl | hm := hm
    · rfl
    · obtain ⟨p, rfl⟩ | rfl := hrest m hm
      · rfl
      · rfl
  | sendSome m c tc ht => exact ⟨hs, by simpa [Act.trims] using ha, by simp⟩
  | writeOk tc m hm =>
    refine ⟨hs, by simp, fun tc' m' hm' => ?_⟩
    simp only [List.mem_singleton, Effect.frame.injEq] at hm'
    rw [hm'.2]
    exact ha
  | _ => exact ⟨hs, forall_false_of_all rfl, by simp⟩

theorem BDoes.trims {cfg : Config} {w w' : Core} {a : BAct} {push : List BAct}
    {spawn : List (List BAct)} (h : BDoes cfg w a w' push spawn) (hact : ∀ o b, a ≠ .act o b) :
    ∀ x ∈ push ++ spawn.flatten, x.trims = false := by
  cases h with
  | handleFrame k m =>
    rw [List.flatten_nil, List.append_nil]
    intro x hx
    cases m <;> cases hs : w.sessions <;> simp [handle, hs] at hx <;> rw [hx] <;> rfl
  | act o b => exact absurd rfl (hact o b)
  | _ => exact forall_false_of_all rfl

section Step
variable {cfg : Config} {w w' : System}

theorem Untrimmed.of_sidecar (hI : Untrimmed w) {a : SAct} {push : List SAct}
    {spawn : List (List BAct)} (h : SDoes w.core a w'.core push spawn)
    (ha : a ∈ w.tunnel ++ w.proxy)
    (hside : ∀ b ∈ w'.tunnel ++ w'.proxy, b ∈ w.tunnel ++ w.proxy ∨ b ∈ push)
    (hp : w'.pending = w.pending ++ spawn.flatten) : Untrimmed w' := by
  have hf := h.frame
  obtain ⟨hbase, hpush⟩ := h.trims hI.base (hI.side a ha) hI.down
  refine ⟨hbase, ?_, ?_, ?_, ?_⟩
  · exact fun b hb => (hside b hb).elim (hI.side b) (hpush b)
  · exact fun k m hm => ((hf.links k).down m hm).elim (hI.down k m) False.elim
  · intro b hb
    rw [hp, List.mem_append] at hb
    rcases hb with hb | hb
    · exact hI.broker b hb
    · obtain ⟨k, rfl, -⟩ := hf.spawn b hb
      rfl
  · rw [hf.objs]
    exact hI.written

theorem Untrimmed.of_broker (hI : Untrimmed w) (hcs : w'.core.cs = w.core.cs)
    (htunnel : w'.tunnel = w.tunnel) (hproxy : w'.proxy = w.proxy)
    (hdown : ∀ k, ∀ m ∈ (w'.core.links k).down, m ∈ (w.core.links k).down ∨ trims m = false)
    (hbroker : ∀ b ∈ w'.pending, b ∈ w.pending ∨ b.trims = false)
    (hwritten : ∀ o, (w'.core.objs o).s.upstreamWritten = 0) : Untrimmed w' := by
  refine ⟨hcs ▸ hI.base, ?_, ?_, ?_, hwritten⟩
  · rw [htunnel, hproxy]
    exact hI.side
  · exact fun k m hm => (hdown k m hm).elim (hI.down k m) id
  · exact fun b hb => (hbroker b hb).elim (hI.broker b) id

theorem Untrimmed.step {e : Event} (hI : Untrimmed w) (hK : Keyed w)
    (hw : ∀ o < w'.core.created, (w'.core.objs o).dest = []) (h : step cfg w e = some w') :
    Untrimmed w' := by
  cases step_moves h with
  | sidecar _ a push spawn hs hrun hp =>
    obtain ⟨ha, hside⟩ := side_of_runs hrun
    exact hI.of_sidecar hs ha hside hp
  | quiet _ hq =>
    obtain ⟨ws, hp, hws⟩ := hq.pending
    refine hI.of_broker hq.cs hq.tunnel hq.proxy ?_ ?_ ?_
    · exact fun k m hm => ((hq.links k).down m hm).imp id False.elim
    · intro b hb
      rw [hp, List.mem_append] at hb
      refine hb.imp id fun hb => ?_
      obtain ⟨o, -, rfl⟩ := hws b hb
      rfl
    · intro o
      obtain ⟨b, hb⟩ := hq.objs o
      rw [hb]
      exact hI.written o
  | broker i c a X Y push spawn hn hb ht hproxy hp hp' =>
    have ha : a ∈ w.pending := by simp [hp]
    have hpending (hnew : ∀ x ∈ push ++ spawn.flatten, x.trims = false) :
        ∀ b ∈ w'.pending, b ∈ w.pending ∨ b.trims = false :=
      fun b hb => (mem_pending_of_replace hp hp' b hb).imp id (hnew b)
    rcases hb.cases_session with ⟨k, target, rfl, hs, hcore, rfl, rfl⟩ |
      ⟨o, b, c, r, rfl, hr, hcore, rfl, rfl⟩ | hf
    · refine hI.of_broker (by rw [hcore]) ht hproxy ?_ (hpending (forall_false_of_all rfl)) ?_
      · rw [hcore]
        exact fun _ _ => .inl
      · intro j
        by_cases hj : j = w.core.created
        · subst hj
          simp [hcore, Config.newObj, newSession]
        · simpa [hcore, hj] using hI.written j
    · have haff := w.core.objAct_affects o b c r
      have hobjs := w.core.objs_objAct o b c r
      rw [← hcore] at haff hobjs
      have ho : o < w.core.created := hK.named _ ha o rfl
      -- the step leaves the session without a byte written, so it has written none
      have hdest := hw o (haff.created ▸ ho)
      rw [hobjs, Function.update_self] at hdest
      obtain ⟨hzero, hpush, hframe⟩ := Does.trims hr (hI.written o) (hI.broker _ ha)
        (List.append_eq_nil_iff.mp hdest).2
      refine hI.of_broker haff.cs ht hproxy ?_ (hpending fun x hx => ?_) ?_
      · exact fun k m hm => ((haff.links k).down m hm).imp id (hframe k m)
      · rw [List.flatten_nil, List.append_nil] at hx
        obtain ⟨y, hy, rfl⟩ := List.mem_map.mp hx
        exact hpush y hy
      · intro j
        by_cases hj : j = o
        · subst hj
          simpa [hobjs, Obj.after] using hzero
        · simpa [hobjs, hj] using hI.written j
    · refine hI.of_broker hf.cs ht hproxy ?_ (hpending (hb.trims hf.other)) ?_
      · refine fun k m hm => ((hf.links k).down m hm).imp id fun hm => ?_
        subst hm
        exact hI.broker _ ha
      · rw [hf.objs]
        exact hI.written

end Step

theorem untrimmed_run {cfg : Config} {es : List Event} {w : System}
    (hrun : run (step cfg) (start cfg) es = some w)
    (hw : ∀ o < w.core.created, (w.core.objs o).dest = []) : Untrimmed w := by
  have hI : Keyed w ∧ ((∀ o < w.core.created, (w.core.objs o).dest = []) → Untrimmed w) := by
    refine run_preserves
      (I := fun w => Keyed w ∧ ((∀ o < w.core.created, (w.core.objs o).dest = []) → Untrimmed w))
      ?_ ⟨keyed_start cfg, fun _ => untrimmed_start cfg⟩ hrun
    intro w e w' hI hs
    refine ⟨hI.1.step hs, fun hw' => ?_⟩
    exact (hI.2 (dest_eq_nil_of_step hw' hs)).step hI.1 hw' hs
  exact hI.2 hw

end SubstratePoc.Pair
