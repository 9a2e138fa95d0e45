import SubstratePoc.Pair.DownLine
import SubstratePoc.Pair.HalfClose

namespace SubstratePoc.Pair
open Lib Tunnel Broker Sidecar

/-! ## What the agent and the broker do to the sidecar's session -/

/-- A write to the agent fails, or its connection turns out to have no `CloseWrite`. -/
def SAct.failsAgent (c : Choice) : SAct → Bool
  | .agentWrite _ => c ≠ .ok
  | .onClose dir => dir = dirDown && c ≠ .ok
  | _ => false

/-- A read from the agent returns EOF or another error. -/
def SAct.endsAgent (c : Choice) : SAct → Bool
  | .readAgent => match c with
    | .read _ err => err.isSome
    | _ => false
  | _ => false

def SAct.closesDown (_ : Choice) : SAct → Bool
  | .onClose dir => dir = dirDown
  | _ => false

/-- The step is an action of the sidecar that `p` picks. -/
def takes (p : Choice → SAct → Bool) (w : System) : Event → Bool
  | .tunnel c => w.tunnel.head?.any (p c)
  | .proxy c => w.proxy.head?.any (p c)
  | _ => false

/-- The agent's stream has not ended, as far as this action knows. -/
def SAct.goesOn : SAct → Bool
  | .closeUp _ => false
  | .writeUp _ err => err.isNone
  | _ => true

theorem dispatch_plain (m : Msg) : ∀ b ∈ dispatch m, b ≠ .closeAll ∧ b ≠ .removeSession ∧
    b ≠ .openSession ∧ b.goesOn = true := by
  intro b hb
  cases m with
  | opn | attach => cases hb
  | _ =>
    rw [List.mem_singleton.mp hb]
    simp [SAct.goesOn]

section Action
variable {w w' : Core} {a : SAct} {c : Choice} {push : List SAct} {spawn : List (List BAct)}

theorem SDoes.kept (h : SDoes w a w' push spawn) :
    (a = .closeAll ∧ w'.cs.dead = true ∨
      a ≠ .closeAll ∧ w'.cs.dead = w.cs.dead ∧ .removeSession ∉ push) ∧ .openSession ∉ push := by
  -- `closeAll` is all that kills the session and takes it out of the map
  cases h with
  | readFrame k m down hd =>
    have hm := dispatch_plain m
    refine ⟨.inr ⟨by simp, rfl, fun hmem => ?_⟩, fun hmem => ?_⟩ <;>
      split_ifs at hmem <;> simp at hmem
    · exact (hm _ hmem).2.1 rfl
    · exact (hm _ hmem).2.2.1 rfl
  | connect => refine ⟨.inr ⟨by simp, rfl, ?_⟩, ?_⟩ <;> split_ifs <;> simp
  | writeOk k m =>
    rw [Core.toBroker_eq]
    exact ⟨.inr ⟨by simp, rfl, by simp⟩, by simp⟩
  | writeUpDone err => cases err <;> exact ⟨.inr ⟨by simp, rfl, by simp [afterWriteUp]⟩,
      by simp [afterWriteUp]⟩
  | writeUpDead p err push hp =>
    refine ⟨.inr ⟨by simp, rfl, fun hm => ?_⟩, fun hm => ?_⟩ <;> obtain ⟨reason, hr⟩ := hp _ hm <;>
      cases hr
  | closeAll => exact ⟨.inl ⟨rfl, rfl⟩, by simp⟩
  | closeAllAgain hd => exact ⟨.inl ⟨rfl, hd⟩, by simp⟩
  | _ => exact ⟨.inr ⟨by simp, rfl, by simp⟩, by simp⟩

theorem SDoes.closeAll_mem (h : SDoes w a w' push spawn) (hm : .closeAll ∈ push) :
    (∃ q, a = .agentWrite q) ∨ ∃ dir, a = .onClose dir := by
  cases h with
  | agentWriteFail q n => exact .inl ⟨q, rfl⟩
  | onCloseAll dir => exact .inr ⟨dir, rfl⟩
  | readFrame k m down hd =>
    split_ifs at hm <;> simp at hm
    exact absurd rfl (dispatch_plain m _ hm).1
  | connect => split_ifs at hm <;> simp at hm
  | writeUpDone err => cases err <;> simp [afterWriteUp] at hm
  | writeUpDead p err push hp =>
    obtain ⟨reason, hr⟩ := hp _ hm
    cases hr
  | _ => simp at hm

theorem sexec_closeAll (h : sexec w a c = some (w', push, spawn)) :
    .closeAll ∈ push ↔ a.failsAgent c = true := by
  -- `closeAll` is called when the agent fails
  cases a with
  | agentWrite q =>
    cases c with
    | ok =>
      simp only [sexec] at h
      split_ifs at h
      cases h
      simp [SAct.failsAgent]
    | fail n text =>
      cases h
      simp [SAct.failsAgent]
    | read => cases h
  | onClose dir =>
    simp only [sexec] at h
    split_ifs at h with hd
    · cases h
      simp [SAct.failsAgent, hd]
    · cases c with
      | read => cases h
      | _ =>
        cases h
        simp [SAct.failsAgent, not_not.mp hd]
  | _ =>
    refine ⟨fun hm => ?_, fun hf => by cases hf⟩
    obtain ⟨q, hq⟩ | ⟨dir, hq⟩ := (sexec_does h).closeAll_mem hm <;> cases hq

theorem writeUp_goesOn {p : Bytes} (h : sexec w (.writeUp p none) c = some (w', push, spawn))
    (hd : w.cs.dead = false) :
    w'.cs.upClosed = w.cs.upClosed ∧ ∀ b ∈ push, b.goesOn = true := by
  simp only [sexec, hd] at h
  split_ifs at h with hnil hdead
  · cases h
    exact ⟨rfl, by simp [SAct.goesOn]⟩
  · cases hdead
  · split at h
    · cases h
      exact ⟨rfl, by simp⟩
    · rename_i cs hcs
      obtain ⟨b, -, rfl⟩ := Option.map_eq_some_iff.mp hcs
      cases h
      exact ⟨rfl, by simp [SAct.goesOn]⟩

/-- The half is closed upwards when a read from the agent has ended, and when the session dies. -/
theorem sexec_goesOn (h : sexec w a c = some (w', push, spawn)) (hd : w.cs.dead = false)
    (ha : a.goesOn = true) (he : a.endsAgent c = false) :
    w'.cs.upClosed = w.cs.upClosed ∧ ∀ b ∈ push, b.goesOn = true := by
  have hs := sexec_does h
  dsimp only at hs
  cases hs with
  | readAgent p err =>
    refine ⟨rfl, fun b hb => ?_⟩
    rw [List.mem_singleton.mp hb]
    cases c with
    | read p' err' =>
      simp only [sexec] at h
      split_ifs at h
      cases h
      simpa [SAct.endsAgent, SAct.goesOn] using he
    | _ => cases h
  | writeUpDead p err | writeUpDone err | writeUp p err =>
    cases err with
    | none => exact writeUp_goesOn h hd
    | some cause => cases ha
  | readFrame k m down hd =>
    refine ⟨rfl, fun b hb => ?_⟩
    split_ifs at hb <;> simp only [List.nil_append, List.mem_append, List.mem_singleton] at hb
    · exact hb.elim (fun hb => (dispatch_plain m b hb).2.2.2) (fun hb => hb ▸ rfl)
    · exact hb ▸ rfl
  | connect =>
    refine ⟨rfl, ?_⟩
    split_ifs <;> simp [SAct.goesOn]
  | onAttachOK offset => exact ⟨rfl, by simp [SAct.goesOn]⟩
  | writeOk k m =>
    rw [Core.toBroker_eq]
    exact ⟨rfl, by simp⟩
  | closeUpAgain | closeUp => cases ha
  | _ => exact ⟨rfl, by simp [SAct.goesOn]⟩

theorem SDoes.downClosed (h : SDoes w a w' push spawn) (ha : ∀ dir, a ≠ .onClose dir) :
    w'.cs.downClosed = w.cs.downClosed := by
  cases h with
  | onCloseOther dir | onClose dir | onCloseAll dir => exact absurd rfl (ha dir)
  | writeOk k m =>
    rw [Core.toBroker_eq]
    rfl
  | _ => rfl

theorem sexec_downClosed (h : sexec w a c = some (w', push, spawn))
    (hc : a.closesDown c = false) : w'.cs.downClosed = w.cs.downClosed := by
  cases a with
  | onClose dir =>
    simp only [sexec] at h
    rw [if_pos (by simpa [SAct.closesDown] using hc)] at h
    cases h
    rfl
  | _ => exact (sexec_does h).downClosed (by simp)

theorem SDoes.of_listed (h : SDoes w a w' push spawn) (hl : w'.listed = true) :
    a ≠ .removeSession ∧ (w.listed = true ∨ a = .openSession) ∧
      (w'.cs.dead = true → w.cs.dead = true ∨ .removeSession ∈ push) := by
  cases h with
  | removeSession => cases hl
  | openSession => exact ⟨by simp, .inr rfl, .inl⟩
  | closeAll => exact ⟨by simp, .inl hl, fun _ => .inr (List.mem_singleton_self _)⟩
  | writeOk k m =>
    rw [Core.toBroker_eq] at hl ⊢
    exact ⟨by simp, .inl hl, .inl⟩
  | _ => exact ⟨by simp, .inl hl, .inl⟩

end Action

/-! ## Runs -/

section Step
variable {cfg : Config} {w w' : System} {e : Event}

theorem step_side (h : step cfg w e = some w') :
    (∃ a c push spawn, sexec w.core a c = some (w'.core, push, spawn) ∧
      (Runs w.tunnel w'.tunnel a push ∧ w'.proxy = w.proxy ∨
        Runs w.proxy w'.proxy a push ∧ w'.tunnel = w.tunnel) ∧ ∀ p, takes p w e = p c a) ∨
    (w'.core.cs = w.core.cs ∧ w'.core.listed = w.core.listed ∧ w'.tunnel = w.tunnel ∧
      w'.proxy = w.proxy) ∧ ∀ p, takes p w e = false := by
  cases e with
  | tunnel c =>
    obtain ⟨a, rest, push, spawn, ht, hr, ht', hp, -⟩ := step_tunnel h
    exact .inl ⟨a, c, push, spawn, hr, .inl ⟨⟨rest, ht, ht'⟩, hp⟩, fun p => by simp [takes, ht]⟩
  | proxy c =>
    obtain ⟨a, rest, push, spawn, hp, hr, hp', ht, -⟩ := step_proxy h
    exact .inl ⟨a, c, push, spawn, hr, .inr ⟨⟨rest, hp, hp'⟩, ht⟩, fun p => by simp [takes, hp]⟩
  | broker i c =>
    obtain ⟨a, -, -, push, spawn, -, hr, -, -, ht, hp⟩ := step_bexec h
    obtain ⟨hcs, hl, -⟩ := (bexec_does hr).sidecar_eq
    exact .inr ⟨⟨hcs, hl, ht, hp⟩, fun _ => rfl⟩
  | fire o =>
    have hq := step_fire h
    exact .inr ⟨⟨hq.cs, hq.listed, hq.tunnel, hq.proxy⟩, fun _ => rfl⟩
  | cut k m n =>
    have hq := step_cut h
    exact .inr ⟨⟨hq.cs, hq.listed, hq.tunnel, hq.proxy⟩, fun _ => rfl⟩

/-- Nobody has called `closeAll` or is about to. -/
structure Kept (w : System) : Prop where
  dead : w.core.cs.dead = false
  side : ∀ a ∈ w.tunnel ++ w.proxy, a ≠ .closeAll ∧ a ≠ .removeSession
  listed : Unopened w ∨ w.core.listed = true

theorem kept_start (cfg : Config) : Kept (start cfg) :=
  ⟨rfl, by simp [start], .inl (unopened_start cfg)⟩

theorem Kept.step (hI : Kept w) (hf : takes SAct.failsAgent w e = false)
    (h : step cfg w e = some w') : Kept w' := by
  obtain ⟨a, c, push, spawn, hr, hrun, htakes⟩ | ⟨⟨hcs, hl, ht, hp⟩, -⟩ := step_side h
  · have hs := sexec_does hr
    obtain ⟨ha, hside⟩ := side_of_runs hrun
    obtain ⟨hne, hrem⟩ := hI.side a ha
    obtain ⟨-, hdead, hpush⟩ := hs.kept.1.resolve_left fun h => hne h.1
    have hclose : .closeAll ∉ push := by
      rw [sexec_closeAll hr, ← htakes SAct.failsAgent, hf]
      simp
    refine ⟨hdead.trans hI.dead, fun b hb => ?_, ?_⟩
    · rcases hside b hb with hb | hb
      · exact hI.side b hb
      · exact ⟨fun h => hclose (h ▸ hb), fun h => hpush (h ▸ hb)⟩
    · rcases hI.listed with hU | hl
      · exact (hU.step h).2.imp_right And.left
      · exact .inr (hs.listed.2.1 hrem hl)
  · refine ⟨hcs ▸ hI.dead, by rw [ht, hp]; exact hI.side, ?_⟩
    rcases hI.listed with hU | hl'
    · exact (hU.step h).2.imp_right And.left
    · exact .inr (hl.trans hl')

/-- `closeAll` has been called, or is about to be. -/
def Leaving (w : System) : Prop := .closeAll ∈ w.tunnel ++ w.proxy ∨ w.core.cs.dead = true

theorem leaving_of_fails (hf : takes SAct.failsAgent w e = true) (h : step cfg w e = some w') :
    Leaving w' := by
  obtain ⟨a, c, push, spawn, hr, hrun, htakes⟩ | ⟨-, hnone⟩ := step_side h
  · rw [htakes, ← sexec_closeAll hr] at hf
    exact .inl ((side_stays hrun).2 _ hf)
  · rw [hnone] at hf
    cases hf

theorem Leaving.step (hI : Leaving w) (h : step cfg w e = some w') : Leaving w' := by
  obtain ⟨a, c, push, spawn, hr, hrun, -⟩ | ⟨⟨hcs, -, ht, hp⟩, -⟩ := step_side h
  · have hs := sexec_does hr
    obtain ⟨hstay, -⟩ := side_stays hrun
    obtain ⟨rfl, hd⟩ | ⟨hne, hdead, -⟩ := hs.kept.1
    · exact .inr hd
    · rcases hI with hI | hI
      · exact .inl ((hstay _ hI).resolve_left hne.symm)
      · exact .inr (hdead.trans hI)
  · unfold Leaving
    rwa [hcs, ht, hp]

/-- A session that is dead is taken out of the map, and not put back. -/
structure Opened (w : System) : Prop where
  side : .openSession ∉ w.tunnel ++ w.proxy
  removing : w.core.listed = true → w.core.cs.dead = true → .removeSession ∈ w.tunnel ++ w.proxy

theorem Opened.step (hI : Opened w) (h : step cfg w e = some w') : Opened w' := by
  obtain ⟨a, c, push, spawn, hr, hrun, -⟩ | ⟨⟨hcs, hl, ht, hp⟩, -⟩ := step_side h
  · have hs := sexec_does hr
    obtain ⟨ha, hside⟩ := side_of_runs hrun
    obtain ⟨hstay, hpush⟩ := side_stays hrun
    refine ⟨fun hm => (hside _ hm).elim hI.side hs.kept.2, fun hl' hd' => ?_⟩
    obtain ⟨hne, hl, hdead⟩ := hs.of_listed hl'
    have hl := hl.resolve_right fun h => hI.side (h ▸ ha)
    rcases hdead hd' with hd | hm
    · exact (hstay _ (hI.removing hl hd)).resolve_left hne.symm
    · exact hpush _ hm
  · exact ⟨by rw [ht, hp]; exact hI.side, by rw [hl, hcs, ht, hp]; exact hI.removing⟩

theorem opened_run {es : List Event} (hrun : run (step cfg) (start cfg) es = some w) :
    Unopened w ∧ w.core.cs.dead = false ∨ Opened w := by
  refine run_preserves (I := fun w => Unopened w ∧ w.core.cs.dead = false ∨ Opened w) ?_
    (.inl ⟨unopened_start cfg, rfl⟩) hrun
  rintro w e w' (⟨hU, hd⟩ | hO) h
  · obtain ⟨hcs, hU' | ⟨-, hside, -⟩⟩ := hU.step h
    · exact .inl ⟨hU', hcs ▸ hd⟩
    · refine .inr ⟨hside, fun _ hd' => ?_⟩
      rw [hcs, hd] at hd'
      cases hd'
  · exact .inr (hO.step h)

theorem Leaving.unlisted {es : List Event} (hI : Leaving w)
    (hrun : run (Pair.step cfg) (start cfg) es = some w) (hrest : w.AtRest) :
    w.core.listed = false := by
  rcases opened_run hrun with ⟨hU, -⟩ | hO
  · exact hU.listed
  · have hdead : w.core.cs.dead = true := hI.resolve_left fun hm => by cases hrest.sidecar _ hm
    by_contra hl
    cases hrest.sidecar _ (hO.removing (by simpa using hl) hdead)

theorem kept_or_leaving {es : List Event} (hrun : run (step cfg) (start cfg) es = some w) :
    Along (step cfg) (fun w e => takes SAct.failsAgent w e = false) (start cfg) es ∧ Kept w ∨
    ¬Along (step cfg) (fun w e => takes SAct.failsAgent w e = false) (start cfg) es ∧ Leaving w := by
  refine run_dichotomy (C := fun _ => True) ?_ ?_ ?_ (fun _ _ => trivial) (kept_start cfg) hrun
  · intro w e w' _ hI hf h
    exact hI.step hf h
  · intro w e w' _ _ hf h
    exact leaving_of_fails (by simpa using hf) h
  · intro w e w' _ hI h
    exact hI.step h

structure Running (w : System) : Prop where
  upClosed : w.core.cs.upClosed = false
  side : ∀ a ∈ w.tunnel ++ w.proxy, a.goesOn = true

theorem Running.step (hI : Running w) (hd : w.core.cs.dead = false)
    (he : takes SAct.endsAgent w e = false) (h : step cfg w e = some w') : Running w' := by
  obtain ⟨a, c, push, spawn, hr, hrun, htakes⟩ | ⟨⟨hcs, -, ht, hp⟩, -⟩ := step_side h
  · obtain ⟨ha, hside⟩ := side_of_runs hrun
    rw [htakes] at he
    obtain ⟨hup, hpush⟩ := sexec_goesOn hr hd (hI.side a ha) he
    exact ⟨hup.trans hI.upClosed, fun b hb => (hside b hb).elim (hI.side b) (hpush b)⟩
  · exact ⟨hcs ▸ hI.upClosed, by rw [ht, hp]; exact hI.side⟩

theorem downClosed_step (hc : takes SAct.closesDown w e = false) (h : step cfg w e = some w') :
    w'.core.cs.downClosed = w.core.cs.downClosed := by
  obtain ⟨a, c, push, spawn, hr, -, htakes⟩ | ⟨⟨hcs, -⟩, -⟩ := step_side h
  · rw [htakes] at hc
    exact sexec_downClosed hr hc
  · rw [hcs]

end Step

/-- At rest: if no write to the agent has failed, every live broker session is in the sidecar's map;
and the session in the map does not have both halves closed unless the agent ended its stream, a
CLOSE(DirDown) was handled, and no write to the agent failed. -/
theorem no_orphans_at_rest {cfg : Config} {es : List Event} {w : System}
    (hrun : run (step cfg) (start cfg) es = some w) (hrest : w.AtRest) :
    (Along (step cfg) (fun w e => takes SAct.failsAgent w e = false) (start cfg) es →
      ∀ o < w.core.created, (w.core.objs o).s.dead = false → w.core.listed = true) ∧
    (¬Along (step cfg) (fun w e => takes SAct.failsAgent w e = false) (start cfg) es ∨
        Along (step cfg) (fun w e => takes SAct.endsAgent w e = false) (start cfg) es ∨
        Along (step cfg) (fun w e => takes SAct.closesDown w e = false) (start cfg) es →
      ¬(w.core.listed = true ∧ w.core.cs.upClosed = true ∧ w.core.cs.downClosed = true)) := by
  rcases kept_or_leaving hrun with ⟨hspared, hK⟩ | ⟨hfailed, hL⟩
  · refine ⟨fun _ o ho _ => ?_, ?_⟩
    · rcases hK.listed with hU | hl
      · rw [hU.created] at ho
        cases ho
      · exact hl
    · rintro (hfailed | hends | hcloses) ⟨-, hup, hdown⟩
      · exact hfailed hspared
      · have hI : Kept w ∧ Running w := by
          refine run_invariant (I := fun w => Kept w ∧ Running w) ?_
            ⟨kept_start cfg, rfl, by simp [start, SAct.goesOn]⟩ (hspared.and hends) hrun
          intro w e w' hI hP h
          exact ⟨hI.1.step hP.1 h, hI.2.step hI.1.dead hP.2 h⟩
        rw [hI.2.upClosed] at hup
        cases hup
      · have hI : w.core.cs.downClosed = false :=
          run_invariant (I := fun w => w.core.cs.downClosed = false)
            (fun w e w' hI hP h => (downClosed_step hP h).trans hI) rfl hcloses hrun
        rw [hI] at hdown
        cases hdown
  · refine ⟨fun hspared => absurd hspared hfailed, ?_⟩
    rintro - ⟨hl, -⟩
    rw [Leaving.unlisted hL hrun hrest] at hl
    cases hl

def closedBelow : List Event := List.flatten
  -- the destination closes its connection, and the sidecar handles the CLOSE
  [opening, brokerSteps 1 2, [.broker 1 (.read [] (some .eof))], brokerSteps 1 5, tunnelSteps 2]

def abandoned : List Event := List.flatten
  -- the write to the agent fails, both ends close, and the byte that was not delivered is
  -- never acknowledged
  [opening, brokerSteps 1 2, [.broker 1 (.read [7] none)], brokerSteps 1 2, tunnelSteps 2,
    [.tunnel (.fail 0 [])], tunnelSteps 2, [.proxy (.read [] (some (.err closedWord)))],
    List.replicate 4 (.proxy .ok), brokerSteps 0 5, [.broker 1 (.read [] (some .eof))],
    brokerSteps 1 5, tunnelSteps 1]

theorem no_orphans_one_half :
    (∃ w, run (step small) (start small) dialedFirst = some w ∧ w.core.cs.upClosed = true ∧
      (w.core.objs 0).s.dead = false ∧ w.core.listed = true ∧
      ¬(w.core.listed = true ∧ w.core.cs.upClosed = true ∧ w.core.cs.downClosed = true)) ∧
    (∃ w, run (step small) (start small) closedBelow = some w ∧ w.core.cs.downClosed = true ∧
      (w.core.objs 0).s.dead = false ∧ w.core.listed = true ∧
      ¬(w.core.listed = true ∧ w.core.cs.upClosed = true ∧ w.core.cs.downClosed = true)) ∧
    ∃ w, run (step small) (start small) abandoned = some w ∧ w.core.cs.upClosed = true ∧
      ¬(w.core.listed = true ∧ w.core.cs.upClosed = true ∧ w.core.cs.downClosed = true) := by
  -- the agent ends its stream, the destination ends its stream, the agent's connection breaks
  refine ⟨?_, ?_, ?_⟩
  · have hrun := (rfl : run (step small) (start small) dialedFirst = some _)
    have h := no_orphans_at_rest hrun (by decide)
    exact ⟨_, hrun, rfl, rfl, h.1 (by decide) 0 (by decide) rfl, h.2 (.inr (.inr (by decide)))⟩
  · have hrun := (rfl : run (step small) (start small) closedBelow = some _)
    have h := no_orphans_at_rest hrun (by decide)
    exact ⟨_, hrun, rfl, rfl, h.1 (by decide) 0 (by decide) rfl, h.2 (.inr (.inl (by decide)))⟩
  · have hrun := (rfl : run (step small) (start small) abandoned = some _)
    exact ⟨_, hrun, rfl, (no_orphans_at_rest hrun (by decide)).2 (.inl (by decide))⟩

def finished : List Event := List.flatten
  -- the agent closes its half, and then the destination; the session is destroyed and its
  -- CLOSE is handled
  [dialedFirst, [.broker 1 (.read [] (some .eof))], brokerSteps 1 7, tunnelSteps 2]

/-- The broker has a session that the sidecar has dropped; or the sidecar has one with both halves
closed. -/
theorem orphans_abandoned_finished :
    (∃ w, run (step small) (start small) abandoned = some w ∧ w.AtRest ∧
      w.core.conn = some 0 ∧ (w.core.links 0).closed = false ∧ w.core.sessions = some 0 ∧
      (w.core.objs 0).s.dead = false ∧ w.core.listed = false) ∧
    ∃ w, run (step small) (start small) finished = some w ∧ w.AtRest ∧
      w.core.conn = some 0 ∧ (w.core.links 0).closed = false ∧ w.core.listed = true ∧
      w.core.cs.upClosed = true ∧ w.core.cs.downClosed = true := by
  refine ⟨⟨_, rfl, ?_, rfl, rfl, rfl, rfl, rfl⟩, _, rfl, ?_, rfl, rfl, rfl, rfl, rfl⟩ <;> decide

end SubstratePoc.Pair
