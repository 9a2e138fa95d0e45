import Mathlib.Data.Finset.Basic
import SubstratePoc.Lib.Run
import SubstratePoc.Tunnel.Buffer

namespace SubstratePoc.Resumer
open Lib Tunnel

structure Ref where
  atespace : Bytes
  name : Bytes
  deriving DecidableEq

/-- `parseRef`; 47 is the slash. -/
def parseRef (actorID : Bytes) : Ref :=
  if actorID.idxOf 47 < actorID.length then
    { atespace := actorID.take (actorID.idxOf 47), name := actorID.drop (actorID.idxOf 47 + 1) }
  else { atespace := [], name := actorID }

/-- Where the goroutine of `resume` is: in `ResumeActor`, before or after the call takes effect,
in the `select` after an `Aborted`, or on its way out. -/
inductive Stage where
  | calling
  | effected
  | backoff
  | returning
  deriving DecidableEq

inductive Outcome where
  | effect
  | ok
  | aborted
  | failed
  | timer
  | deadline
  deriving DecidableEq

/-- The retry loop.  The call takes effect before it returns OK. -/
def Stage.next : Stage → Outcome → Option Stage
  | .calling, .effect => some .effected
  | .effected, .ok => some .returning
  | .calling, .aborted | .effected, .aborted => some .backoff
  | .calling, .failed | .effected, .failed => some .returning
  | .backoff, .timer => some .calling
  | .backoff, .deadline => some .returning
  | _, _ => none

structure Flight where
  actorID : Bytes
  stage : Stage
  deriving DecidableEq

/-- The resumer, its goroutines and the actors.  `called` remembers whether `resume` has been
called since the actor was last suspended. -/
structure World where
  inflight : Finset Bytes
  flights : List Flight
  running : Ref → Bool
  called : Bytes → Bool

inductive Event where
  | suspend (ref : Ref)
  | resume (actorID : Bytes)
  | run (i : ℕ) (c : Outcome)
  | exit (i : ℕ)
  deriving DecidableEq

/-- `newResumer`. -/
def World.create (running : Ref → Bool) : World where
  inflight := ∅
  flights := []
  running := running
  called := fun _ => false

/-- The suspend of an actor that is running takes effect. -/
def World.suspend (w : World) (ref : Ref) : World :=
  { w with
    running := Function.update w.running ref false
    called := fun id => w.called id && (parseRef id ≠ ref) }

/-- `resume` up to the start of its goroutine. -/
def World.resume (w : World) (actorID : Bytes) : World :=
  let w := { w with called := Function.update w.called actorID true }
  if actorID ∈ w.inflight then w
  else { w with
    inflight := insert actorID w.inflight
    flights := w.flights ++ [⟨actorID, .calling⟩] }

/-- The goroutine at `i` goes on to `stage`. -/
def World.moved (w : World) (i : ℕ) (f : Flight) (c : Outcome) (stage : Stage) : World :=
  { w with
    flights := w.flights.set i { f with stage := stage }
    running := if c = .effect then Function.update w.running (parseRef f.actorID) true
      else w.running }

/-- The deferred function of the goroutine at `i`, which then ends. -/
def World.exit (w : World) (i : ℕ) (f : Flight) : World :=
  { w with
    inflight := w.inflight.erase f.actorID
    flights := w.flights.eraseIdx i }

@[simp] theorem World.running_resume (w : World) (id : Bytes) :
    (w.resume id).running = w.running := by
  unfold resume
  dsimp only
  split <;> rfl

@[simp] theorem World.called_resume (w : World) (id : Bytes) :
    (w.resume id).called = Function.update w.called id true := by
  unfold resume
  dsimp only
  split <;> rfl

theorem World.mem_flights_resume {w : World} {id : Bytes} {f : Flight} (h : f ∈ w.flights) :
    f ∈ (w.resume id).flights := by
  unfold resume
  dsimp only
  split
  · exact h
  · exact List.mem_append_left _ h

def step (w : World) : Event → Option World
  | .suspend ref => some (if w.running ref then w.suspend ref else w)
  | .resume actorID => some (w.resume actorID)
  | .run i c => w.flights[i]?.bind fun f => (f.stage.next c).map (w.moved i f c)
  | .exit i => w.flights[i]?.bind fun f =>
      if f.stage = .returning then some (w.exit i f) else none

theorem step_cases {w w' : World} {e : Event} (h : step w e = some w') :
    (∃ ref, e = .suspend ref ∧ (w' = w ∨ w' = w.suspend ref)) ∨
    (∃ id, e = .resume id ∧ w' = w.resume id) ∨
    (∃ i c f stage, e = .run i c ∧ w.flights[i]? = some f ∧ f.stage.next c = some stage ∧
      w' = w.moved i f c stage) ∨
    (∃ i f, e = .exit i ∧ w.flights[i]? = some f ∧ f.stage = .returning ∧ w' = w.exit i f) := by
  cases e with
  | suspend ref =>
    refine .inl ⟨ref, rfl, ?_⟩
    simp only [step, Option.some.injEq] at h
    split at h
    · exact .inr h.symm
    · exact .inl h.symm
  | resume id => exact .inr (.inl ⟨id, rfl, (Option.some.inj h).symm⟩)
  | run i c =>
    simp only [step, Option.bind_eq_some_iff, Option.map_eq_some_iff] at h
    obtain ⟨f, hf, stage, hstage, rfl⟩ := h
    exact .inr (.inr (.inl ⟨i, c, f, stage, rfl, hf, hstage, rfl⟩))
  | exit i =>
    simp only [step, Option.bind_eq_some_iff] at h
    obtain ⟨f, hf, h⟩ := h
    split at h
    · rename_i hret
      exact .inr (.inr (.inr ⟨i, f, rfl, hf, hret, (Option.some.inj h).symm⟩))
    · cases h

/-! ## One call at a time -/

def World.ids (w : World) : List Bytes := w.flights.map Flight.actorID

/-- `inflight` holds the actors that have a goroutine, and none has two. -/
structure World.Singleflight (w : World) : Prop where
  nodup : w.ids.Nodup
  mem_inflight : ∀ id, id ∈ w.inflight ↔ id ∈ w.ids

theorem World.ids_moved {w : World} {i : ℕ} {f : Flight} {c : Outcome} {stage : Stage}
    (hf : w.flights[i]? = some f) : (w.moved i f c stage).ids = w.ids := by
  obtain ⟨hi, rfl⟩ := List.getElem?_eq_some_iff.mp hf
  have hi' : i < w.ids.length := by simpa [ids] using hi
  have hid : w.flights[i].actorID = w.ids[i] := by simp [ids]
  show (w.flights.set i _).map Flight.actorID = _
  rw [List.map_set]
  dsimp only
  rw [hid]
  exact List.set_getElem_self hi'

theorem World.ids_exit (w : World) (i : ℕ) (f : Flight) : (w.exit i f).ids = w.ids.eraseIdx i :=
  (List.eraseIdx_map ..).symm

theorem World.Singleflight.step {w w' : World} {e : Event} (hI : w.Singleflight)
    (h : Resumer.step w e = some w') : w'.Singleflight := by
  obtain ⟨ref, rfl, rfl | rfl⟩ | ⟨id, rfl, rfl⟩ | ⟨i, c, f, stage, rfl, hf, hstage, rfl⟩ |
    ⟨i, f, rfl, hf, hret, rfl⟩ := step_cases h
  · exact hI
  · exact ⟨hI.nodup, hI.mem_inflight⟩
  · unfold World.resume
    dsimp only
    split
    · exact ⟨hI.nodup, hI.mem_inflight⟩
    · rename_i hid
      have hids : id ∉ w.ids := fun hmem => hid ((hI.mem_inflight id).mpr hmem)
      constructor
      · show (w.flights ++ [_]).map _ |>.Nodup
        rw [List.map_append]
        exact hI.nodup.append (List.nodup_singleton _) (by simpa [World.ids] using hids)
      · intro id'
        show id' ∈ insert id w.inflight ↔ id' ∈ (w.flights ++ [_]).map _
        rw [Finset.mem_insert, hI.mem_inflight, List.map_append, List.mem_append]
        simp [World.ids, or_comm]
  · constructor
    · rw [World.ids_moved hf]
      exact hI.nodup
    · rw [World.ids_moved hf]
      exact hI.mem_inflight
  · have hid : w.ids[i]? = some f.actorID := by simp [World.ids, hf]
    constructor
    · rw [World.ids_exit]
      exact hI.nodup.sublist (List.eraseIdx_sublist ..)
    · intro id
      rw [World.ids_exit, List.mem_eraseIdx_iff_getElem?]
      show id ∈ w.inflight.erase f.actorID ↔ _
      rw [Finset.mem_erase, hI.mem_inflight, List.mem_iff_getElem?]
      constructor
      · rintro ⟨hne, j, hj⟩
        refine ⟨j, ?_, hj⟩
        rintro rfl
        exact hne (Option.some.inj (hj.symm.trans hid))
      · rintro ⟨j, hne, hj⟩
        refine ⟨?_, j, hj⟩
        rintro rfl
        -- a second goroutine of the same actor
        obtain ⟨hi, hif⟩ := List.getElem?_eq_some_iff.mp hid
        obtain ⟨hj, hjf⟩ := List.getElem?_eq_some_iff.mp hj
        exact hne ((List.Nodup.getElem_inj_iff hI.nodup).mp (hjf.trans hif.symm))

/-! ## No wake is lost -/

/-- The goroutine's call has still to take effect, or will be made again. -/
def Flight.pending (f : Flight) : Prop := f.stage = .calling ∨ f.stage = .backoff

/-- `ResumeActor` returns OK or `Aborted`, and not too late. -/
def Event.retries : Event → Bool
  | .run _ .failed | .run _ .deadline => false
  | _ => true

/-- A call of `resume` for a suspended actor does not meet a goroutine whose call has taken effect
already. -/
def timely (w : World) : Event → Bool
  | .resume actorID => w.running (parseRef actorID) ||
      w.flights.all fun f => f.actorID ≠ actorID || f.stage ≠ .effected && f.stage ≠ .returning
  | _ => true

/-- Who has been called for is running, or has a goroutine that will resume it. -/
structure Inv (w : World) : Prop extends w.Singleflight where
  awaited : ∀ id, w.called id = true → w.running (parseRef id) = false →
    ∃ f ∈ w.flights, f.actorID = id ∧ f.pending

theorem pending_of_timely {w : World} {id : Bytes} (hI : w.Singleflight)
    (ht : timely w (.resume id) = true) (hrun : w.running (parseRef id) = false)
    (hid : id ∈ w.inflight) : ∃ f ∈ w.flights, f.actorID = id ∧ f.pending := by
  obtain ⟨f, hf, rfl⟩ := List.mem_map.mp ((hI.mem_inflight id).mp hid)
  refine ⟨f, hf, rfl, ?_⟩
  simp only [timely, hrun, Bool.false_or, List.all_eq_true] at ht
  have hstage := ht f hf
  unfold Flight.pending
  cases hs : f.stage <;> simp_all

theorem pending_moved {w : World} {i : ℕ} {f g : Flight} {c : Outcome} {stage : Stage}
    (hg : w.flights[i]? = some g) (hstage : g.stage.next c = some stage)
    (hc : Event.retries (.run i c) = true) (hf : f ∈ w.flights) (hp : f.pending) :
    (w.moved i g c stage).running (parseRef f.actorID) = true ∨
    ∃ f' ∈ (w.moved i g c stage).flights, f'.actorID = f.actorID ∧ f'.pending := by
  -- a goroutine that has still to resume its actor goes on to do so
  obtain ⟨j, hj⟩ := List.mem_iff_getElem?.mp hf
  by_cases hij : i = j
  · subst hij
    obtain rfl := Option.some.inj (hg.symm.trans hj)
    have hmem : { g with stage := stage } ∈ (w.moved i g c stage).flights := by
      obtain ⟨hi, -⟩ := List.getElem?_eq_some_iff.mp hg
      exact List.mem_set hi _
    rcases hp with hs | hs
    · rw [hs] at hstage
      cases c with
      | effect =>
        left
        simp [World.moved]
      | aborted =>
        right
        exact ⟨_, hmem, rfl, .inr (Option.some.inj hstage).symm⟩
      | failed => cases hc
      | _ => cases hstage
    · rw [hs] at hstage
      cases c with
      | timer =>
        right
        exact ⟨_, hmem, rfl, .inl (Option.some.inj hstage).symm⟩
      | deadline => cases hc
      | _ => cases hstage
  · right
    refine ⟨f, ?_, rfl, hp⟩
    apply List.mem_iff_getElem?.mpr
    exact ⟨j, by rw [World.moved, List.getElem?_set_ne hij, hj]⟩

theorem Inv.step {w w' : World} {e : Event} (hI : Inv w) (hc : e.retries = true)
    (ht : timely w e = true) (h : Resumer.step w e = some w') : Inv w' := by
  refine ⟨hI.toSingleflight.step h, fun id hcalled hrun => ?_⟩
  obtain ⟨ref, rfl, rfl | rfl⟩ | ⟨id', rfl, rfl⟩ | ⟨i, c, g, stage, rfl, hg, hstage, rfl⟩ |
    ⟨i, g, rfl, hg, hret, rfl⟩ := step_cases h
  · exact hI.awaited id hcalled hrun
  · simp only [World.suspend, Bool.and_eq_true, decide_eq_true_eq] at hcalled
    have hrun' : Function.update w.running ref false (parseRef id) = false := hrun
    rw [Function.update_of_ne hcalled.2] at hrun'
    exact hI.awaited id hcalled.1 hrun'
  · rw [World.running_resume] at hrun
    rw [World.called_resume] at hcalled
    by_cases hid : id = id'
    · subst hid
      by_cases hmem : id ∈ w.inflight
      · obtain ⟨f, hf, hp⟩ := pending_of_timely hI.toSingleflight ht hrun hmem
        exact ⟨f, World.mem_flights_resume hf, hp⟩
      · refine ⟨⟨id, .calling⟩, ?_, rfl, .inl rfl⟩
        simp [World.resume, hmem]
    · rw [Function.update_of_ne hid] at hcalled
      obtain ⟨f, hf, hp⟩ := hI.awaited id hcalled hrun
      exact ⟨f, World.mem_flights_resume hf, hp⟩
  · have hrun' : w.running (parseRef id) = false := by
      unfold World.moved at hrun
      dsimp only at hrun
      split at hrun
      · by_cases heq : parseRef id = parseRef g.actorID
        · simp [heq] at hrun
        · rwa [Function.update_of_ne heq] at hrun
      · exact hrun
    obtain ⟨f, hf, rfl, hp⟩ := hI.awaited id hcalled hrun'
    obtain hr | hex := pending_moved hg hstage hc hf hp
    · rw [hr] at hrun
      cases hrun
    · exact hex
  · obtain ⟨f, hf, hfid, hp⟩ := hI.awaited id hcalled hrun
    refine ⟨f, ?_, hfid, hp⟩
    obtain ⟨j, hj⟩ := List.mem_iff_getElem?.mp hf
    refine List.mem_eraseIdx_iff_getElem?.mpr ⟨j, ?_, hj⟩
    rintro rfl
    obtain rfl := Option.some.inj (hg.symm.trans hj)
    rcases hp with hp | hp <;> rw [hret] at hp <;> cases hp

/-- In a run whose calls of `resume` are all `timely`: an actor without a goroutine for which
`resume` has been called since its last suspend has been resumed since. -/
theorem running_of_timely {running : Ref → Bool} {es : List Event} {w : World} {actorID : Bytes}
    (hes : ∀ e ∈ es, e.retries = true)
    (htimely : Along step (fun w e => timely w e = true) (World.create running) es)
    (hrun : run step (World.create running) es = some w)
    (hnone : ∀ f ∈ w.flights, f.actorID ≠ actorID) (hcalled : w.called actorID = true) :
    w.running (parseRef actorID) = true := by
  have hI : Inv w := by
    apply run_invariant (fun w e w' hI hP h => Inv.step hI hP.2 hP.1 h) _ (htimely.and_mem hes) hrun
    exact ⟨⟨List.nodup_nil, by simp [World.create, World.ids]⟩, fun _ h => by cases h⟩
  by_contra hstopped
  obtain ⟨f, hf, hid, -⟩ := hI.awaited actorID hcalled (by simpa using hstopped)
  exact hnone f hf hid

def abortedOnce : List Event :=
  -- a wake during the suspend: the first call is aborted, the second resumes the actor
  [.suspend (parseRef [97, 47, 98]), .resume [97, 47, 98], .run 0 .aborted, .resume [97, 47, 98],
    .run 0 .timer, .run 0 .effect, .run 0 .ok, .exit 0]

theorem running_abortedOnce : ∃ w, run step (World.create fun _ => true) abortedOnce = some w ∧
    w.flights = [] ∧ w.called [97, 47, 98] = true ∧
    w.running (parseRef [97, 47, 98]) = true := by
  have hrun := (rfl : run step (World.create fun _ => true) abortedOnce = some _)
  refine ⟨_, hrun, rfl, rfl, ?_⟩
  exact running_of_timely (by decide) (by decide) hrun (fun f hf => absurd hf List.not_mem_nil) rfl

/-- The actor is suspended again before the call returns, and the wake that follows is dropped. -/
theorem not_running_resuspended : ∃ w, run step (World.create fun _ => true)
    [.suspend (parseRef [97, 47, 98]), .resume [97, 47, 98], .run 0 .effect,
      .suspend (parseRef [97, 47, 98]), .resume [97, 47, 98], .run 0 .ok, .exit 0] = some w ∧
    w.flights = [] ∧ w.called [97, 47, 98] = true ∧
    w.running (parseRef [97, 47, 98]) = false :=
  ⟨_, rfl, rfl, rfl, rfl⟩

end SubstratePoc.Resumer
