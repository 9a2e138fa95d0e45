import SubstratePoc.Server.Owned

namespace SubstratePoc.Server
open Lib Tunnel Broker Resumer

/-- The part of a broker that belongs to an actor, if the connections belong to whom `actor`
says. -/
def World.part (cfg : Config) (A : Bytes) (actor : ConnId → Option Bytes) (w : World) : World where
  conns := keep (actor · = some A) w.conns fun _ => none
  made := keep (·.actorID = A) w.made fun _ => 0
  objs := keep (·.key.actorID = A) w.objs (start cfg).objs
  sessions := keep (·.actorID = A) w.sessions fun _ => none
  resumes := keep (· = A) w.resumes fun _ => none
  requests := w.requests.filter (·.1 = A)
  threads := keep (ownerOf actor · = some A) w.threads fun _ => []

/-- What the broker holds of an actor: its tunnels with the frames written to them, its sessions
with the bytes written to their destinations, the goroutines that work for it, and the calls of
`ResumeActor` made for it. -/
def World.restrict (cfg : Config) (A : Bytes) (w : World) : World := w.part cfg A w.actor

/-- The actor whose event it is. -/
def World.eventOwner (w : World) : Event → Option Bytes
  | .accept _ first => if isHello first then some first.actorID else none
  | .run t _ => w.owner t
  | .fire p => some p.key.actorID
  | .resumer A _ | .exit A => some A

/-! ## Updates of a part -/

section Updates
variable {cfg : Config} {A : Bytes} {actor : ConnId → Option Bytes} {w : World}

theorem part_setThread {t : Thread} {l : List HAct} (h : ownerOf actor t = some A) :
    (w.setThread t l).part cfg A actor = (w.part cfg A actor).setThread t l := by
  simp only [World.part, World.setThread, keep_update_of_pos (P := (ownerOf actor · = some A)) h]

theorem part_setThread_other {t : Thread} {l : List HAct} (h : ownerOf actor t ≠ some A) :
    (w.setThread t l).part cfg A actor = w.part cfg A actor := by
  simp only [World.part, World.setThread, keep_update_of_neg (P := (ownerOf actor · = some A)) h]

theorem part_setObj {p : Ptr} {ob : Obj} (h : p.key.actorID = A) :
    (w.setObj p ob).part cfg A actor = (w.part cfg A actor).setObj p ob := by
  simp only [World.part, World.setObj, keep_update_of_pos (P := fun p : Ptr => p.key.actorID = A) h]

theorem part_setObj_other {p : Ptr} {ob : Obj} (h : p.key.actorID ≠ A) :
    (w.setObj p ob).part cfg A actor = w.part cfg A actor := by
  simp only [World.part, World.setObj, keep_update_of_neg (P := fun p : Ptr => p.key.actorID = A) h]

theorem part_setConn {k : ConnId} {t : Conn} (h : actor k = some A) :
    (w.setConn k t).part cfg A actor = (w.part cfg A actor).setConn k t := by
  simp only [World.part, World.setConn, keep_update_of_pos (P := (actor · = some A)) h]

theorem part_setConn_other {k : ConnId} {t : Conn} (h : actor k ≠ some A) :
    (w.setConn k t).part cfg A actor = w.part cfg A actor := by
  simp only [World.part, World.setConn, keep_update_of_neg (P := (actor · = some A)) h]

theorem part_enter (st : Stage) :
    (w.enter A st).part cfg A actor = (w.part cfg A actor).enter A st := by
  simp only [World.part, World.enter, keep_update_of_pos (P := (· = A)) rfl]
  split_ifs <;> simp

theorem part_enter_other {B : Bytes} (h : B ≠ A) (st : Stage) :
    (w.enter B st).part cfg A actor = w.part cfg A actor := by
  simp only [World.part, World.enter, keep_update_of_neg (P := (· = A)) h]
  split_ifs <;> simp [h]

theorem part_leave : (w.leave A).part cfg A actor = (w.part cfg A actor).leave A := by
  simp only [World.part, World.leave, keep_update_of_pos (P := (· = A)) rfl]

theorem part_leave_other {B : Bytes} (h : B ≠ A) :
    (w.leave B).part cfg A actor = w.part cfg A actor := by
  simp only [World.part, World.leave, keep_update_of_neg (P := (· = A)) h]

theorem part_removeSession (sid : UInt64) :
    (w.removeSession A sid).part cfg A actor = (w.part cfg A actor).removeSession A sid := by
  simp only [World.part, World.removeSession,
    keep_update_of_pos (P := fun key : Key => key.actorID = A) (x := ⟨A, sid⟩) rfl]

theorem part_removeSession_other {B : Bytes} (h : B ≠ A) (sid : UInt64) :
    (w.removeSession B sid).part cfg A actor = w.part cfg A actor := by
  simp only [World.part, World.removeSession,
    keep_update_of_neg (P := fun key : Key => key.actorID = A) (x := ⟨B, sid⟩) h]

theorem part_make {key : Key} (h : key.actorID = A) (target : Bytes) :
    (w.make cfg key target).part cfg A actor = (w.part cfg A actor).make cfg key target := by
  have hmade : (w.part cfg A actor).made key = w.made key := if_pos h
  simp only [World.make, hmade]
  simp only [World.part, keep_update_of_pos (P := fun key : Key => key.actorID = A) h,
    keep_update_of_pos (P := fun p : Ptr => p.key.actorID = A) (x := ⟨key, w.made key⟩) h]

theorem part_make_other {key : Key} (h : key.actorID ≠ A) (target : Bytes) :
    (w.make cfg key target).part cfg A actor = w.part cfg A actor := by
  simp only [World.part, World.make, keep_update_of_neg (P := fun key : Key => key.actorID = A) h,
    keep_update_of_neg (P := fun p : Ptr => p.key.actorID = A) (x := ⟨key, w.made key⟩) h]

theorem part_write {k : ConnId} {f : Frame} (h : actor k = some A) :
    (w.write k f).part cfg A actor = (w.part cfg A actor).write k f := by
  have hk : (w.part cfg A actor).conns k = w.conns k := if_pos h
  unfold World.write
  rw [hk]
  split
  · split_ifs
    · rfl
    · exact part_setConn h
  · rfl

theorem part_write_other {k : ConnId} {f : Frame} (h : actor k ≠ some A) :
    (w.write k f).part cfg A actor = w.part cfg A actor := by
  unfold World.write
  split
  · split_ifs
    · rfl
    · exact part_setConn_other h
  · rfl

theorem part_resume : (w.resume A).part cfg A actor = (w.part cfg A actor).resume A := by
  have hr : (w.part cfg A actor).resumes A = w.resumes A := if_pos rfl
  unfold World.resume
  rw [hr]
  split
  · rfl
  · exact part_enter .calling

theorem part_resume_other {B : Bytes} (h : B ≠ A) :
    (w.resume B).part cfg A actor = w.part cfg A actor := by
  unfold World.resume
  split
  · rfl
  · exact part_enter_other h .calling

theorem part_effect {p : Ptr} {e : Effect} (hp : p.key.actorID = A)
    (hid : (w.objs p).s.actorID = p.key.actorID) (hk : ∀ k, effectConn e = some k → actor k = some A) :
    (w.effect p e).part cfg A actor = (w.part cfg A actor).effect p e := by
  have hob : (w.part cfg A actor).objs p = w.objs p := if_pos hp
  cases e with
  | frame k m => exact part_write (hk k rfl)
  | register k =>
    have hck : (w.part cfg A actor).conns k = w.conns k := if_pos (hk k rfl)
    simp only [World.effect, hck]
    split
    · exact part_setConn (hk k rfl)
    · rfl
  | removeSession =>
    simp only [World.effect, hob, hid, hp]
    exact part_removeSession _
  | wake =>
    simp only [World.effect, hob, hid, hp]
    exact part_resume
  | upstream | closeWrite => rfl

theorem part_effect_other {p : Ptr} {e : Effect} (hp : p.key.actorID ≠ A)
    (hid : (w.objs p).s.actorID = p.key.actorID)
    (hk : ∀ k, effectConn e = some k → actor k ≠ some A) :
    (w.effect p e).part cfg A actor = w.part cfg A actor := by
  cases e with
  | frame k m => exact part_write_other (hk k rfl)
  | register k =>
    simp only [World.effect]
    split
    · exact part_setConn_other (hk k rfl)
    · rfl
  | removeSession =>
    simp only [World.effect, hid]
    exact part_removeSession_other hp _
  | wake =>
    simp only [World.effect, hid]
    exact part_resume_other hp
  | upstream | closeWrite => rfl

theorem effectConn_of {a : Act} {p : Ptr} {c : Choice} {r : Result} {B : Bytes} (hI : Owned w)
    (ha : (HAct.act p a).Of w.actor B) (hr : Does (w.objs p).s a c r) :
    r.s.actorID = p.key.actorID ∧
      ∀ e ∈ r.eff, ∀ k, effectConn e = some k → w.actor k = some B := by
  obtain ⟨hid, -, -, -, heff⟩ := conns_of_does hr
  refine ⟨hid.trans (hI.named p).1, fun e he k hk => ?_⟩
  rcases heff e he k hk with ht | hc
  · rw [hI.bound p k ht, ha.1]
  · exact ha.2 k hc

theorem part_actOn {a : Act} {p : Ptr} {c : Choice} {r : Result} (hI : Owned w)
    (ha : (HAct.act p a).Of w.actor A) (hr : Does (w.objs p).s a c r) :
    (w.actOn p r).part cfg A w.actor = (w.part cfg A w.actor).actOn p r := by
  obtain ⟨hid, hconn⟩ := effectConn_of hI ha hr
  have hob : (w.part cfg A w.actor).objs p = w.objs p := if_pos ha.1
  have hself : (w.setObj p ((w.objs p).after r)).objs p = (w.objs p).after r :=
    Function.update_self _ _ _
  have hr' : Does ((w.part cfg A w.actor).objs p).s a c r := hob ▸ hr
  obtain ⟨he, hw⟩ | ⟨e, he, hw⟩ := actOn_eq hr
  · obtain ⟨-, hw'⟩ | ⟨e, he', -⟩ := actOn_eq hr'
    · rw [hw, hw', hob]
      exact part_setObj ha.1
    · rw [he] at he'
      cases he'
  · obtain ⟨he', -⟩ | ⟨e', he', hw'⟩ := actOn_eq hr'
    · rw [he] at he'
      cases he'
    · obtain rfl : e = e' := by simpa [he] using he'
      rw [hw, hw', hob, part_effect ha.1 (by rw [hself]; exact hid), part_setObj ha.1]
      exact hconn e (by simp [he])

theorem part_actOn_other {a : Act} {p : Ptr} {c : Choice} {r : Result} {B : Bytes} (hI : Owned w)
    (ha : (HAct.act p a).Of w.actor B) (hB : B ≠ A) (hr : Does (w.objs p).s a c r) :
    (w.actOn p r).part cfg A w.actor = w.part cfg A w.actor := by
  obtain ⟨hid, hconn⟩ := effectConn_of hI ha hr
  have hp : p.key.actorID ≠ A := ha.1 ▸ hB
  have hself : (w.setObj p ((w.objs p).after r)).objs p = (w.objs p).after r :=
    Function.update_self _ _ _
  obtain ⟨-, hw⟩ | ⟨e, he, hw⟩ := actOn_eq hr
  · rw [hw]
    exact part_setObj_other hp
  · rw [hw, part_effect_other hp (by rw [hself]; exact hid), part_setObj_other hp]
    intro k hk
    rw [hconn e (by simp [he]) k hk]
    simpa using hB

end Updates

/-! ## Steps of a part -/

section Steps
variable {cfg : Config} {A : Bytes} {w w' : World}

theorem sessions_part (sid : UInt64) (actor : ConnId → Option Bytes) :
    (w.part cfg A actor).sessions ⟨A, sid⟩ = w.sessions ⟨A, sid⟩ := if_pos rfl

theorem lookup_part (sid : UInt64) (actor : ConnId → Option Bytes) :
    (w.part cfg A actor).lookup A sid = w.lookup A sid := by
  rw [World.lookup, World.lookup, sessions_part]

/-- An action of the actor does in its part of the broker what it does in the broker. -/
theorem hexec_part {a : HAct} {c : HChoice} {push : List HAct} (hI : Owned w)
    (ha : a.Of w.actor A) (h : hexec cfg w a c = some (w', push)) :
    hexec cfg (w.part cfg A w.actor) a c = some (w'.part cfg A w.actor, push) := by
  have hconn (k : ConnId) (hk : w.actor k = some A) :
      ∃ t, w.conns k = some t ∧ t.actorID = A ∧ (w.part cfg A w.actor).conns k = some t := by
    obtain ⟨t, ht, hid⟩ := Option.map_eq_some_iff.mp hk
    exact ⟨t, ht, hid, (if_pos hk).trans ht⟩
  cases a with
  | readFrame k =>
    simp only [hexec] at h ⊢
    split at h <;> cases h <;> rfl
  | handleFrame k f =>
    obtain ⟨t, ht, hid, hk⟩ := hconn k ha
    simp only [hexec, ht, hk, Option.map_some, hid, lookup_part] at h ⊢
    cases h
    rfl
  | openSession k sid target =>
    obtain ⟨t, ht, hid, hk⟩ := hconn k ha
    have hmade : (w.part cfg A w.actor).made ⟨A, sid⟩ = w.made ⟨A, sid⟩ := if_pos rfl
    simp only [hexec, ht, hk, Option.map_some, hid, sessions_part, hmade] at h ⊢
    split_ifs at h ⊢
    · cases h
      rfl
    · split at h
      · cases h
        rfl
      · cases h
        rw [part_make (A := A) rfl]
  | attachSession k sid offset target =>
    obtain ⟨t, ht, hid, hk⟩ := hconn k ha
    simp only [hexec, ht, hk, Option.map_some, hid, lookup_part] at h ⊢
    split at h
    · cases h
      rfl
    · split_ifs at h ⊢ <;> cases h <;> rfl
  | reattach k sid offset =>
    obtain ⟨t, ht, hid, hk⟩ := hconn k ha
    simp only [hexec, ht, hk, Option.map_some, hid, lookup_part] at h ⊢
    cases h
    rfl
  | startDial p =>
    cases h
    simp only [hexec]
    have hp : ownerOf w.actor (.reader p) = some A := congrArg some ha
    rw [part_setThread hp]
  | act p a =>
    cases c with
    | io c =>
      have hob : (w.part cfg A w.actor).objs p = w.objs p := if_pos ha.1
      simp only [hexec, hob, Option.map_eq_some_iff] at h ⊢
      obtain ⟨r, hr, h⟩ := h
      cases h
      exact ⟨r, hr, by rw [part_actOn hI ha (exec_does hr)]⟩
    | _ => cases h
  | reply k f =>
    simp only [hexec] at h ⊢
    split at h
    · split_ifs at h ⊢
      cases h
      rw [part_write ha]
    · cases h
      rfl
    · cases h
  | detachAll k =>
    obtain ⟨t, ht, -, hk⟩ := hconn k ha
    simp only [hexec, ht, hk, Option.map_some] at h ⊢
    cases h
    rw [part_setConn ha]
  | detaching k ps =>
    simp only [hexec] at h ⊢
    split at h
    · cases h
      rfl
    · rename_i i hne
      simp only [Option.map_eq_some_iff] at h ⊢
      obtain ⟨p, hp, h⟩ := h
      cases h
      exact ⟨p, hp, rfl⟩
    · cases h
  | closeConn k =>
    obtain ⟨t, ht, -, hk⟩ := hconn k ha
    simp only [hexec, ht, hk, Option.map_some] at h ⊢
    cases h
    rw [part_setConn ha]

theorem HDoes.part_other {a : HAct} {push : List HAct} {B : Bytes} (h : HDoes cfg w a w' push)
    (hI : Owned w) (ha : a.Of w.actor B) (hB : B ≠ A) :
    w'.part cfg A w.actor = w.part cfg A w.actor := by
  -- an action of another actor does not show
  have hne {k : ConnId} (hk : w.actor k = some B) : w.actor k ≠ some A := by
    rw [hk]
    simpa using hB
  cases h with
  | openSession k sid target t ht hs =>
    refine part_make_other ?_ target
    have hk : w.actor k = some B := ha
    simp only [World.actor, ht, Option.map_some, Option.some.injEq] at hk
    exact hk ▸ hB
  | act p a c r hr => exact part_actOn_other hI ha hB hr
  | startDial p =>
    refine part_setThread_other ?_
    have hp : p.key.actorID = B := ha
    simpa [ownerOf, hp] using hB
  | reply k f => exact part_write_other (hne ha)
  | detachAll k t ht => exact part_setConn_other (hne ha)
  | closeConn k t ht => exact part_setConn_other (hne ha)
  | _ => rfl

theorem part_congr_new {actor' : ConnId → Option Bytes} {k : ConnId} (hI : Owned w)
    (hk : w.conns k = none) (hne : ∀ j ≠ k, actor' j = w.actor j) :
    w.part cfg A actor' = w.part cfg A w.actor := by
  -- a connection that does not exist yet belongs to nobody
  have hconns : keep (actor' · = some A) w.conns (fun _ => none) =
      keep (w.actor · = some A) w.conns fun _ => none := by
    funext j
    by_cases hj : j = k
    · subst hj
      simp [keep, hk]
    · simp [keep, hne j hj]
  have hthreads : keep (ownerOf actor' · = some A) w.threads (fun _ => []) =
      keep (ownerOf w.actor · = some A) w.threads fun _ => [] := by
    funext t
    cases t with
    | loop j =>
      by_cases hj : j = k
      · subst hj
        simp [keep, hI.idle j hk]
      · show (if actor' j = some A then _ else _) = if w.actor j = some A then _ else _
        rw [hne j hj]
    | _ => rfl
  simp only [World.part, hconns, hthreads]

theorem part_hello {k : ConnId} {first : Frame} (hI : Owned w) (hk : w.conns k = none) :
    ((w.setConn k ⟨first.actorID, [], [], false⟩).setThread (.loop k) [.readFrame k]).restrict cfg A =
      if first.actorID = A then
        ((w.restrict cfg A).setConn k ⟨first.actorID, [], [], false⟩).setThread (.loop k)
          [.readFrame k]
      else w.restrict cfg A := by
  generalize hactor : ((w.setConn k ⟨first.actorID, [], [], false⟩).setThread (.loop k)
    [.readFrame k]).actor = actor'
  have hself : actor' k = some first.actorID := by
    simp [← hactor, World.actor, World.setThread, World.setConn]
  have hne (j : ConnId) (hj : j ≠ k) : actor' j = w.actor j := by
    simp [← hactor, World.actor, World.setThread, World.setConn, Function.update_of_ne hj]
  have hpart : w.part cfg A actor' = w.part cfg A w.actor := part_congr_new hI hk hne
  rw [World.restrict, hactor]
  split_ifs with hA
  · have hk' : actor' k = some A := hA ▸ hself
    rw [part_setThread (t := .loop k) hk', part_setConn hk', hpart]
    rfl
  · have hk' : actor' k ≠ some A := by
      rw [hself]
      simpa using hA
    rw [part_setThread_other (t := .loop k) hk', part_setConn_other hk', hpart]
    rfl

theorem step_restrict {e : Event} (hI : Owned w) (h : step cfg w e = some w')
    (he : w.eventOwner e = some A) : step cfg (w.restrict cfg A) e = some (w'.restrict cfg A) := by
  -- an event of the actor is an event of its part of the broker
  cases e with
  | accept k first =>
    cases hf : isHello first with
    | false => simp [World.eventOwner, hf] at he
    | true =>
      simp only [World.eventOwner, hf, if_true, Option.some.injEq] at he
      simp only [step, hf, if_true] at h ⊢
      split_ifs at h with hk
      have hk' : w.conns k = none := by simpa using hk
      have hnone : (w.restrict cfg A).conns k = none := by
        simp [World.restrict, World.part, keep, hk']
      cases h
      rw [hnone, part_hello hI hk', if_pos he]
      rfl
  | run t c =>
    simp only [step] at h
    split at h
    · cases h
    · rename_i a rest ht
      obtain ⟨⟨w₁, push⟩, hex, rfl⟩ := Option.map_eq_some_iff.mp h
      obtain ⟨B, hB, ha⟩ := hI.running ht
      cases he.symm.trans hB
      have ht' : (w.restrict cfg A).threads t = a :: rest := (if_pos hB).trans ht
      have hactor : (w₁.setThread t (push ++ rest)).actor = w.actor := (hexec_does hex).actor
      have hex' : hexec cfg (w.restrict cfg A) a c = some (w₁.part cfg A w.actor, push) :=
        hexec_part hI ha hex
      simp only [step, ht', hex', Option.map_some]
      rw [World.restrict, hactor, part_setThread hB]
  | fire p =>
    have hp : p.key.actorID = A := Option.some.inj he
    have hmade : (w.restrict cfg A).made p.key = w.made p.key := if_pos hp
    have hob : (w.restrict cfg A).objs p = w.objs p := if_pos hp
    simp only [step, hmade, hob] at h ⊢
    split_ifs at h ⊢
    cases h
    have ht : ownerOf w.actor (.timer p (w.objs p).fired) = some A := congrArg some hp
    have hactor : ((w.setObj p (w.objs p).fire).setThread (.timer p (w.objs p).fired)
      [.act p .watchdog]).actor = w.actor := rfl
    rw [World.restrict, World.restrict, hactor, part_setThread ht, part_setObj hp]
  | resumer B c =>
    cases he
    have hr : (w.restrict cfg A).resumes A = w.resumes A := if_pos rfl
    simp only [step, hr, Option.bind_eq_some_iff, Option.map_eq_some_iff] at h ⊢
    obtain ⟨st, hst, st', hn, rfl⟩ := h
    exact ⟨st, hst, st', hn, (part_enter st').symm⟩
  | exit B =>
    cases he
    have hr : (w.restrict cfg A).resumes A = w.resumes A := if_pos rfl
    simp only [step, hr] at h ⊢
    split_ifs at h ⊢
    cases h
    exact congrArg some part_leave.symm

theorem restrict_step_other {e : Event} (hI : Owned w) (h : step cfg w e = some w')
    (he : w.eventOwner e ≠ some A) : w'.restrict cfg A = w.restrict cfg A := by
  -- an event of another actor does not show in the actor's part
  cases step_steps h with
  | hello k first hk hf =>
    rw [part_hello hI hk, if_neg]
    simpa [World.eventOwner, hf] using he
  | refused => rfl
  | run t c a rest push w₁ ht hdo =>
    obtain ⟨B, hB, ha⟩ := hI.running ht
    have hne : B ≠ A := by
      rintro rfl
      exact he hB
    have hactor : (w₁.setThread t (push ++ rest)).actor = w.actor := hdo.actor
    rw [World.restrict, hactor, part_setThread_other he, hdo.part_other hI ha hne]
    rfl
  | fire p hp =>
    have hne : p.key.actorID ≠ A := fun h => he (congrArg some h)
    have ht : ownerOf w.actor (.timer p (w.objs p).fired) ≠ some A := by simpa [ownerOf] using hne
    have hactor : ((w.setObj p (w.objs p).fire).setThread (.timer p (w.objs p).fired)
      [.act p .watchdog]).actor = w.actor := rfl
    rw [World.restrict, hactor, part_setThread_other ht, part_setObj_other hne]
    rfl
  | resumer B c st => exact part_enter_other (fun h => he (congrArg some h)) st
  | exit B => exact part_leave_other fun h => he (congrArg some h)

theorem conns_restrict (cfg : Config) {k : ConnId} {t : Conn} (ht : t.actorID = A) :
    (w.restrict cfg A).conns k = some t ↔ w.conns k = some t := by
  cases hk : w.conns k with
  | none => simp [World.restrict, World.part, keep, hk]
  | some u =>
    by_cases hu : u.actorID = A
    · simp [World.restrict, World.part, keep, World.actor, hk, hu]
    · have hne : u ≠ t := fun h => hu (h ▸ ht)
      simp [World.restrict, World.part, keep, World.actor, hk, hu, hne]

theorem restrict_start : (start cfg).restrict cfg A = start cfg := by
  have hconns : keep ((start cfg).actor · = some A) (start cfg).conns (fun _ => none) =
      fun _ => none := keep_self
  have hthreads : keep (ownerOf (start cfg).actor · = some A) (start cfg).threads (fun _ => []) =
      fun _ => [] := keep_self
  have hmade : keep (fun key : Key => key.actorID = A) (start cfg).made (fun _ => 0) =
      fun _ => 0 := keep_self
  have hsessions : keep (fun key : Key => key.actorID = A) (start cfg).sessions (fun _ => none) =
      fun _ => none := keep_self
  have hresumes : keep (· = A) (start cfg).resumes (fun _ => none) = fun _ => none := keep_self
  simp only [World.restrict, World.part, hconns, hthreads, hmade, hsessions, hresumes, keep_self]
  rfl

end Steps

/-! ## Runs of a part -/

def ownEvents (cfg : Config) (A : Bytes) : World → List Event → List Event :=
  trace (step cfg) fun w e => if w.eventOwner e = some A then [e] else []

/-- The actor's own events lead from its part of the broker to its part. -/
theorem run_ownEvents {cfg : Config} {w w' : World} {es : List Event} (A : Bytes) (hI : Owned w)
    (hrun : run (step cfg) w es = some w') :
    run (step cfg) (w.restrict cfg A) (ownEvents cfg A w es) = some (w'.restrict cfg A) := by
  induction es generalizing w with
  | nil =>
    cases hrun
    rfl
  | cons e es ih =>
    obtain ⟨u, hu, hes⟩ := run_cons hrun
    have hrest := ih (hI.step hu) hes
    simp only [ownEvents, trace, hu] at hrest ⊢
    split_ifs with he
    · simp only [List.singleton_append, run, step_restrict hI hu he, Option.bind_some]
      exact hrest
    · rw [restrict_step_other hI hu he] at hrest
      exact hrest

/-- The broker's part of an actor is what a broker holds that sees nothing else. -/
theorem run_alone {cfg : Config} {w : World} {es : List Event} (A : Bytes)
    (hrun : run (step cfg) (start cfg) es = some w) :
    run (step cfg) (start cfg) (ownEvents cfg A (start cfg) es) = some (w.restrict cfg A) := by
  have h := run_ownEvents A (Owned.start cfg) hrun
  rwa [restrict_start] at h

/-- Actors are isolated from each other: what the broker holds of an actor, and what it has sent
on the actor's behalf, is determined by the actor's own events. -/
theorem own_eq_of_ownEvents {cfg : Config} {A : Bytes} {es₁ es₂ : List Event} {w₁ w₂ : World}
    (h₁ : run (step cfg) (start cfg) es₁ = some w₁) (h₂ : run (step cfg) (start cfg) es₂ = some w₂)
    (hes : ownEvents cfg A (start cfg) es₁ = ownEvents cfg A (start cfg) es₂) :
    (∀ key, key.actorID = A → w₁.sessions key = w₂.sessions key ∧ w₁.made key = w₂.made key) ∧
    (∀ p, p.key.actorID = A → w₁.objs p = w₂.objs p) ∧
    (∀ k t, t.actorID = A → (w₁.conns k = some t ↔ w₂.conns k = some t)) ∧
    w₁.requests.filter (·.1 = A) = w₂.requests.filter (·.1 = A) := by
  have hr₁ := run_alone A h₁
  have hr₂ := run_alone A h₂
  rw [hes] at hr₁
  have heq : w₁.restrict cfg A = w₂.restrict cfg A := Option.some.inj (hr₁.symm.trans hr₂)
  refine ⟨fun key hkey => ⟨?_, ?_⟩, fun p hp => ?_, fun k t ht => ?_, congrArg World.requests heq⟩
  · have h := congrFun (congrArg World.sessions heq) key
    simpa only [World.restrict, World.part, keep, if_pos hkey] using h
  · have h := congrFun (congrArg World.made heq) key
    simpa only [World.restrict, World.part, keep, if_pos hkey] using h
  · have h := congrFun (congrArg World.objs heq) p
    simpa only [World.restrict, World.part, keep, if_pos hp] using h
  · rw [← conns_restrict (w := w₁) cfg ht, heq, conns_restrict cfg ht]

def beside : List Event :=
  -- another actor opens its session 1 before and has its tunnel cut after
  openOn 1 [98] [121] ++ openOn 0 [97] [120] ++
    [.run (.loop 1) (.io (.fail 0 [])), .run (.loop 1) (.io .ok), .run (.loop 1) (.pick 0)]

theorem own_eq_beside : ∃ w₁ w₂, run (step demo) (start demo) (openOn 0 [97] [120]) = some w₁ ∧
    run (step demo) (start demo) beside = some w₂ ∧ w₁.sessions ⟨[97], 1⟩ = some 0 ∧
    w₁.sessions ⟨[97], 1⟩ = w₂.sessions ⟨[97], 1⟩ ∧
    w₁.objs ⟨⟨[97], 1⟩, 0⟩ = w₂.objs ⟨⟨[97], 1⟩, 0⟩ := by
  have h₁ := (rfl : run (step demo) (start demo) (openOn 0 [97] [120]) = some _)
  have h₂ := (rfl : run (step demo) (start demo) beside = some _)
  have hes : ownEvents demo [97] (start demo) (openOn 0 [97] [120]) =
      ownEvents demo [97] (start demo) beside := by decide
  obtain ⟨hs, ho, -⟩ := own_eq_of_ownEvents h₁ h₂ hes
  exact ⟨_, _, h₁, h₂, by decide, (hs _ rfl).1, ho _ rfl⟩

end SubstratePoc.Server
