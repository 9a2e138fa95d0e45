import SubstratePoc.Pair.Inversion

namespace SubstratePoc.Pair
open Lib Tunnel Broker Sidecar

/-- The session an action works on. -/
def BAct.session : BAct → Option ℕ
  | .startDial o | .act o _ => some o
  | _ => none

def BAct.removes : BAct → Bool
  | .act _ .removeSession => true
  | _ => false

theorem BAct.removes_eq_true {b : BAct} : b.removes = true ↔ ∃ o, b = .act o .removeSession := by
  constructor
  · intro h
    cases b with
    | act o a =>
      cases a with
      | removeSession => exact ⟨o, rfl⟩
      | _ => cases h
    | _ => cases h
  · rintro ⟨o, rfl⟩
    rfl

theorem BAct.removes_act {o : ℕ} {a : Act} (h : a ≠ .removeSession) :
    (BAct.act o a).removes = false := by
  by_contra h'
  obtain ⟨j, hj⟩ := BAct.removes_eq_true.mp (by simpa using h')
  exact h (BAct.act.inj hj).2

/-- How the sessions made for the key, the broker's map and the goroutines that destroy a session
stand to each other. -/
structure Keyed (w : System) : Prop where
  earlier : ∀ o, o + 1 < w.core.created → (w.core.objs o).s.dead = true
  absent : w.core.sessions = none → ∀ o < w.core.created, (w.core.objs o).s.dead = true
  latest : ∀ o, w.core.sessions = some o → o + 1 = w.core.created
  named : ∀ b ∈ w.pending, ∀ o, b.session = some o → o < w.core.created
  registered : ∀ k o, (w.core.links k).registered = some o → o < w.core.created
  removing : ∀ o, .act o .removeSession ∈ w.pending →
    w.core.sessions = some o ∧ (w.core.objs o).s.dead = true
  once : (w.pending.filter BAct.removes).length ≤ 1

theorem keyed_start (cfg : Config) : Keyed (start cfg) where
  earlier o h := absurd h (Nat.not_lt_zero _)
  absent _ o h := absurd h (Nat.not_lt_zero _)
  latest o h := by cases h
  named b h := by cases h
  registered k o h := by cases h
  removing o h := by cases h
  once := Nat.zero_le _

section Step
variable {cfg : Config} {w w' : System}

/-- The session that is alive is the one in the map. -/
theorem Keyed.of_alive (hI : Keyed w) {o : ℕ} (ho : o < w.core.created)
    (hd : (w.core.objs o).s.dead = false) : w.core.sessions = some o ∧ o + 1 = w.core.created := by
  have hlast : o + 1 = w.core.created := by
    by_contra hne
    rw [hI.earlier o (by omega)] at hd
    cases hd
  rcases w.core.sessions.eq_none_or_eq_some with hs | ⟨j, hs⟩
  · rw [hI.absent hs o ho] at hd
    cases hd
  · have hj := hI.latest j hs
    rw [hs, show j = o by omega]
    exact ⟨rfl, hlast⟩

theorem Keyed.of_quiet (hI : Keyed w) (hcreated : w'.core.created = w.core.created)
    (hsessions : w'.core.sessions = w.core.sessions)
    (hdead : ∀ o, (w'.core.objs o).s.dead = (w.core.objs o).s.dead)
    (hreg : ∀ k o, (w'.core.links k).registered = some o →
      (w.core.links k).registered = some o ∨ o < w.core.created)
    (hpending : ∀ b ∈ w'.pending, b ∈ w.pending ∨ ∀ o, b.session = some o → o < w.core.created)
    (hremoves : w'.pending.filter BAct.removes = w.pending.filter BAct.removes) : Keyed w' where
  earlier o h := by rw [hdead]; exact hI.earlier o (hcreated ▸ h)
  absent h o ho := by rw [hdead]; exact hI.absent (hsessions ▸ h) o (hcreated ▸ ho)
  latest o h := by rw [hcreated]; exact hI.latest o (hsessions ▸ h)
  named b h o ho := by
  -- steps that create no session and destroy none
    rw [hcreated]
    exact (hpending b h).elim (fun h => hI.named b h o ho) fun h => h o ho
  registered k o h := by
    rw [hcreated]
    exact (hreg k o h).elim (hI.registered k o) id
  removing o h := by
    have hmem : .act o .removeSession ∈ w'.pending.filter BAct.removes :=
      List.mem_filter.mpr ⟨h, rfl⟩
    rw [hremoves] at hmem
    rw [hsessions, hdead]
    exact hI.removing o (List.mem_filter.mp hmem).1
  once := hremoves ▸ hI.once

theorem Keyed.of_sidecar (hI : Keyed w) {a : SAct} {push : List SAct} {spawn : List (List BAct)}
    (h : SDoes w.core a w'.core push spawn) (hp : w'.pending = w.pending ++ spawn.flatten) :
    Keyed w' := by
  -- the sidecar does nothing to the broker's sessions
  have hf := h.frame
  apply hI.of_quiet hf.created hf.sessions (fun o => by rw [hf.objs])
  · intro k o ho
    exact ((hf.links k).registered o ho).imp id False.elim
  · intro b hb
    rw [hp, List.mem_append] at hb
    refine hb.imp id fun hb o ho => ?_
    obtain ⟨k, rfl, -⟩ := hf.spawn b hb
    cases ho
  · have hnil : spawn.flatten.filter BAct.removes = [] := by
      apply filter_eq_nil_of_false
      intro b hb
      obtain ⟨k, rfl, -⟩ := hf.spawn b hb
      rfl
    rw [hp, List.filter_append, hnil, List.append_nil]

theorem Keyed.of_openSession (hI : Keyed w) {ob : Obj} {b : BAct} {X Y : List BAct}
    (push : List BAct)
    (hs : w.core.sessions = none)
    (hcore : w'.core = { w.core with
      created := w.core.created + 1, objs := Function.update w.core.objs w.core.created ob,
      sessions := some w.core.created })
    (hp : w.pending = X ++ b :: Y) (hp' : w'.pending = X ++ (push ++ Y))
    (hpush : ∀ x ∈ push, (∀ o, x.session = some o → o = w.core.created) ∧ x.removes = false) :
    Keyed w' := by
  -- whoever is about to remove the key still has it in the map
  have hnone : ∀ x ∈ w.pending, x.removes = false := by
    intro x hx
    by_contra hr
    obtain ⟨o, rfl⟩ := BAct.removes_eq_true.mp (by simpa using hr)
    rw [(hI.removing o hx).1] at hs
    cases hs
  have hnone' : ∀ x ∈ w'.pending, x.removes = false := by
    intro x hx
    rw [hp', List.mem_append, List.mem_append] at hx
    rcases hx with hx | hx | hx
    · exact hnone x (by simp [hp, hx])
    · exact (hpush x hx).2
    · exact hnone x (by simp [hp, hx])
  have hobj : ∀ o < w.core.created, w'.core.objs o = w.core.objs o := by
    intro o ho
    rw [hcore]
    exact Function.update_of_ne ho.ne _ _
  refine ⟨?_, ?_, ?_, ?_, ?_, ?_, ?_⟩
  · intro o ho
    rw [hcore] at ho
    have hlt : o < w.core.created := Nat.lt_of_succ_lt_succ ho
    rw [hobj o hlt]
    exact hI.absent hs o hlt
  · intro h
    rw [hcore] at h
    cases h
  · intro o ho
    rw [hcore] at ho ⊢
    rw [Option.some.inj ho]
  · intro x hx o ho
    rw [hp', List.mem_append, List.mem_append] at hx
    rw [hcore]
    show o < w.core.created + 1
    rcases hx with hx | hx | hx
    · exact (hI.named x (by simp [hp, hx]) o ho).trans (Nat.lt_succ_self _)
    · rw [(hpush x hx).1 o ho]
      exact Nat.lt_succ_self _
    · exact (hI.named x (by simp [hp, hx]) o ho).trans (Nat.lt_succ_self _)
  · intro k o ho
    rw [hcore] at ho ⊢
    exact (hI.registered k o ho).trans (Nat.lt_succ_self _)
  · intro o ho
    cases hnone' _ ho
  · rw [filter_eq_nil_of_false hnone']
    exact Nat.zero_le _

theorem Keyed.of_destroy (hI : Keyed w) {o : ℕ} {X Y : List BAct}
    (hd : (w.core.objs o).s.dead = false) (hcreated : w'.core.created = w.core.created)
    (hsessions : w'.core.sessions = w.core.sessions)
    (hdead : (w'.core.objs o).s.dead = true) (hother : ∀ j ≠ o, w'.core.objs j = w.core.objs j)
    (hlinks : ∀ k j, (w'.core.links k).registered = some j → j < w.core.created)
    (hp : w.pending = X ++ .act o .destroy :: Y)
    (hp' : w'.pending = X ++ (.act o .removeSession :: Y)) : Keyed w' := by
  -- `destroy` finds the session alive
  obtain ⟨hs, hlast⟩ := hI.of_alive (hI.named (.act o .destroy) (by simp [hp]) o rfl) hd
  -- only a dead session's key is about to be removed, and this one was alive
  have hnone : ∀ x ∈ w.pending, x.removes = false := by
    intro x hx
    by_contra hr
    obtain ⟨j, rfl⟩ := BAct.removes_eq_true.mp (by simpa using hr)
    obtain ⟨hj, hjd⟩ := hI.removing j hx
    rw [hs, Option.some.injEq] at hj
    rw [← hj, hd] at hjd
    cases hjd
  have hall : ∀ j, (w.core.objs j).s.dead = true ∨ j = o → (w'.core.objs j).s.dead = true := by
    intro j hj
    by_cases hjo : j = o
    · rw [hjo, hdead]
    · rw [hother j hjo]
      exact hj.resolve_right hjo
  have hmem : ∀ x ∈ w'.pending, x ∈ w.pending ∨ x = .act o .removeSession := by
    intro x hx
    rw [hp', List.mem_append, List.mem_cons] at hx
    rw [hp, List.mem_append, List.mem_cons]
    tauto
  refine ⟨?_, ?_, ?_, ?_, ?_, ?_, ?_⟩
  · intro j hj
    exact hall j (.inl (hI.earlier j (hcreated ▸ hj)))
  · intro h
    rw [hsessions, hs] at h
    cases h
  · intro j hj
    rw [hcreated]
    exact hI.latest j (hsessions ▸ hj)
  · intro x hx j hj
    rw [hcreated]
    rcases hmem x hx with hx | rfl
    · exact hI.named x hx j hj
    · cases hj
      omega
  · intro k j hj
    rw [hcreated]
    exact hlinks k j hj
  · intro j hj
    rcases hmem _ hj with hj | hj
    · cases hnone _ hj
    · obtain ⟨rfl, -⟩ := BAct.act.inj hj
      exact ⟨hsessions ▸ hs, hdead⟩
  · have hX : X.filter BAct.removes = [] :=
      filter_eq_nil_of_false fun x hx => hnone x (by simp [hp, hx])
    have hY : Y.filter BAct.removes = [] :=
      filter_eq_nil_of_false fun x hx => hnone x (by simp [hp, hx])
    rw [hp', List.filter_append, hX, List.filter_cons_of_pos rfl, hY]
    rfl

theorem Keyed.of_removeSession (hI : Keyed w) {o : ℕ} {X Y : List BAct}
    (hcreated : w'.core.created = w.core.created) (hsessions : w'.core.sessions = none)
    (hdead : ∀ j, (w'.core.objs j).s.dead = (w.core.objs j).s.dead)
    (hlinks : ∀ k j, (w'.core.links k).registered = some j → j < w.core.created)
    (hp : w.pending = X ++ .act o .removeSession :: Y) (hp' : w'.pending = X ++ Y) :
    Keyed w' := by
  -- the key of a dead session is removed
  obtain ⟨hs, hd⟩ := hI.removing o (by simp [hp])
  have hlast := hI.latest o hs
  -- no second removal is under way, which would hit the key's next session
  have honce := hI.once
  rw [hp] at honce
  have hnone : w'.pending.filter BAct.removes = [] := by
    rw [hp']
    exact filter_eq_nil_of_false (forall_false_of_once honce rfl)
  refine ⟨?_, ?_, ?_, ?_, ?_, ?_, ?_⟩
  · intro j hj
    rw [hdead]
    exact hI.earlier j (hcreated ▸ hj)
  · intro _ j hj
    rw [hdead]
    rw [hcreated] at hj
    by_cases hjo : j = o
    · rw [hjo, hd]
    · exact hI.earlier j (by omega)
  · intro j hj
    rw [hsessions] at hj
    cases hj
  · intro x hx j hj
    rw [hcreated]
    rw [hp', List.mem_append] at hx
    apply hI.named x _ j hj
    rw [hp, List.mem_append, List.mem_cons]
    tauto
  · intro k j hj
    rw [hcreated]
    exact hlinks k j hj
  · intro j hj
    have := List.filter_eq_nil_iff.mp hnone _ hj
    exact absurd rfl this
  · rw [hnone]
    exact Nat.zero_le _

theorem Keyed.of_act (hI : Keyed w) {o : ℕ} {a : Act} {c : Choice} {r : Result} {X Y : List BAct}
    (h : Does (w.core.objs o).s a c r) (hcore : w'.core = w.core.objAct o a c r)
    (hp : w.pending = X ++ .act o a :: Y) (hp' : w'.pending = X ++ (r.push.map (.act o) ++ Y)) :
    Keyed w' := by
  have ho : o < w.core.created := hI.named (.act o a) (by simp [hp]) o rfl
  have haff := w.core.objAct_affects o a c r
  rw [← hcore] at haff
  have hcreated : w'.core.created = w.core.created := haff.created
  have hsessions : w'.core.sessions = if .removeSession ∈ r.eff then none else w.core.sessions :=
    haff.sessions
  have hobjs : w'.core.objs = Function.update w.core.objs o ((w.core.objs o).after a c r) :=
    haff.objs
  have hself : (w'.core.objs o).s = r.s := by rw [hobjs, Function.update_self]; rfl
  have hother : ∀ j ≠ o, w'.core.objs j = w.core.objs j := by
    intro j hj
    rw [hobjs]
    exact Function.update_of_ne hj _ _
  have hlinks : ∀ k j, (w'.core.links k).registered = some j →
      (w.core.links k).registered = some j ∨ j < w.core.created := by
    intro k j hj
    exact ((haff.links k).registered j hj).imp id fun (h : j = o) => h ▸ ho
  have hlt : ∀ k j, (w'.core.links k).registered = some j → j < w.core.created :=
    fun k j hj => (hlinks k j hj).elim (hI.registered k j) id
  -- the two critical sections of `destroy`, and everything else
  by_cases hd : a = .destroy ∧ (w.core.objs o).s.dead = false
  · obtain ⟨rfl, hd⟩ := hd
    cases h with
    | destroyAgain _ hd' => rw [hd] at hd'; cases hd'
    | destroy => exact hI.of_destroy hd hcreated hsessions (by rw [hself]) hother hlt hp hp'
  obtain ⟨hd', hpush, heff⟩ := h.dead_eq fun ha => by simpa [ha] using hd
  have hdead : ∀ j, (w'.core.objs j).s.dead = (w.core.objs j).s.dead := by
    intro j
    by_cases hj : j = o
    · rw [hj, hself, hd']
    · rw [hother j hj]
  by_cases hr : a = .removeSession
  · subst hr
    cases h
    exact hI.of_removeSession hcreated hsessions hdead hlt hp hp'
  rw [if_neg (heff hr)] at hsessions
  apply hI.of_quiet hcreated hsessions hdead hlinks
  · intro x hx
    rw [hp', List.mem_append, List.mem_append] at hx
    rw [hp, List.mem_append, List.mem_cons]
    rcases hx with hx | hx | hx
    · exact .inl (.inl hx)
    · obtain ⟨b, -, rfl⟩ := List.mem_map.mp hx
      exact .inr fun j hj => Option.some.inj hj ▸ ho
    · exact .inl (.inr (.inr hx))
  · rw [hp', hp]
    apply filter_replace (BAct.removes_act hr)
    intro x hx
    obtain ⟨b, hb, rfl⟩ := List.mem_map.mp hx
    exact BAct.removes_act fun hb' => hpush (hb' ▸ hb)

end Step

/-- What a broker action does that neither makes a session nor works on one: the sessions it names
have been looked up. -/
structure BDoes.Frame (w w' : Core) (a : BAct) (new : List BAct) : Prop where
  other : ∀ o b, a ≠ .act o b
  cs : w'.cs = w.cs
  listed : w'.listed = w.listed
  agent : w'.agent = w.agent
  agentOK : w'.agentOK = w.agentOK
  conns : w'.conns = w.conns
  created : w'.created = w.created
  objs : w'.objs = w.objs
  sessions : w'.sessions = w.sessions
  links : ∀ k, (w.links k).Grows (fun _ => False) (a = .reply k ·) (fun _ => False) (w'.links k)
  named : ∀ x ∈ new, ∀ o, x.session = some o →
    a.session = some o ∨ w.sessions = some o ∨ ∃ k, (w.links k).registered = some o
  removes : a.removes = false ∧ ∀ x ∈ new, x.removes = false

theorem handle_session {k : ConnId} {m : Msg} {s : Option ℕ} {x : BAct} (hx : x ∈ handle k m s) :
    x.removes = false ∧ ∀ o, x.session = some o → s = some o := by
  cases m <;> cases s <;> simp_all [handle, BAct.session, BAct.removes]

section Frame
variable {w : Core} {a : BAct} {new : List BAct}

theorem BDoes.Frame.same (ha : ∀ o b, a ≠ .act o b)
    (hnamed : ∀ x ∈ new, ∀ o, x.session = some o →
      a.session = some o ∨ w.sessions = some o ∨ ∃ k, (w.links k).registered = some o)
    (hremoves : a.removes = false ∧ ∀ x ∈ new, x.removes = false) : BDoes.Frame w w a new :=
  ⟨ha, rfl, rfl, rfl, rfl, rfl, rfl, rfl, rfl, fun _ => .refl _, hnamed, hremoves⟩

theorem BDoes.Frame.link {k : ConnId} {l : Link} (ha : ∀ o b, a ≠ .act o b)
    (hl : (w.links k).Grows (fun _ => False) (a = .reply k ·) (fun _ => False) l)
    (hnamed : ∀ x ∈ new, ∀ o, x.session = some o →
      a.session = some o ∨ w.sessions = some o ∨ ∃ k, (w.links k).registered = some o)
    (hremoves : a.removes = false ∧ ∀ x ∈ new, x.removes = false) :
    BDoes.Frame w (w.setLink k l) a new := by
  refine ⟨ha, rfl, rfl, rfl, rfl, rfl, rfl, rfl, rfl, Core.grows_setLink ?_, hnamed, hremoves⟩
  exact hl

end Frame

theorem BDoes.cases_session {cfg : Config} {w w' : Core} {a : BAct} {push : List BAct}
    {spawn : List (List BAct)} (h : BDoes cfg w a w' push spawn) :
    (∃ k target, a = .openSession k target ∧ w.sessions = none ∧ w' = { w with
        created := w.created + 1, objs := Function.update w.objs w.created (cfg.newObj target),
        sessions := some w.created } ∧
      push = [.act w.created (.bind k), .startDial w.created] ∧ spawn = []) ∨
    (∃ o b c r, a = .act o b ∧ Does (w.objs o).s b c r ∧ w' = w.objAct o b c r ∧
      push = r.push.map (.act o) ∧ spawn = []) ∨
    BDoes.Frame w w' a (push ++ spawn.flatten) := by
  -- a broker action makes a session, works on one, or does neither
  cases h with
  | openSession k target hs => exact .inl ⟨k, target, rfl, hs, rfl, rfl, rfl⟩
  | act o b c r hr => exact .inr (.inl ⟨o, b, c, r, rfl, hr, rfl, rfl, rfl⟩)
  | readFrame k m up hu =>
    refine .inr (.inr (.link (by simp) ?_ (by simp [BAct.session]) (by simp [BAct.removes])))
    exact ⟨fun x hx => .inl (hu ▸ List.mem_cons_of_mem _ hx), fun _ => .inl, fun _ => .inl⟩
  | handleFrame k m =>
    refine .inr (.inr (.same (by simp) ?_ ⟨rfl, ?_⟩))
    · intro x hx o ho
      simp only [List.flatten_nil, List.append_nil] at hx
      exact .inr (.inl ((handle_session hx).2 o ho))
    · intro x hx
      simp only [List.flatten_nil, List.append_nil] at hx
      exact (handle_session hx).1
  | replyOk k m =>
    unfold Core.toSidecar
    split_ifs
    · exact .inr (.inr (.same (by simp) (by simp) ⟨rfl, by simp⟩))
    · refine .inr (.inr (.link (by simp) ?_ (by simp) ⟨rfl, by simp⟩))
      exact ⟨fun _ => .inl, fun x hx => by simpa [eq_comm] using hx, fun _ => .inl⟩
  | detachAll k o ho =>
    refine .inr (.inr (.link (by simp) ?_ ?_ ⟨rfl, by simp [BAct.removes]⟩))
    · exact ⟨fun _ => .inl, fun _ => .inl, by simp⟩
    · intro x hx j hj
      simp at hx
      rcases hx with rfl | rfl
      · cases hj
        exact .inr (.inr ⟨k, ho⟩)
      · cases hj
  | closeConn k =>
    refine .inr (.inr (.link (by simp) ?_ (by simp) ⟨rfl, by simp⟩))
    exact ⟨fun _ => .inl, fun _ => .inl, fun _ => .inl⟩
  | _ =>
    exact .inr (.inr (.same (by simp) (by simp_all [BAct.session]) (by simp [BAct.removes])))

theorem bexec_created {cfg : Config} {w : Core} {a : BAct} {c : Choice}
    {r : Core × List BAct × List (List BAct)} (h : bexec cfg w a c = some r) :
    r.1.created = w.created ∨ ∃ k target, a = .openSession k target ∧
      cfg.allowTarget target = true ∧ w.sessions = none ∧ r.1.created = w.created + 1 := by
  rcases (bexec_does h).cases_session with ⟨k, target, rfl, hs, hcore, -⟩ |
    ⟨j, b, c', r', rfl, hr, hcore, -⟩ | hf
  · refine .inr ⟨k, target, rfl, ?_, hs, by rw [hcore]⟩
    by_contra hn
    rw [bexec, if_pos (by simpa using hn), Option.some.injEq] at h
    rw [← h] at hcore
    exact absurd (congrArg Core.created hcore) (Nat.succ_ne_self _).symm
  · rw [hcore]
    exact .inl (w.objAct_affects j b c' r').created
  · exact .inl hf.created

theorem BDoes.sidecar_eq {cfg : Config} {w w' : Core} {a : BAct} {push : List BAct}
    {spawn : List (List BAct)} (h : BDoes cfg w a w' push spawn) :
    w'.cs = w.cs ∧ w'.listed = w.listed ∧ w'.agentOK = w.agentOK := by
  rcases h.cases_session with ⟨k, target, -, -, rfl, -⟩ | ⟨j, b, c, r, -, -, rfl, -⟩ | hf
  · exact ⟨rfl, rfl, rfl⟩
  · have haff := w.objAct_affects j b c r
    exact ⟨haff.cs, haff.listed, haff.agentOK⟩
  · exact ⟨hf.cs, hf.listed, hf.agentOK⟩

theorem Keyed.step {cfg : Config} {w w' : System} {e : Event} (hI : Keyed w)
    (h : step cfg w e = some w') : Keyed w' := by
  cases step_moves h with
  | sidecar _ a push spawn hs hrun hp => exact hI.of_sidecar hs hp
  | quiet _ hq =>
    obtain ⟨ws, hp, hws⟩ := hq.pending
    refine hI.of_quiet hq.created hq.sessions ?_ ?_ ?_ ?_
    · intro o
      obtain ⟨b, hb⟩ := hq.objs o
      rw [hb]
    · intro k o ho
      exact ((hq.links k).registered o ho).imp id False.elim
    · intro b hb
      rw [hp, List.mem_append] at hb
      refine hb.imp id fun hb j hj => ?_
      obtain ⟨o, ho, rfl⟩ := hws b hb
      exact Option.some.inj hj ▸ ho
    · have hnil : ws.filter BAct.removes = [] := by
        apply filter_eq_nil_of_false
        intro b hb
        obtain ⟨o, -, rfl⟩ := hws b hb
        rfl
      rw [hp, List.filter_append, hnil, List.append_nil]
  | broker i c a X Y push spawn hn hb ht hproxy hp hp' =>
    rcases hb.cases_session with ⟨k, target, rfl, hs, hcore, rfl, rfl⟩ |
      ⟨o, b, c, r, rfl, hr, hcore, rfl, rfl⟩ | hf
    · rw [List.flatten_nil, List.append_nil] at hp'
      refine hI.of_openSession _ hs hcore hp hp' ?_
      simp [BAct.session, BAct.removes]
    · rw [List.flatten_nil, List.append_nil] at hp'
      exact hI.of_act hr hcore hp hp'
    · refine hI.of_quiet hf.created hf.sessions (fun o => by rw [hf.objs]) ?_ ?_ ?_
      · intro j o ho
        exact ((hf.links j).registered o ho).imp id False.elim
      · intro x hx
        refine (mem_pending_of_replace hp hp' x hx).imp id fun hx o ho => ?_
        rcases hf.named x hx o ho with h | h | ⟨k, h⟩
        · exact hI.named a (by simp [hp]) o h
        · have := hI.latest o h
          omega
        · exact hI.registered k o h
      · have hpush : ∀ x ∈ push, x.removes = false := fun x hx =>
          hf.removes.2 x (List.mem_append_left _ hx)
        have hspawn : spawn.flatten.filter BAct.removes = [] :=
          filter_eq_nil_of_false fun x hx => hf.removes.2 x (List.mem_append_right _ hx)
        rw [hp', hp, List.filter_append, filter_replace hf.removes.1 hpush, hspawn, List.append_nil]

theorem keyed_run {cfg : Config} {w : System} {es : List Event}
    (h : run (step cfg) (start cfg) es = some w) : Keyed w :=
  run_preserves (fun _ _ _ hI hs => hI.step hs) (keyed_start cfg) h

/-- What a step does to a session that has been made: one of its actions, or nothing but a timer
that fires. -/
theorem objs_step {cfg : Config} {w w' : System} {e : Event} (h : step cfg w e = some w') :
    w.core.created ≤ w'.core.created ∧ ∀ o < w.core.created,
      ((w'.core.objs o).s.dead = (w.core.objs o).s.dead ∧
        (w'.core.objs o).dest = (w.core.objs o).dest) ∨
      ∃ a c r, Does (w.core.objs o).s a c r ∧ w'.core.objs o = (w.core.objs o).after a c r := by
  cases step_moves h with
  | sidecar _ a push spawn hs hrun hp =>
    exact ⟨hs.frame.created.ge, fun o _ => .inl (by rw [hs.frame.objs]; exact ⟨rfl, rfl⟩)⟩
  | quiet _ hq =>
    refine ⟨hq.created.ge, fun o _ => .inl ?_⟩
    obtain ⟨b, hb⟩ := hq.objs o
    rw [hb]
    exact ⟨rfl, rfl⟩
  | broker i c a X Y push spawn hn hb ht hproxy hp hp' =>
    rcases hb.cases_session with ⟨k, target, rfl, hs, hcore, rfl, rfl⟩ |
      ⟨o, b, c, r, rfl, hr, hcore, rfl, rfl⟩ | hf
    · rw [hcore]
      refine ⟨Nat.le_succ _, fun j hj => .inl ?_⟩
      simp [hj.ne]
    · have haff := w.core.objAct_affects o b c r
      rw [hcore]
      refine ⟨haff.created.ge, fun j _ => ?_⟩
      by_cases hj : j = o
      · subst hj
        exact .inr ⟨b, c, r, hr, by simp [haff.objs]⟩
      · exact .inl (by simp [haff.objs, hj])
    · exact ⟨hf.created.ge, fun o _ => .inl (by rw [hf.objs]; exact ⟨rfl, rfl⟩)⟩

/-- No session made for the key has been destroyed. -/
def System.Alive (w : System) : Prop := ∀ o < w.core.created, (w.core.objs o).s.dead = false

instance (w : System) : Decidable w.Alive :=
  inferInstanceAs (Decidable (∀ o < w.core.created, (w.core.objs o).s.dead = false))

theorem System.Alive.of_step {cfg : Config} {w w' : System} {e : Event} (ha : w'.Alive)
    (h : step cfg w e = some w') : w.Alive := by
  obtain ⟨hle, hobjs⟩ := objs_step h
  intro o ho
  have hd' := ha o (ho.trans_le hle)
  obtain ⟨hd, -⟩ | ⟨a, c, r, hr, ho'⟩ := hobjs o ho
  · exact hd ▸ hd'
  · by_contra hd
    rw [ho'] at hd'
    have hdead : r.s.dead = true := hr.dead_mono (by simpa using hd)
    rw [show r.s.dead = false from hd'] at hdead
    cases hdead

theorem dest_eq_nil_of_step {cfg : Config} {w w' : System} {e : Event}
    (hw : ∀ o < w'.core.created, (w'.core.objs o).dest = []) (h : step cfg w e = some w') :
    ∀ o < w.core.created, (w.core.objs o).dest = [] := by
  obtain ⟨hle, hobjs⟩ := objs_step h
  intro o ho
  have hd := hw o (ho.trans_le hle)
  obtain ⟨-, heq⟩ | ⟨a, c, r, -, ho'⟩ := hobjs o ho
  · exact heq ▸ hd
  · rw [ho'] at hd
    exact (List.append_eq_nil_iff.mp hd).1

theorem Keyed.created_le_one {w : System} (hK : Keyed w) (ha : w.Alive) : w.core.created ≤ 1 := by
  by_contra h
  have hd := hK.earlier 0 (by omega)
  rw [ha 0 (by omega)] at hd
  cases hd

theorem Keyed.created_eq_zero {w : System} (hK : Keyed w) (ha : w.Alive)
    (hs : w.core.sessions = none) : w.core.created = 0 := by
  by_contra h
  have hd := hK.absent hs 0 (by omega)
  rw [ha 0 (by omega)] at hd
  cases hd

end SubstratePoc.Pair
