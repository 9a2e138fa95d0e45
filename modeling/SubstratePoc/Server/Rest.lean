import SubstratePoc.Broker.Wake
import SubstratePoc.Server.Sessions

namespace SubstratePoc.Server
open Lib Tunnel Broker Resumer

/-- The actions of a goroutine that reads on when they are done. -/
def HAct.reading : HAct → Bool
  | .readFrame _ => true
  | .act _ a => a.reading
  | _ => false

/-- A goroutine has returned, or waits. -/
def World.Resting (w : World) : List HAct → Bool
  | [] => true
  | .readFrame _ :: _ => true
  | .act p a :: _ => Broker.Resting (w.objs p).s [a]
  | _ => false

def World.AtRest (w : World) : Prop := ∀ t, w.Resting (w.threads t) = true

def ReadersLast (w : World) : Prop := ∀ t, ∀ a ∈ (w.threads t).dropLast, a.reading = false

theorem ReadersLast.start (cfg : Config) : ReadersLast (start cfg) := by
  intro t a h
  cases h

theorem HDoes.reading {cfg : Config} {w w₁ : World} {a : HAct} {push : List HAct}
    (h : HDoes cfg w a w₁ push) : (∀ b ∈ push.dropLast, b.reading = false) ∧
      (a.reading = false → ∀ b ∈ push, b.reading = false) := by
  cases h with
  | handleFrame k f t ht =>
    have hall : ∀ b ∈ Server.handleFrame k f (w.lookup t.actorID f.sessionID), b.reading = false := by
      intro b hb
      cases mem_handleFrame hb <;> rfl
    exact ⟨fun b hb => hall b (List.mem_of_mem_dropLast hb), fun _ => hall⟩
  | act p a c r hr =>
    obtain ⟨hlast, hnone⟩ := hr.reading
    refine ⟨fun b hb => ?_, fun ha b hb => ?_⟩
    · rw [← List.map_dropLast] at hb
      obtain ⟨x, hx, rfl⟩ := List.mem_map.mp hb
      exact hlast x hx
    · obtain ⟨x, hx, rfl⟩ := List.mem_map.mp hb
      exact hnone ha x hx
  | _ => simp [HAct.reading, Act.reading]

theorem ReadersLast.step {cfg : Config} {w w' : World} {e : Event} (hI : ReadersLast w)
    (h : step cfg w e = some w') : ReadersLast w' := by
  cases step_steps h with
  | hello k first hk hf =>
    intro u x hx
    rcases threads_setThread _ (.loop k) [.readFrame k] u with ⟨-, h⟩ | ⟨-, h⟩ <;> rw [h] at hx
    · cases hx
    · exact hI u x hx
  | run t c a rest push w₁ ht hdo =>
    intro u x hx
    rcases threads_run hdo ht u with ⟨rfl, h⟩ | ⟨-, h⟩ | ⟨p, -, -, -, h⟩ <;> rw [h] at hx
    · obtain ⟨hlast, hnone⟩ := hdo.reading
      have hu := hI u
      rw [ht] at hu
      rcases List.eq_nil_or_concat' rest with rfl | ⟨l, b, rfl⟩
      · rw [List.append_nil] at hx
        exact hlast x hx
      · -- the action that moved was not the last one of its goroutine
        rw [← List.cons_append, List.dropLast_concat, List.forall_mem_cons] at hu
        rw [← List.append_assoc, List.dropLast_concat, List.mem_append] at hx
        exact hx.elim (hnone hu.1 x) (hu.2 x)
    · exact hI u x hx
    · cases hx
  | fire p hp =>
    intro u x hx
    rcases threads_setThread _ (.timer p _) [.act p .watchdog] u with ⟨-, h⟩ | ⟨-, h⟩ <;>
      rw [h] at hx
    · cases hx
    · exact hI u x hx
  | refused | resumer | exit => exact hI

theorem World.AtRest.pending {w : World} (h : w.AtRest) (hI : ReadersLast w) {t : Thread} {p : Ptr}
    {a : Act} (ha : .act p a ∈ w.threads t) : a = .readUpstream ∨ ∃ q after, a = .produce q after := by
  have hrest := h t
  have hlast := hI t
  generalize w.threads t = l at ha hrest hlast
  rcases l with _ | ⟨b, _ | ⟨b', l⟩⟩
  · cases ha
  · rw [← List.mem_singleton.mp ha] at hrest
    cases a <;> simp_all [World.Resting, Broker.Resting]
  · have hb : b.reading = false := hlast b (by simp)
    cases b with
    | act q x => cases x <;> simp_all [World.Resting, Broker.Resting, HAct.reading, Act.reading]
    | _ => simp_all [World.Resting, HAct.reading]

/-- A session's dial is started once, and each callback of its watchdog has a goroutine of its
own. -/
structure Spawned (w : World) : Prop where
  fresh : ∀ p, w.made p.key ≤ p.gen → w.threads (.reader p) = []
  undialed : ∀ u p, .startDial p ∈ w.threads u → w.threads (.reader p) = []
  single : ∀ u v p, .startDial p ∈ w.threads u → .startDial p ∈ w.threads v → u = v
  count : ∀ u p, (w.threads u).count (.startDial p) ≤ 1
  unfired : ∀ p n, w.made p.key ≤ p.gen ∨ (w.objs p).fired ≤ n → w.threads (.timer p n) = []

theorem Spawned.start (cfg : Config) : Spawned (start cfg) where
  fresh p _ := rfl
  undialed u p h := by cases h
  single u v p h := by cases h
  count u p := Nat.zero_le _
  unfired p n _ := rfl

theorem HDoes.dials {cfg : Config} {w w₁ : World} {a : HAct} {push : List HAct} {p : Ptr}
    (h : HDoes cfg w a w₁ push) (hp : .startDial p ∈ push) :
    p.gen = w.made p.key ∧ push.count (.startDial p) ≤ 1 ∧ ∀ q, a ≠ .startDial q := by
  cases h with
  | handleFrame => cases mem_handleFrame hp
  | openSession k sid target t ht hs =>
    obtain rfl : p = ⟨⟨t.actorID, sid⟩, w.made ⟨t.actorID, sid⟩⟩ := by simpa using hp
    exact ⟨rfl, by simp, by simp⟩
  | _ => simp at hp

theorem HDoes.fired {cfg : Config} {w w₁ : World} {a : HAct} {push : List HAct}
    (h : HDoes cfg w a w₁ push) (p : Ptr) :
    w.made p.key ≤ p.gen ∨ (w₁.objs p).fired = (w.objs p).fired := by
  obtain ⟨k, sid, target, t, -, -, -, rfl, -⟩ | ⟨q, b, c, r, rfl, hr, rfl, -⟩ | ⟨-, ho, -⟩ := h.objs
  · by_cases hp : p = ⟨⟨t.actorID, sid⟩, w.made ⟨t.actorID, sid⟩⟩
    · subst hp
      exact .inl le_rfl
    · exact .inr (by simp only [World.make, Function.update_of_ne hp])
  · rw [(actOn_frame hr).2.1]
    by_cases hp : p = q
    · subst hp
      exact .inr (by simp [Obj.after])
    · exact .inr (by rw [Function.update_of_ne hp])
  · exact .inr (by rw [ho])

section Run
variable {cfg : Config} {w w₁ : World} {a : HAct} {push rest : List HAct} {t : Thread}

theorem Spawned.mem_run (hI : Spawned w) (hdo : HDoes cfg w a w₁ push)
    (ht : w.threads t = a :: rest) {u : Thread} {x : HAct} (hx : x ∈ w.threads u) :
    u = t ∧ x = a ∨ x ∈ (w₁.setThread t (push ++ rest)).threads u := by
  refine (mem_run_of_mem hdo ht hx).imp id fun h => h.resolve_right ?_
  rintro ⟨p, rfl, rfl⟩
  rw [hI.undialed t p (by simp [ht])] at hx
  cases hx

theorem Spawned.startDial_run (hI : Spawned w) (hdo : HDoes cfg w a w₁ push)
    (ht : w.threads t = a :: rest) {u : Thread} {p : Ptr}
    (hp : .startDial p ∈ (w₁.setThread t (push ++ rest)).threads u) :
    .startDial p ∈ w.threads u ∧ a ≠ .startDial p ∨ u = t ∧ .startDial p ∈ push := by
  obtain ⟨hp, hrest⟩ | hp | ⟨q, -, -, hp⟩ := mem_threads_run hdo ht hp
  · refine .inl ⟨hp, ?_⟩
    rintro rfl
    have hu := hI.single u t p hp (by simp [ht])
    have hcount := hI.count t p
    rw [ht, List.count_cons_self] at hcount
    exact absurd (List.count_pos_iff.mpr (hrest hu)) (by omega)
  · exact .inr hp
  · cases hp

theorem Keyed.not_mem_of_dials (hK : Keyed w) (hdo : HDoes cfg w a w₁ push) {p : Ptr}
    (hp : .startDial p ∈ push) (u : Thread) : .startDial p ∉ w.threads u := by
  intro hu
  have := hK.named u _ hu p (by simp [HAct.names])
  rw [(hdo.dials hp).1] at this
  exact lt_irrefl _ this

theorem reader_run (hdo : HDoes cfg w a w₁ push) (ht : w.threads t = a :: rest) {p : Ptr}
    (hne : a ≠ .startDial p) (hnil : w.threads (.reader p) = []) :
    (w₁.setThread t (push ++ rest)).threads (.reader p) = [] := by
  rcases threads_run hdo ht (.reader p) with ⟨rfl, -⟩ | ⟨-, h⟩ | ⟨q, rfl, -, hq, -⟩
  · rw [hnil] at ht
    cases ht
  · rw [h, hnil]
  · cases hq
    exact absurd rfl hne

theorem Spawned.count_run (hI : Spawned w) (hK : Keyed w) (hdo : HDoes cfg w a w₁ push)
    (ht : w.threads t = a :: rest) (u : Thread) (p : Ptr) :
    ((w₁.setThread t (push ++ rest)).threads u).count (.startDial p) ≤ 1 := by
  rcases threads_run hdo ht u with ⟨rfl, h⟩ | ⟨-, h⟩ | ⟨q, -, -, -, h⟩
  · rw [h, List.count_append]
    by_cases hp : .startDial p ∈ push
    · have hrest : rest.count (.startDial p) = 0 := by
        refine List.count_eq_zero.mpr fun hr => hK.not_mem_of_dials hdo hp u ?_
        rw [ht]
        exact List.mem_cons_of_mem _ hr
      have := (hdo.dials hp).2.1
      omega
    · have := hI.count u p
      rw [ht, List.count_cons] at this
      rw [List.count_eq_zero.mpr hp]
      omega
  · rw [h]
    exact hI.count u p
  · rw [h]
    simp

theorem Spawned.run (hI : Spawned w) (hK : Keyed w) (hdo : HDoes cfg w a w₁ push)
    (ht : w.threads t = a :: rest) : Spawned (w₁.setThread t (push ++ rest)) := by
  refine ⟨fun p hp => ?_, fun u p hu => ?_, fun u v p hu hv => ?_, hI.count_run hK hdo ht,
    fun p n hn => ?_⟩
  · have hp' : w.made p.key ≤ p.gen := (hdo.made_le p.key).trans hp
    refine reader_run hdo ht ?_ (hI.fresh p hp')
    rintro rfl
    exact absurd (hK.named t (.startDial p) (by simp [ht]) p (by simp [HAct.names])) (by omega)
  · rcases hI.startDial_run hdo ht hu with ⟨hu, hne⟩ | ⟨-, hp⟩
    · exact reader_run hdo ht hne (hI.undialed u p hu)
    · obtain ⟨hgen, -, hne⟩ := hdo.dials hp
      exact reader_run hdo ht (hne p) (hI.fresh p hgen.ge)
  · rcases hI.startDial_run hdo ht hu with ⟨hu, -⟩ | ⟨hu, hp⟩ <;>
      rcases hI.startDial_run hdo ht hv with ⟨hv, -⟩ | ⟨hv, hp'⟩
    · exact hI.single u v p hu hv
    · exact absurd hu (hK.not_mem_of_dials hdo hp' u)
    · exact absurd hv (hK.not_mem_of_dials hdo hp v)
    · rw [hu, hv]
  · have hn' : w.made p.key ≤ p.gen ∨ (w.objs p).fired ≤ n := by
      rcases hdo.fired p with h | h
      · exact .inl h
      · exact hn.imp (hdo.made_le p.key).trans (h ▸ ·)
    have hnil := hI.unfired p n hn'
    rcases threads_run hdo ht (.timer p n) with ⟨rfl, -⟩ | ⟨-, h⟩ | ⟨q, -, -, hq, -⟩
    · rw [hnil] at ht
      cases ht
    · rw [h, hnil]
    · cases hq

end Run

theorem Spawned.of_start {w w' : World} {t : Thread} {x : HAct} (hI : Spawned w)
    (hmade : w'.made = w.made) (hthreads : w'.threads = Function.update w.threads t [x])
    (ht : ∀ p, t ≠ .reader p) (hx : ∀ p, x ≠ .startDial p)
    (hfired : ∀ p n, w.made p.key ≤ p.gen ∨ (w'.objs p).fired ≤ n →
      .timer p n ≠ t ∧ (w.made p.key ≤ p.gen ∨ (w.objs p).fired ≤ n)) : Spawned w' := by
  have hreader (p : Ptr) : w'.threads (.reader p) = w.threads (.reader p) := by
    rw [hthreads, Function.update_of_ne (ht p).symm]
  have hcases (u : Thread) : w'.threads u = [x] ∨ w'.threads u = w.threads u := by
    rw [hthreads]
    exact (threads_setThread w t [x] u).imp And.right And.right
  have hold (u : Thread) (p : Ptr) (hp : .startDial p ∈ w'.threads u) : .startDial p ∈ w.threads u := by
    rcases hcases u with h | h <;> rw [h] at hp
    · exact absurd (List.mem_singleton.mp hp).symm (hx p)
    · exact hp
  refine ⟨fun p hp => ?_, fun u p hu => ?_, fun u v p hu hv => ?_, fun u p => ?_, fun p n hn => ?_⟩
  · rw [hreader]
    exact hI.fresh p (hmade ▸ hp)
  · rw [hreader]
    exact hI.undialed u p (hold u p hu)
  · exact hI.single u v p (hold u p hu) (hold v p hv)
  · rcases hcases u with h | h <;> rw [h]
    · rw [List.count_singleton]
      split_ifs <;> omega
    · exact hI.count u p
  · rw [hmade] at hn
    obtain ⟨hne, hn⟩ := hfired p n hn
    rw [hthreads, Function.update_of_ne hne]
    exact hI.unfired p n hn

theorem Spawned.step {cfg : Config} {w w' : World} {e : Event} (hI : Spawned w) (hK : Keyed w)
    (h : step cfg w e = some w') : Spawned w' := by
  cases step_steps h with
  | hello k first hk hf =>
    exact hI.of_start (x := .readFrame k) rfl rfl (by simp) (by simp) fun p n hn => ⟨by simp, hn⟩
  | refused k first hf => exact hI
  | run t c a rest push w₁ ht hdo => exact hI.run hK hdo ht
  | fire p hp =>
    refine hI.of_start (x := .act p .watchdog) rfl rfl (by simp) (by simp) fun q n hn => ?_
    by_cases hq : q = p
    · subst hq
      have hn : (w.objs q).fired + 1 ≤ n := by
        simpa [World.setThread, World.setObj, Obj.fire, Nat.not_le.mpr hp] using hn
      refine ⟨?_, .inr (by omega)⟩
      rintro ⟨⟩
      omega
    · have hne : (Function.update w.objs p (w.objs p).fire q) = w.objs q := Function.update_of_ne hq ..
      refine ⟨?_, hn.imp id fun h => ?_⟩
      · rintro ⟨⟩
        exact hq rfl
      · rwa [← hne]
  | resumer A c st => exact { hI with }
  | exit A => exact { hI with }

/-- The goroutine that a step starts. -/
def starts (w : World) : Event → List Thread
  | .accept k _ => [.loop k]
  | .run t _ => match w.threads t with
    | .startDial p :: _ => [.reader p]
    | _ => []
  | .fire p => [.timer p (w.objs p).fired]
  | _ => []

theorem mem_starts {cfg : Config} {w w' : World} {e : Event} (h : step cfg w e = some w') (u : Thread) :
    w'.threads u = [] ∨ w.threads u ≠ [] ∨ u ∈ starts w e := by
  have hsame (hth : w'.threads u = w.threads u) :
      w'.threads u = [] ∨ w.threads u ≠ [] ∨ u ∈ starts w e := by
    rw [hth]
    exact (em _).imp id .inl
  cases step_steps h with
  | hello k first hk hf =>
    rcases threads_setThread _ (.loop k) [.readFrame k] u with ⟨rfl, -⟩ | ⟨-, h⟩
    · exact .inr (.inr (by simp [starts]))
    · exact hsame h
  | run t c a rest push w₁ ht hdo =>
    rcases threads_run hdo ht u with ⟨rfl, -⟩ | ⟨-, h⟩ | ⟨p, rfl, -, rfl, -⟩
    · exact .inr (.inl (by simp [ht]))
    · exact hsame h
    · exact .inr (.inr (by simp [starts, ht]))
  | fire p hp =>
    rcases threads_setThread (w.setObj p _) (.timer p (w.objs p).fired) [.act p .watchdog] u with
      ⟨rfl, -⟩ | ⟨-, h⟩
    · exact .inr (.inr (by simp [starts]))
    · exact hsame h
  | refused | resumer | exit => exact hsame rfl

theorem atRest_of_trace {cfg : Config} {es : List Event} {w : World}
    (hrun : run (step cfg) (start cfg) es = some w)
    (h : ∀ t ∈ trace (step cfg) starts (start cfg) es, w.Resting (w.threads t) = true) :
    w.AtRest := by
  -- a state is at rest if the goroutines that have been started are
  have hnil : ∀ t, w.threads t = [] ∨ t ∈ trace (step cfg) starts (start cfg) es := by
    have hstep (w : World) (e : Event) (w' : World) (l : List Thread)
        (hI : ∀ t, w.threads t = [] ∨ t ∈ l) (_ : True) (hs : step cfg w e = some w') :
        ∀ t, w'.threads t = [] ∨ t ∈ l ++ starts w e := by
      intro u
      rw [List.mem_append]
      rcases mem_starts hs u with h | h | h
      · exact .inl h
      · exact .inr (.inl ((hI u).resolve_left h))
      · exact .inr (.inr h)
    exact run_trace_invariant hstep (fun _ => .inl rfl) (.of_mem _ fun _ _ => trivial) hrun
  intro t
  rcases hnil t with ht | ht
  · rw [ht]
    rfl
  · exact h t ht

end SubstratePoc.Server
