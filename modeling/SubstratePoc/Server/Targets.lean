import SubstratePoc.Server.Bindings

namespace SubstratePoc.Server
open Lib Tunnel Broker Resumer

/-- The target that a frame asks its session to have. -/
def wants (f : Frame) : Option Bytes :=
  match FrameType.ofByte f.type with
  | some .typeOpen => some f.target
  | some .typeAttach => if f.target = [] then none else some f.target
  | _ => none

def World.keyOf (w : World) (k : ConnId) (f : Frame) : Option Key :=
  (w.actor k).map fun A => ⟨A, f.sessionID⟩

/-- The handler of a frame has still to look into the map. -/
def HAct.looks : HAct → Bool
  | .handleFrame _ _ | .openSession _ _ _ | .attachSession _ _ _ _ | .reattach _ _ _ => true
  | _ => false

/-- An action by which a session is bound or acknowledged. -/
def attaches : Act → Bool
  | .bind _ | .onSidecarAttach _ => true
  | _ => false

/-- The broker, with the frame that each frame loop has read last. -/
structure Watch where
  w : World
  handling : List (ConnId × Frame)

namespace Watch

/-- The frame that a frame loop reads in a step. -/
def reads (W : Watch) : Event → Option (ConnId × Frame)
  | .run (.loop k) (.frame f) =>
    if (W.w.threads (.loop k)).head? = some (.readFrame k) then some (k, f) else none
  | _ => none

def step (cfg : Config) (W : Watch) (e : Event) : Option Watch :=
  (Server.step cfg W.w e).map fun w => ⟨w, match W.reads e with
    | some (k, f) => (k, f) :: W.handling.filter (·.1 ≠ k)
    | none => W.handling⟩

def start (cfg : Config) : Watch := ⟨Server.start cfg, []⟩

/-- The targets for which a key is in use: that of the session in the map, and those that the
handlers ask for which have still to look into it. -/
def claims (W : Watch) (key : Key) : List Bytes :=
  ((W.w.sessions key).map fun g => (W.w.objs ⟨key, g⟩).s.target).toList ++
    W.handling.filterMap fun (k, f) =>
      if W.w.keyOf k f = some key ∧ (W.w.threads (.loop k)).any HAct.looks then wants f else none

/-- A frame is read that asks for a target only where its key is in use for no other. -/
def Agrees (W : Watch) (e : Event) : Prop :=
  ∀ r ∈ W.reads e, ∀ key ∈ W.w.keyOf r.1 r.2, ∀ target ∈ wants r.2, ∀ x ∈ W.claims key, x = target

instance (W : Watch) (e : Event) : Decidable (W.Agrees e) := by
  unfold Agrees
  infer_instance

theorem mem_claims {W : Watch} {key : Key} {x : Bytes} : x ∈ W.claims key ↔
    (∃ g, W.w.sessions key = some g ∧ (W.w.objs ⟨key, g⟩).s.target = x) ∨
    ∃ k f, (k, f) ∈ W.handling ∧ W.w.keyOf k f = some key ∧
      (∃ a ∈ W.w.threads (.loop k), a.looks = true) ∧ wants f = some x := by
  simp only [claims, List.mem_append, Option.mem_toList, Option.map_eq_some_iff,
    List.mem_filterMap, Prod.exists, Option.ite_none_right_eq_some, List.any_eq_true, and_assoc]

end Watch

theorem target_of_does {s : Session} {a : Act} {c : Choice} {r : Result} (h : Does s a c r) :
    r.s.target = s.target := by
  cases h <;> rfl

theorem HDoes.target {cfg : Config} {w w₁ : World} {a : HAct} {push : List HAct}
    (h : HDoes cfg w a w₁ push) {p : Ptr} (hp : p.gen < w.made p.key) :
    (w₁.objs p).s.target = (w.objs p).s.target := by
  obtain ⟨k, sid, target, t, -, -, -, rfl, -⟩ | ⟨q, b, c, r, -, hr, rfl, -⟩ | ⟨-, ho, -⟩ := h.objs
  · have hne : p ≠ ⟨⟨t.actorID, sid⟩, w.made ⟨t.actorID, sid⟩⟩ := by
      rintro rfl
      exact lt_irrefl _ hp
    simp only [World.make, Function.update_of_ne hne]
  · rw [(actOn_frame hr).2.1]
    by_cases hq : p = q
    · subst hq
      rw [Function.update_self]
      exact target_of_does hr
    · rw [Function.update_of_ne hq]
  · rw [ho]

theorem attaches_of_does {s : Session} {a : Act} {c : Choice} {r : Result} (h : Does s a c r) :
    ∀ b ∈ r.push, attaches b = false := by
  cases h with
  | produceDone after => cases after <;> simp [After.acts, attaches]
  | attach => simp [attaches]
  | _ => simp [attaches]

/-- What is left to do for a frame carries its id and its target, and what it does to a session it
does to one with that target. -/
def HAct.Serves (w : World) (f : Frame) : HAct → Prop
  | .handleFrame _ g => g = f
  | .openSession _ sid target => sid = f.sessionID ∧ wants f = some target
  | .attachSession _ sid _ target => sid = f.sessionID ∧ (target ≠ [] → wants f = some target)
  | .reattach _ sid _ => sid = f.sessionID
  | .act p a => attaches a = true → p.key.sessionID = f.sessionID ∧
    ∀ target, wants f = some target → (w.objs p).s.target = target
  | _ => True

theorem HAct.Serves.mono {w w₁ : World} {f : Frame} {a : HAct} (h : a.Serves w f)
    (ho : ∀ p ∈ a.names, (w₁.objs p).s.target = (w.objs p).s.target) : a.Serves w₁ f := by
  cases a with
  | act p a =>
    intro ha
    rw [ho p (by simp [HAct.names])]
    exact h ha
  | _ => exact h

theorem handleFrame_serves (w : World) (k : ConnId) (f : Frame) (s : Option Ptr) :
    ∀ b ∈ handleFrame k f s, b.Serves w f := by
  unfold handleFrame
  split <;> rename_i ht
  · simp [HAct.Serves]
  · simp [HAct.Serves, wants, ht]
  · simp +contextual [HAct.Serves, wants, ht]
  all_goals simp [HAct.Serves, attaches]

theorem HDoes.serves {cfg : Config} {w w₁ : World} {a : HAct} {push : List HAct} {k : ConnId}
    {f : Frame} (h : HDoes cfg w a w₁ push) (hk : ∀ j, a.home = some j → j = k)
    (ha : a.Serves w f) (hnew : ∀ j g, .handleFrame j g ∉ push)
    (hre : ∀ sid offset target, a = .attachSession k sid offset target →
      .openSession k sid target ∈ push → target ≠ [])
    (hmap : a.looks = true → ∀ key g target, w.keyOf k f = some key → w.sessions key = some g →
      wants f = some target → (w.objs ⟨key, g⟩).s.target = target) :
    ∀ b ∈ push, b.Serves w₁ f := by
  have hkey {j : ConnId} {t : Conn} (hj : j = k) (ht : w.conns j = some t) :
      w.keyOf k f = some ⟨t.actorID, f.sessionID⟩ := by
    simp [World.keyOf, World.actor, ← hj, ht]
  cases h with
  | readFrame j g => exact absurd List.mem_cons_self (hnew j g)
  | handleFrame j g t ht =>
    obtain rfl : g = f := ha
    exact handleFrame_serves w j g _
  | openAgain j sid target => simpa [HAct.Serves] using ⟨ha.1, fun _ => ha.2⟩
  | openSession j sid target t ht hs =>
    obtain ⟨rfl, hw⟩ := ha
    simp [HAct.Serves, attaches, World.make, newSession, hw]
  | attach j sid offset target t ht g hs =>
    obtain ⟨rfl, -⟩ := ha
    have hg (x : Bytes) := hmap rfl _ g x (hkey (hk j rfl) ht) hs
    simpa [HAct.Serves, attaches] using hg
  | recreate j sid offset target =>
    obtain rfl := hk j rfl
    simpa [HAct.Serves] using ⟨⟨ha.1, ha.2 (hre sid offset target rfl (by simp))⟩, ha.1⟩
  | reattach j sid offset t ht g hs =>
    obtain rfl : sid = f.sessionID := ha
    have hg (x : Bytes) := hmap rfl _ g x (hkey (hk j rfl) ht) hs
    simpa [HAct.Serves, attaches] using hg
  | act p a c r hr =>
    intro b hb
    obtain ⟨x, hx, rfl⟩ := List.mem_map.mp hb
    intro hx'
    rw [attaches_of_does hr x hx] at hx'
    cases hx'
  | _ => simp [HAct.Serves, attaches]

theorem HDoes.looks {cfg : Config} {w w₁ : World} {a : HAct} {push : List HAct}
    (h : HDoes cfg w a w₁ push) (hnew : ∀ j g, .handleFrame j g ∉ push) :
    ∀ b ∈ push, b.looks = true → a.looks = true := by
  cases h with
  | readFrame j g => exact absurd List.mem_cons_self (hnew j g)
  | handleFrame => exact fun _ _ _ => rfl
  | act p a c r hr =>
    intro b hb hl
    obtain ⟨x, -, rfl⟩ := List.mem_map.mp hb
    cases hl
  | _ => simp [HAct.looks]

theorem HDoes.readFrame_not_mem {cfg : Config} {w w₁ : World} {a : HAct} {push : List HAct}
    (h : HDoes cfg w a w₁ push) (hnew : ∀ j g, .handleFrame j g ∉ push) (j : ConnId) :
    .readFrame j ∉ push := by
  cases h with
  | readFrame j g => exact absurd List.mem_cons_self (hnew j g)
  | handleFrame k f t ht =>
    intro hj
    cases mem_handleFrame hj
  | _ => simp

namespace Watch

/-- What a step does: a loop reads a frame, a goroutine goes on, or no handler moves. -/
inductive Moves (cfg : Config) (W : Watch) : Event → Watch → Prop
  | read (k : ConnId) (f : Frame) (rest : List HAct)
    (ht : W.w.threads (.loop k) = .readFrame k :: rest) :
    Moves cfg W (.run (.loop k) (.frame f))
      ⟨W.w.setThread (.loop k) (.handleFrame k f :: .readFrame k :: rest),
        (k, f) :: W.handling.filter (·.1 ≠ k)⟩
  | run (u : Thread) (c : HChoice) (a : HAct) (rest push : List HAct) (w₁ : World)
    (ht : W.w.threads u = a :: rest) (hdo : HDoes cfg W.w a w₁ push)
    (hnew : ∀ j g, .handleFrame j g ∉ push)
    (hre : ∀ k sid offset target, a = .attachSession k sid offset target →
      .openSession k sid target ∈ push → target ≠ []) :
    Moves cfg W (.run u c) ⟨w₁.setThread u (push ++ rest), W.handling⟩
  | quiet (e : Event) (w' : World) (hs : w'.sessions = W.w.sessions)
    (ho : ∀ p, (w'.objs p).s.target = (W.w.objs p).s.target)
    (hth : ∀ k, w'.threads (.loop k) = [.readFrame k] ∨
      w'.threads (.loop k) = W.w.threads (.loop k) ∧ w'.conns k = W.w.conns k) :
    Moves cfg W e ⟨w', W.handling⟩

theorem pushed {cfg : Config} {w w₁ : World} {a : HAct} {c : HChoice} {push : List HAct}
    (h : hexec cfg w a c = some (w₁, push)) :
    (∀ j g, .handleFrame j g ∈ push → a = .readFrame j ∧ c = .frame g ∧ w₁ = w ∧
      push = [.handleFrame j g, .readFrame j]) ∧
    ∀ k sid offset target, a = .attachSession k sid offset target →
      .openSession k sid target ∈ push → target ≠ [] := by
  -- only `ReadFrame` returns a frame to handle, and only a target is recreated
  refine ⟨fun j g hg => ?_, ?_⟩
  · have hdo := hexec_does h
    cases hdo with
    | readFrame k f =>
      obtain ⟨rfl, rfl⟩ : j = k ∧ g = f := by simpa using hg
      simp only [hexec] at h
      split at h <;> simp_all
    | handleFrame k f t ht => cases mem_handleFrame hg
    | _ => simp at hg
  · rintro k sid offset target rfl hmem
    simp only [hexec, Option.map_eq_some_iff] at h
    obtain ⟨t, -, h⟩ := h
    split at h
    · cases h
      simp at hmem
    · split_ifs at h with hre
      · exact hre.2
      · cases h
        simp at hmem

theorem step_moves {cfg : Config} {W W' : Watch} {e : Event} (hB : Bound W.w)
    (h : step cfg W e = some W') : Moves cfg W e W' := by
  obtain ⟨w', hstep, rfl⟩ := Option.map_eq_some_iff.mp h
  have hsteps := step_steps hstep
  cases e with
  | run u c =>
    simp only [Server.step] at hstep
    split at hstep
    · cases hstep
    · rename_i a rest ht
      obtain ⟨⟨w₁, push⟩, hex, rfl⟩ := Option.map_eq_some_iff.mp hstep
      obtain ⟨hnew, hre⟩ := pushed hex
      by_cases hf : ∃ j g, .handleFrame j g ∈ push
      · obtain ⟨j, g, hg⟩ := hf
        obtain ⟨rfl, rfl, rfl, rfl⟩ := hnew j g hg
        obtain rfl := hB.home_run ht rfl
        simp only [reads, ht, List.head?_cons, if_pos]
        exact .read j g rest ht
      · have hr : W.reads (.run u c) = none := by
          unfold reads
          split
          · rename_i k f heq
            obtain ⟨rfl, rfl⟩ := Event.run.inj heq
            rw [ht, if_neg]
            rintro hk
            obtain rfl : a = .readFrame k := by simpa using hk
            cases hex
            exact hf ⟨k, f, by simp⟩
          · rfl
        simp only [hr]
        exact .run u c a rest push w₁ ht (hexec_does hex) (by simpa using hf) hre
  | accept k first =>
    cases hsteps with
    | hello _ _ hk hf =>
      refine .quiet _ _ rfl (fun _ => rfl) fun j => ?_
      by_cases hj : j = k
      · subst hj
        exact .inl (Function.update_self ..)
      · exact .inr ⟨Function.update_of_ne (by simpa using hj) .., Function.update_of_ne hj ..⟩
    | refused => exact .quiet _ _ rfl (fun _ => rfl) fun _ => .inr ⟨rfl, rfl⟩
  | fire p =>
    cases hsteps
    refine .quiet _ _ rfl (fun q => ?_) fun k => .inr ⟨?_, rfl⟩
    · obtain ⟨wd, hwd⟩ := update_fire W.w p q
      simp only [World.setThread, World.setObj, hwd]
    · simp [World.setThread, World.setObj]
  | resumer A c =>
    cases hsteps
    exact .quiet _ _ rfl (fun _ => rfl) fun _ => .inr ⟨rfl, rfl⟩
  | exit A =>
    cases hsteps
    exact .quiet _ _ rfl (fun _ => rfl) fun _ => .inr ⟨rfl, rfl⟩

/-- What is still to be done on a tunnel is for the frame that was read last, and every key is in
use for one target. -/
structure Aimed (W : Watch) : Prop where
  last : ∀ k j, .readFrame j ∉ (W.w.threads (.loop k)).dropLast
  entry : ∀ k, ∀ a ∈ W.w.threads (.loop k), a.looks = true → ∃ f, (k, f) ∈ W.handling
  serves : ∀ k f, (k, f) ∈ W.handling → ∀ a ∈ W.w.threads (.loop k), a.Serves W.w f
  single : ∀ key, ∀ x ∈ W.claims key, ∀ y ∈ W.claims key, x = y

theorem Aimed.start (cfg : Config) : Aimed (start cfg) where
  last k j h := by cases h
  entry k a h := by cases h
  serves k f h := by cases h
  single key x h := by cases h

theorem Aimed.read {W : Watch} {k : ConnId} {f : Frame} {rest : List HAct} (hI : Aimed W)
    (ht : W.w.threads (.loop k) = .readFrame k :: rest)
    (ha : ∀ key, W.w.keyOf k f = some key → ∀ target, wants f = some target →
      ∀ x ∈ W.claims key, x = target) :
    Aimed ⟨W.w.setThread (.loop k) (.handleFrame k f :: .readFrame k :: rest),
      (k, f) :: W.handling.filter (·.1 ≠ k)⟩ := by
  -- the loop reads the next frame when it has done all there was to do for the last
  obtain rfl : rest = [] := by
    have hlast := hI.last k k
    rw [ht] at hlast
    cases rest with
    | nil => rfl
    | cons x l => exact absurd List.mem_cons_self hlast
  have hself : (W.w.setThread (.loop k) [.handleFrame k f, .readFrame k]).threads (.loop k) =
      [.handleFrame k f, .readFrame k] := Function.update_self ..
  have hother {j : ConnId} (hj : j ≠ k) :
      (W.w.setThread (.loop k) [.handleFrame k f, .readFrame k]).threads (.loop j) =
        W.w.threads (.loop j) :=
    Function.update_of_ne (by simpa using hj) ..
  have hclaims (key : Key) (x : Bytes) (hx : x ∈ claims ⟨W.w.setThread (.loop k)
      [.handleFrame k f, .readFrame k], (k, f) :: W.handling.filter (·.1 ≠ k)⟩ key) :
      x ∈ W.claims key ∨ W.w.keyOf k f = some key ∧ wants f = some x := by
    obtain hs | ⟨j, g, hg, hkey, hl, hw⟩ := mem_claims.mp hx
    · exact .inl (mem_claims.mpr (.inl hs))
    · rcases List.mem_cons.mp hg with heq | hg
      · obtain ⟨rfl, rfl⟩ := Prod.mk.inj heq
        exact .inr ⟨hkey, hw⟩
      · obtain ⟨hg, hj⟩ := List.mem_filter.mp hg
        simp only [hother (by simpa using hj)] at hl
        exact .inl (mem_claims.mpr (.inr ⟨j, g, hg, hkey, hl, hw⟩))
  refine ⟨fun j i => ?_, fun j a h hl => ?_, fun j g hg a h => ?_, fun key x hx y hy => ?_⟩
  · by_cases hj : j = k
    · subst hj
      simp [hself]
    · simpa only [hother hj] using hI.last j i
  · by_cases hj : j = k
    · subst hj
      exact ⟨f, List.mem_cons_self⟩
    · simp only [hother hj] at h
      obtain ⟨g, hg⟩ := hI.entry j a h hl
      exact ⟨g, List.mem_cons_of_mem _ (List.mem_filter.mpr ⟨hg, by simpa using hj⟩)⟩
  · rcases List.mem_cons.mp hg with heq | hg
    · obtain ⟨rfl, rfl⟩ := Prod.mk.inj heq
      simp only [hself] at h
      obtain rfl | rfl := by simpa using h
      · rfl
      · trivial
    · obtain ⟨hg, hj⟩ := List.mem_filter.mp hg
      simp only [hother (by simpa using hj)] at h
      exact (hI.serves j g hg a h).mono fun _ _ => rfl
  · rcases hclaims key x hx with hx | ⟨hkx, hx⟩ <;> rcases hclaims key y hy with hy | ⟨hky, hy⟩
    · exact hI.single key x hx y hy
    · exact ha key hky y hy x hx
    · exact (ha key hkx x hx y hy).symm
    · exact Option.some.inj (hx.symm.trans hy)

theorem Aimed.quiet {W : Watch} {w' : World} (hI : Aimed W) (hs : w'.sessions = W.w.sessions)
    (ho : ∀ p, (w'.objs p).s.target = (W.w.objs p).s.target)
    (hth : ∀ k, w'.threads (.loop k) = [.readFrame k] ∨
      w'.threads (.loop k) = W.w.threads (.loop k) ∧ w'.conns k = W.w.conns k) :
    Aimed ⟨w', W.handling⟩ := by
  have hclaims (key : Key) (x : Bytes) (hx : x ∈ claims ⟨w', W.handling⟩ key) :
      x ∈ W.claims key := by
    obtain ⟨g, hg, ht⟩ | ⟨j, g, hg, hkey, ⟨a, ha, hl⟩, hw⟩ := mem_claims.mp hx
    · simp only [hs, ho] at hg ht
      exact mem_claims.mpr (.inl ⟨g, hg, ht⟩)
    · obtain h | ⟨h, hc⟩ := hth j
      · simp only [h, List.mem_singleton] at ha
        subst ha
        cases hl
      · simp only [h] at ha
        simp only [World.keyOf, World.actor, hc] at hkey
        exact mem_claims.mpr (.inr ⟨j, g, hg, hkey, ⟨a, ha, hl⟩, hw⟩)
  refine ⟨fun j i => ?_, fun j a h hl => ?_, fun j g hg a h => ?_, fun key x hx y hy => ?_⟩
  · obtain h | ⟨h, -⟩ := hth j
    · simp [h]
    · simpa only [h] using hI.last j i
  · obtain h' | ⟨h', -⟩ := hth j <;> simp only [h'] at h
    · rw [List.mem_singleton.mp h] at hl
      cases hl
    · exact hI.entry j a h hl
  · obtain h' | ⟨h', -⟩ := hth j <;> simp only [h'] at h
    · rw [List.mem_singleton.mp h]
      trivial
    · exact (hI.serves j g hg a h).mono fun p _ => ho p
  · exact hI.single key x (hclaims key x hx) y (hclaims key y hy)

section Run
variable {cfg : Config} {W : Watch} {w₁ : World} {u : Thread} {a : HAct} {rest push : List HAct}

theorem Aimed.claims_run (hI : Aimed W) (hK : Keyed W.w) (hB : Bound W.w)
    (ht : W.w.threads u = a :: rest) (hdo : HDoes cfg W.w a w₁ push)
    (hnew : ∀ j g, .handleFrame j g ∉ push) {key : Key} {x : Bytes}
    (hx : x ∈ claims ⟨w₁.setThread u (push ++ rest), W.handling⟩ key) : x ∈ W.claims key := by
  -- a session is made for a target that its key is already in use for
  have hhead : a ∈ W.w.threads u := by simp [ht]
  obtain ⟨g, hg, htgt⟩ | ⟨j, f, hf, hkey, ⟨b, hb, hl⟩, hw⟩ := mem_claims.mp hx
  · have hold (hs : W.w.sessions key = some g) : x ∈ W.claims key := by
      have hlt : g < W.w.made key := by
        have := hK.latest key g hs
        omega
      exact mem_claims.mpr (.inl ⟨g, hs, (hdo.target (p := ⟨key, g⟩) hlt).symm.trans htgt⟩)
    obtain ⟨k, sid, target, t, rfl, hc, hs, rfl, -⟩ | ⟨p, b, c, r, -, hr, rfl, -⟩ | ⟨-, -, -, hs⟩ :=
      hdo.objs
    · by_cases hne : key = ⟨t.actorID, sid⟩
      · subst hne
        obtain rfl := hB.home_run ht rfl
        obtain ⟨f, hf⟩ := hI.entry k _ hhead rfl
        obtain ⟨rfl, hw⟩ := hI.serves k f hf _ hhead
        obtain rfl : W.w.made ⟨t.actorID, f.sessionID⟩ = g := by
          simpa [World.setThread, World.make] using hg
        obtain rfl : target = x := by simpa [World.setThread, World.make, newSession] using htgt
        refine mem_claims.mpr (.inr ⟨k, f, hf, ?_, ⟨_, hhead, rfl⟩, hw⟩)
        simp [World.keyOf, World.actor, hc]
      · refine hold ?_
        simpa only [World.setThread, World.make, Function.update_of_ne hne] using hg
    · refine hold ?_
      simp only [World.setThread, (actOn_frame hr).2.2.2] at hg
      split_ifs at hg
      · obtain ⟨-, h⟩ | ⟨-, h⟩ := update_cases W.w.sessions ⟨r.s.actorID, r.s.sessionID⟩ none key <;>
          rw [h] at hg
        · cases hg
        · exact hg
      · exact hg
    · refine hold ?_
      rwa [← hs]
  · have hkey' : W.w.keyOf j f = some key := by
      have hactor : (w₁.setThread u (push ++ rest)).actor = W.w.actor := hdo.actor
      rwa [World.keyOf, hactor] at hkey
    refine mem_claims.mpr (.inr ⟨j, f, hf, hkey', ?_, hw⟩)
    obtain ⟨hold, -⟩ | ⟨rfl, hpush⟩ | ⟨p, -, -, rfl⟩ := mem_threads_run hdo ht hb
    · exact ⟨b, hold, hl⟩
    · exact ⟨a, hhead, hdo.looks hnew b hpush hl⟩
    · cases hl

theorem Aimed.run (hI : Aimed W) (hK : Keyed W.w) (hB : Bound W.w)
    (ht : W.w.threads u = a :: rest) (hdo : HDoes cfg W.w a w₁ push)
    (hnew : ∀ j g, .handleFrame j g ∉ push)
    (hre : ∀ k sid offset target, a = .attachSession k sid offset target →
      .openSession k sid target ∈ push → target ≠ []) :
    Aimed ⟨w₁.setThread u (push ++ rest), W.handling⟩ := by
  have hhead : a ∈ W.w.threads u := by simp [ht]
  refine ⟨fun k j hj => ?_, fun k b hb hl => ?_, fun k f hf b hb => ?_, fun key x hx y hy => ?_⟩
  · rcases threads_run hdo ht (.loop k) with ⟨rfl, h⟩ | ⟨-, h⟩ | ⟨p, -, -, hu, -⟩
    · simp only [h] at hj
      have hlast := hI.last k j
      rw [ht] at hlast
      cases rest with
      | nil =>
        rw [List.append_nil] at hj
        exact hdo.readFrame_not_mem hnew j (List.mem_of_mem_dropLast hj)
      | cons y l =>
        rw [List.dropLast_append_of_ne_nil (by simp)] at hj
        rcases List.mem_append.mp hj with hj | hj
        · exact hdo.readFrame_not_mem hnew j hj
        · exact hlast (List.mem_cons_of_mem _ hj)
    · simp only [h] at hj
      exact hI.last k j hj
    · cases hu
  · obtain ⟨hold, -⟩ | ⟨rfl, hpush⟩ | ⟨p, -, -, rfl⟩ := mem_threads_run hdo ht hb
    · exact hI.entry k b hold hl
    · exact hI.entry k a hhead (hdo.looks hnew b hpush hl)
    · cases hl
  · obtain ⟨hold, -⟩ | ⟨rfl, hpush⟩ | ⟨p, -, -, rfl⟩ := mem_threads_run hdo ht hb
    · refine (hI.serves k f hf b hold).mono fun p hp => ?_
      exact hdo.target (hK.named (.loop k) b hold p hp)
    · refine (hdo.serves (fun j hj => ?_) (hI.serves k f hf a hhead) hnew (hre k) ?_ b hpush).mono
        fun _ _ => rfl
      · exact (Thread.loop.inj (hB.home_run ht hj)).symm
      · intro hl key g target hkey hs hw
        refine hI.single key _ ?_ _ (mem_claims.mpr (.inr ⟨k, f, hf, hkey, ⟨a, hhead, hl⟩, hw⟩))
        exact mem_claims.mpr (.inl ⟨g, hs, rfl⟩)
    · exact fun h => by cases h
  · exact hI.single key x (hI.claims_run hK hB ht hdo hnew hx) y (hI.claims_run hK hB ht hdo hnew hy)

end Run

theorem Aimed.step {cfg : Config} {W W' : Watch} {e : Event} (hI : Aimed W) (hK : Keyed W.w)
    (hB : Bound W.w) (he : W.Agrees e) (h : step cfg W e = some W') : Aimed W' := by
  cases step_moves hB h with
  | read k f rest ht =>
    refine hI.read ht fun key hkey target hw => he (k, f) ?_ key hkey target hw
    simp [reads, ht]
  | run u c a rest push w₁ ht hdo hnew hre => exact hI.run hK hB ht hdo hnew hre
  | quiet _ w' hs ho hth => exact hI.quiet hs ho hth

end Watch

/-- While no key is asked for with a target that is not the one it is in use for, a session that is
bound for an OPEN or an ATTACH with a target, or acknowledged, has the frame's target. -/
theorem target_eq_of_agrees {cfg : Config} {es : List Event} {W : Watch}
    (hes : Along (Watch.step cfg) Watch.Agrees (.start cfg) es)
    (hrun : run (Watch.step cfg) (.start cfg) es = some W) {k : ConnId} {f : Frame}
    (hf : (k, f) ∈ W.handling) {target : Bytes} (hw : wants f = some target) {p : Ptr} {a : Act}
    (ha : .act p a ∈ W.w.threads (.loop k)) (hb : a = .bind k ∨ ∃ offset, a = .onSidecarAttach offset) :
    p.key.sessionID = f.sessionID ∧ (W.w.objs p).s.target = target := by
  obtain ⟨-, -, -, hI⟩ : Owned W.w ∧ Keyed W.w ∧ Bound W.w ∧ W.Aimed := by
    have hstep (W : Watch) (e : Event) (W' : Watch)
        (hI : Owned W.w ∧ Keyed W.w ∧ Bound W.w ∧ W.Aimed) (he : W.Agrees e)
        (h : Watch.step cfg W e = some W') : Owned W'.w ∧ Keyed W'.w ∧ Bound W'.w ∧ W'.Aimed := by
      obtain ⟨hO, hK, hB, hA⟩ := hI
      obtain ⟨w', hw, rfl⟩ := Option.map_eq_some_iff.mp h
      exact ⟨hO.step hw, hK.step hO hw, hB.step hK hO hw, hA.step hK hB he h⟩
    exact run_invariant hstep ⟨.start cfg, .start cfg, .start cfg, .start cfg⟩ hes hrun
  have hserves : attaches a = true → _ := hI.serves k f hf _ ha
  obtain ⟨hsid, htarget⟩ := hserves (by rcases hb with rfl | ⟨offset, rfl⟩ <;> rfl)
  exact ⟨hsid, htarget target hw⟩

/-- A second tunnel of the actor carries a frame, and its loop takes a few actions. -/
def onSecond (m : Msg) (n : ℕ) : List Event :=
  .accept 1 { type := FrameType.typeHello.byte, actorID := [97] } ::
    .run (.loop 1) (.frame m.frame) :: List.replicate n (.run (.loop 1) (.io .ok))

theorem target_eq_reattached : ∃ W, run (Watch.step demo) (.start demo)
      (openOn 0 [97] [120] ++ onSecond (.attach 1 0 [120]) 2) = some W ∧
    .act ⟨⟨[97], 1⟩, 0⟩ (.bind 1) ∈ W.w.threads (.loop 1) ∧
    (W.w.objs ⟨⟨[97], 1⟩, 0⟩).s.target = [120] := by
  have hrun := (rfl : run (Watch.step demo) (.start demo)
    (openOn 0 [97] [120] ++ onSecond (.attach 1 0 [120]) 2) = some _)
  have hes : Along (Watch.step demo) Watch.Agrees (.start demo)
      (openOn 0 [97] [120] ++ onSecond (.attach 1 0 [120]) 2) := by decide
  refine ⟨_, hrun, List.mem_cons_self, ?_⟩
  exact (target_eq_of_agrees hes hrun List.mem_cons_self rfl List.mem_cons_self (.inl rfl)).2

/-- A sidecar that has started anew opens its session 1 for another target: it is bound to the old
session and gets an ATTACH_OK, and its bytes go to the old destination. -/
theorem target_ne_restarted : ∃ W W', run (Watch.step demo) (.start demo)
      (openOn 0 [97] [120] ++ onSecond (.opn 1 [121]) 3) = some W ∧
    (1, (Msg.opn 1 [121]).frame) ∈ W.handling ∧ wants (Msg.opn 1 [121]).frame = some [121] ∧
    .act ⟨⟨[97], 1⟩, 0⟩ (.bind 1) ∈ W.w.threads (.loop 1) ∧
    (W.w.objs ⟨⟨[97], 1⟩, 0⟩).s.target = [120] ∧
    run (Watch.step demo) W (List.replicate 5 (.run (.loop 1) (.io .ok)) ++
      .run (.loop 1) (.frame (Msg.data 1 0 [7]).frame) ::
        List.replicate 3 (.run (.loop 1) (.io .ok))) = some W' ∧
    (W'.w.conns 1).map (·.sent) = some [(Msg.attachOK 1 0).frame] ∧
    (W'.w.objs ⟨⟨[97], 1⟩, 0⟩).s.tconn = some 1 ∧ (W'.w.objs ⟨⟨[97], 1⟩, 0⟩).dest = [7] :=
  ⟨_, _, rfl, List.mem_cons_self, rfl, List.mem_cons_self, rfl, rfl, rfl, rfl, rfl⟩

end SubstratePoc.Server
