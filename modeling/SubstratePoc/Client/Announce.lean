import SubstratePoc.Client.Inversion

namespace SubstratePoc.Client
open Lib Tunnel Broker Sidecar

/-! ## The goroutine of the tunnel -/

/-- The actions by which `Run` gets from one connection to the next. -/
def CAct.steers : CAct → Bool
  | .dial | .hello _ | .publish _ | .readFrame _ => true
  | _ => false

/-- `Run` deals with one connection at a time: what it does about the next step of a connection is
the last thing that it has to do, and nobody else does such a thing. -/
structure Steered (w : World) : Prop where
  tunnel : ∀ a ∈ (w.threads .tunnel).dropLast, a.steers = false
  others : ∀ t, t ≠ .tunnel → ∀ a ∈ w.threads t, a.steers = false

section Step
variable {cfg : Config} {w w₁ w' : World} {a x : CAct} {push rest : List CAct} {t u : Thread}
  {k : ConnId} {e : Event}

theorem CDoes.steers (h : CDoes w a w₁ push) : (∀ x ∈ push.dropLast, x.steers = false) ∧
    (a.steers = false → ∀ x ∈ push, x.steers = false) := by
  cases h with
  | handleSession k f hl =>
    have hs : ∀ x ∈ (dispatch f).map (CAct.sess f.sessionID), x.steers = false := by
      simp [CAct.steers]
    exact ⟨fun x hx => hs x (List.mem_of_mem_dropLast hx), fun _ => hs⟩
  | sess sid b ob p hb =>
    have hs : ∀ x ∈ p.map (CAct.sess sid), x.steers = false := by
      simp [CAct.steers]
    exact ⟨fun x hx => hs x (List.mem_of_mem_dropLast hx), fun _ => hs⟩
  | ping k nonce w' hw next hn =>
    rcases hn with rfl | rfl <;> simp [CAct.steers]
  | _ => simp [CAct.steers]

theorem Steered.start (cfg : Config) : Steered (start cfg) where
  tunnel := by simp [Client.start]
  others := by
    intro t ht a ha
    cases t with
    | tunnel => exact absurd rfl ht
    | _ => simp [Client.start] at ha

theorem Steered.step (hs : Steered w) (h : step cfg w e = some w') : Steered w' := by
  cases step_steps h with
  | accept sid target hsid =>
    constructor
    · exact hs.tunnel
    · intro t ht a ha
      rcases mem_threads_accept ha with ⟨-, rfl⟩ | ha
      · rfl
      · exact hs.others t ht a ha
  | run t c a rest push w₁ ht hdo =>
    constructor
    · rcases threads_run hdo t rest .tunnel with ⟨rfl, heq⟩ | ⟨-, heq⟩ | ⟨k, -, hu, -⟩
      · rw [heq]
        exact last_replace (ht ▸ hs.tunnel) hdo.steers.1 hdo.steers.2
      · rw [heq]
        exact hs.tunnel
      · cases hu
    · intro u hu x hx
      rcases mem_threads_run hdo ht hx with hx | ⟨rfl, hp⟩ | ⟨k, -, -, rfl⟩
      · exact hs.others u hu x hx
      · exact hdo.steers.2 (hs.others u hu a (by simp [ht])) x hp
      · rfl

theorem Steered.pushed (hs : Steered w) (ht : w.threads t = a :: rest) (hdo : CDoes w a w₁ push)
    (ha : a.steers = true) (hx : x ∈ (w₁.setThread t (push ++ rest)).threads u)
    (hxs : x.steers = true) : x ∈ push := by
  have hu : ∀ v, ∀ y ∈ w.threads v, y.steers = true → v = .tunnel := by
    intro v y hy hys
    by_contra hv
    rw [hs.others v hv y hy] at hys
    cases hys
  obtain rfl : t = .tunnel := hu t a (by simp [ht]) ha
  obtain rfl : rest = [] := eq_nil_of_last (ht ▸ hs.tunnel) ha
  rcases threads_run hdo .tunnel [] u with ⟨-, heq⟩ | ⟨hne, heq⟩ | ⟨k, -, -, -, heq⟩ <;>
    rw [heq] at hx
  · simpa using hx
  · exact absurd (hu u x hx hxs) hne
  · rw [List.mem_singleton.mp hx] at hxs
    cases hxs

/-! ## HELLO -/

/-- The connection that the action has been given by one that has said HELLO on it. -/
def CAct.conn : CAct → Option ConnId
  | .publish k | .attaching k _ | .startPing k | .readFrame k | .handleFrame k _ | .pong k _
  | .tick k _ | .ping k _ | .sess _ (.attachFrame k) | .sess _ (.write k _) => some k
  | _ => none

/-- The frames of a connection begin with HELLO, and no other is one. -/
def Greeted (fs : List Frame) : Prop :=
  ∃ id rest, fs = helloFrame id :: rest ∧ ∀ f ∈ rest, f.type ≠ FrameType.typeHello.byte

structure Greets (w : World) : Prop where
  silent : ∀ k, w.conns ≤ k → (w.links k).sent = []
  pending : ∀ t k, .hello k ∈ w.threads t → k < w.conns ∧ (w.links k).sent = []
  known : ∀ t, ∀ a ∈ w.threads t, ∀ k, a.conn = some k → Greeted (w.links k).sent
  current : ∀ k, w.conn = some k → Greeted (w.links k).sent
  greeted : ∀ k, (w.links k).sent = [] ∨ Greeted (w.links k).sent

theorem Greeted.append {fs : List Frame} {f : Frame} (h : Greeted fs)
    (hf : f.type ≠ FrameType.typeHello.byte) : Greeted (fs ++ [f]) := by
  obtain ⟨id, rest, rfl, hrest⟩ := h
  refine ⟨id, rest ++ [f], rfl, fun g hg => ?_⟩
  rcases List.mem_append.mp hg with hg | hg
  · exact hrest g hg
  · rw [List.mem_singleton.mp hg]
    exact hf

theorem Greeted.ne_nil {fs : List Frame} (h : Greeted fs) : fs ≠ [] := by
  obtain ⟨id, rest, rfl, -⟩ := h
  simp

theorem CAct.Puts.cases {f : Frame} (h : a.Puts k f) :
    a = .hello k ∧ (∃ id, f = helloFrame id) ∨
    a.conn = some k ∧ f.type ≠ FrameType.typeHello.byte := by
  -- only HELLO is put on a connection that has not been greeted
  cases a with
  | hello j =>
    obtain ⟨rfl, h⟩ := h
    exact .inl ⟨rfl, h⟩
  | pong j nonce | ping j nonce =>
    obtain ⟨rfl, rfl⟩ := h
    exact .inr ⟨rfl, by simp [pongFrame, pingFrame, FrameType.byte]⟩
  | sess sid b =>
    cases b with
    | write j m =>
      obtain ⟨rfl, rfl⟩ := h
      refine .inr ⟨rfl, ?_⟩
      cases m <;> simp [Msg.frame, FrameType.byte]
    | _ => cases h
  | _ => cases h

theorem SDoes.conn_push {conn : Option ConnId} {ob ob' : Obj} {b : SAct} {p : List SAct}
    (h : SDoes conn ob b ob' p) (sid : UInt64) : ∀ x ∈ p, ∀ k, (CAct.sess sid x).conn = some k →
      (CAct.sess sid b).conn = some k ∨ conn = some k := by
  cases h with
  | onAttachOK offset =>
    intro x hx k hk
    obtain ⟨m, -, rfl⟩ := List.mem_map.mp hx
    cases hk
  | _ => simp_all [CAct.conn]

theorem CDoes.conn_push (h : CDoes w a w₁ push) : ∀ x ∈ push, ∀ k, x.conn = some k →
    a.conn = some k ∨ w.conn = some k ∨
      ∃ id, a = .hello k ∧ (w₁.links k).sent = (w.links k).sent ++ [helloFrame id] := by
  cases h with
  | hello j id w' hw =>
    intro x hx k hk
    rw [List.mem_singleton.mp hx] at hk
    cases hk
    simp only [World.write] at hw
    split_ifs at hw
    cases hw
    exact .inr (.inr ⟨id, rfl, by simp [World.setLink]⟩)
  | handleSession j f hl =>
    intro x hx k hk
    obtain ⟨b, hb, rfl⟩ := List.mem_map.mp hx
    rw [dispatch] at hb
    split at hb <;> simp only [List.mem_singleton, List.not_mem_nil] at hb <;> subst hb <;> cases hk
  | sess sid b ob p hb =>
    intro x hx k hk
    obtain ⟨b', hb', rfl⟩ := List.mem_map.mp hx
    exact (hb.conn_push sid b' hb' k hk).imp id .inl
  | ping j nonce w' hw next hn => rcases hn with rfl | rfl <;> simp [CAct.conn]
  | _ => simp_all [CAct.conn]

theorem CDoes.hello_push (h : CDoes w a w₁ push) (hk : .hello k ∈ push) :
    k < w₁.conns ∧ (w₁.links k).sent = [] := by
  cases h with
  | dial =>
    cases List.mem_singleton.mp hk
    exact ⟨Nat.lt_succ_self _, by simp [World.setLink, newLink]⟩
  | handleSession | sess => simp at hk
  | ping j nonce w' hw next hn => rcases hn with rfl | rfl <;> simp at hk
  | _ => simp at hk

theorem Greets.moves (hg : Greets w) (ha : a ∈ w.threads t) (hdo : CDoes w a w₁ push)
    (k : ConnId) : (w₁.links k).sent = (w.links k).sent ∨
      Greeted (w₁.links k).sent ∧ (a = .hello k ∨ Greeted (w.links k).sent) := by
  have hl := hdo.links k
  generalize w₁.links k = l at hl ⊢
  cases hl with
  | same | flagged | lost => exact .inl rfl
  | made _ hk => exact .inl (hg.silent k hk.ge).symm
  | sent f hf =>
    rcases hf.cases with ⟨rfl, id, rfl⟩ | ⟨hc, hf⟩
    · refine .inr ⟨⟨id, [], ?_, by simp⟩, .inl rfl⟩
      rw [(hg.pending t k ha).2]
      rfl
    · have := hg.known t a ha k hc
      exact .inr ⟨this.append hf, .inr this⟩

theorem Greets.start (cfg : Config) : Greets (Client.start cfg) where
  silent := fun _ _ => rfl
  pending := by
    intro t k hk
    cases t <;> simp [Client.start] at hk
  known := by
    intro t a ha k hk
    cases t <;> simp [Client.start] at ha
    subst ha
    cases hk
  current := by simp [Client.start]
  greeted := fun _ => .inl rfl

theorem Greets.run (hg : Greets w) (hs : Steered w) (ht : w.threads t = a :: rest)
    (hdo : CDoes w a w₁ push) : Greets (w₁.setThread t (push ++ rest)) := by
  have ha : a ∈ w.threads t := by simp [ht]
  have hmoves := hg.moves ha hdo
  have hkeep : ∀ k, Greeted (w.links k).sent → Greeted (w₁.links k).sent := by
    intro k hk
    rcases hmoves k with heq | ⟨h, -⟩
    · rwa [heq]
    · exact h
  have hempty : ∀ k, a ≠ .hello k → (w.links k).sent = [] → (w₁.links k).sent = [] := by
    intro k hne hk
    rcases hmoves k with heq | ⟨-, rfl | h⟩
    · rwa [heq]
    · exact absurd rfl hne
    · exact absurd hk h.ne_nil
  constructor
  · intro k hk
    have hk' : w.conns ≤ k := by
      have : w₁.conns ≤ k := hk
      rcases hdo.conns with h | ⟨-, h⟩ <;> omega
    refine hempty k ?_ (hg.silent k hk')
    rintro rfl
    exact absurd (hg.pending t k ha).1 (by omega)
  · intro u k hk
    cases hsteer : a.steers with
    | true =>
      exact hdo.hello_push (hs.pushed ht hdo hsteer hk rfl)
    | false =>
      rcases mem_threads_run hdo ht hk with hold | ⟨rfl, hp⟩ | ⟨j, -, -, hj⟩
      · obtain ⟨hlt, hnil⟩ := hg.pending u k hold
        refine ⟨?_, hempty k ?_ hnil⟩
        · show k < w₁.conns
          rcases hdo.conns with h | ⟨-, h⟩ <;> omega
        · rintro rfl
          cases hsteer
      · have := hdo.steers.2 hsteer _ hp
        cases this
      · cases hj
  · intro u x hx k hk
    rcases mem_threads_run hdo ht hx with hold | ⟨rfl, hp⟩ | ⟨j, rfl, -, rfl⟩
    · exact hkeep k (hg.known u x hold k hk)
    · rcases hdo.conn_push x hp k hk with hc | hc | ⟨id, rfl, heq⟩
      · exact hkeep k (hg.known u a ha k hc)
      · exact hkeep k (hg.current k hc)
      · exact ⟨id, [], heq.trans (by rw [(hg.pending u k ha).2]; rfl), by simp⟩
    · exact hkeep k (hg.known t _ ha k hk)
  · intro k hk
    have hk : w₁.conn = some k := hk
    rcases hdo.conn_eq with heq | heq | ⟨j, rfl, heq⟩ <;> rw [heq] at hk
    · exact hkeep k (hg.current k hk)
    · cases hk
    · cases hk
      exact hkeep k (hg.known t _ ha k rfl)
  · intro k
    rcases hmoves k with heq | ⟨h, -⟩
    · show (w₁.links k).sent = [] ∨ Greeted (w₁.links k).sent
      rw [heq]
      exact hg.greeted k
    · exact .inr h

theorem Greets.step (hg : Greets w) (hs : Steered w) (h : Client.step cfg w e = some w') :
    Greets w' := by
  cases step_steps h with
  | accept sid target hsid =>
    constructor
    · exact hg.silent
    · intro t k hk
      rcases mem_threads_accept hk with ⟨-, heq⟩ | hk
      · cases heq
      · exact hg.pending t k hk
    · intro t a ha k hk
      rcases mem_threads_accept ha with ⟨-, rfl⟩ | ha
      · cases hk
      · exact hg.known t a ha k hk
    · exact hg.current
    · exact hg.greeted
  | run t c a rest push w₁ ht hdo => exact hg.run hs ht hdo

end Step

/-- In every interleaving of the sessions, the ping loops and the reconnections, what is written
to a connection begins with HELLO, and HELLO is not written to it again. -/
theorem hello_first {cfg : Config} {es : List Event} {w : World}
    (h : run (step cfg) (start cfg) es = some w) (k : ConnId) :
    (w.links k).sent = [] ∨ Greeted (w.links k).sent := by
  have hstep (w : World) (e : Event) (w' : World) (hI : Steered w ∧ Greets w)
      (h : step cfg w e = some w') : Steered w' ∧ Greets w' :=
    ⟨hI.1.step h, hI.2.step hI.1 h⟩
  obtain ⟨-, hg⟩ := run_preserves hstep ⟨.start cfg, .start cfg⟩ h
  exact hg.greeted k

theorem hello_first_connected : ∃ w, run (step demo) (start demo)
      (opened 7 2 ++ connected [7] ++ opened 8 3) = some w ∧
    (w.links 0).sent = [helloFrame [97], (Msg.attach 7 0 [120]).frame, (Msg.opn 8 [120]).frame] ∧
    Greeted (w.links 0).sent := by
  have hrun := (rfl : run (step demo) (start demo)
    (opened 7 2 ++ connected [7] ++ opened 8 3) = some _)
  exact ⟨_, hrun, rfl, (hello_first hrun 0).resolve_left (by decide)⟩

/-! ## OPEN and ATTACH -/

/-- The message announces session `sid` with its target. -/
def Names (sid : UInt64) (target : Bytes) : Msg → Prop
  | .opn s t => s = sid ∧ t = target
  | .attach s _ t => s = sid ∧ t = target
  | _ => False

/-- What is left to do will announce session `sid` on connection `k`, if that stays current. -/
def CAct.Announces (k : ConnId) (sid : UInt64) (target : Bytes) : CAct → Prop
  | .attaching j sids => j = k ∧ sid ∈ sids
  | .sess s (.attachFrame j) => s = sid ∧ j = k
  | .sess s (.send m) => s = sid ∧ Names sid target m
  | .sess s (.write j m) => s = sid ∧ j = k ∧ Names sid target m
  | _ => False

/-- `WriteFrame` has been called on connection `k` with an announcement of session `sid`. -/
def Announced (w : World) (k : ConnId) (sid : UInt64) : Prop :=
  ∃ m, Names sid (w.objs sid).cs.target m ∧ m.frame ∈ (w.links k).sent ++ (w.links k).lost

/-- `Run` or the goroutine of session `sid` is about to announce it on connection `k`. -/
def Pending (w : World) (k : ConnId) (sid : UInt64) : Prop :=
  ∃ t, (t = .tunnel ∨ t = .proxy sid) ∧ ∃ a ∈ w.threads t, a.Announces k sid (w.objs sid).cs.target

structure Tells (w : World) : Prop where
  enlisting : ∀ t sid, .sess sid .enlist ∈ w.threads t → t = .proxy sid
  told : ∀ k sid, w.conn = some k → (w.objs sid).listed = true → Announced w k sid ∨ Pending w k sid

section Step
variable {cfg : Config} {w w₁ w' : World} {a x : CAct} {push rest : List CAct} {t u : Thread}
  {k : ConnId} {sid : UInt64} {e : Event}

theorem Announced.keep (h : Announced w k sid) (hdo : CDoes w a w₁ push) (hk : k < w.conns) :
    Announced w₁ k sid := by
  obtain ⟨m, hm, hf⟩ := h
  refine ⟨m, (hdo.ident sid).2 ▸ hm, ?_⟩
  have hl := hdo.links k
  generalize w₁.links k = l at hl ⊢
  cases hl with
  | same | flagged => exact hf
  | made _ heq => exact absurd heq (Nat.ne_of_lt hk)
  | sent f hp | lost f hp =>
    simp only [List.mem_append] at hf ⊢
    tauto

/-- Doing what announces the session announces it, or leaves something to do that does. -/
theorem CDoes.announce (h : CDoes w a w₁ push) (hn : (w.objs sid).cs.sessionID = sid)
    (hk : w.conn = some k) (ha : a.Announces k sid (w.objs sid).cs.target) :
    Announced w₁ k sid ∨ ∃ b ∈ push, b.Announces k sid (w.objs sid).cs.target := by
  cases h with
  | attached j => simp [CAct.Announces] at ha
  | attach j sids s hs =>
    obtain ⟨rfl, hsid⟩ := ha
    refine .inr ?_
    by_cases heq : s = sid
    · exact ⟨.sess s (.attachFrame j), by simp, heq, rfl⟩
    · exact ⟨.attaching j (sids.erase s), by simp, rfl,
        (List.mem_erase_of_ne (Ne.symm heq)).mpr hsid⟩
  | write s j m w' hw =>
    obtain ⟨rfl, rfl, hm⟩ := ha
    refine .inl ⟨m, ?_, ?_⟩ <;> cases hw <;> simp [World.setLink, hm]
  | sess s b ob p hb =>
    cases hb with
    | attachFrame j =>
      obtain ⟨rfl, rfl⟩ := ha
      exact .inr ⟨.sess s (.write j (w.objs s).cs.attachFrame), by simp, rfl, rfl, hn, rfl⟩
    | send m j hc =>
      obtain ⟨rfl, hm⟩ := ha
      rw [hk] at hc
      cases hc
      exact .inr ⟨.sess s (.write k m), by simp, rfl, rfl, hm⟩
    | sendNone m hc =>
      rw [hk] at hc
      cases hc
    | _ => simp [CAct.Announces] at ha
  | _ => simp [CAct.Announces] at ha

theorem CDoes.enlist_push (h : CDoes w a w₁ push) : .sess sid .enlist ∉ push := by
  cases h with
  | handleSession j f hl =>
    rw [dispatch]
    split <;> simp
  | sess s b ob p hb =>
    intro hp
    obtain ⟨b', hb', heq⟩ := List.mem_map.mp hp
    cases heq
    cases hb <;> simp at hb'
  | ping j nonce w' hw next hn => rcases hn with rfl | rfl <;> simp
  | _ => simp

theorem Tells.start (cfg : Config) : Tells (Client.start cfg) where
  enlisting := by
    intro t sid h
    cases t <;> simp [Client.start] at h
  told := by simp [Client.start]

theorem Tells.told_run (hw : Tells w) (ho : Opened w) (hs : Steered w) (hg : Greets w)
    (ht : w.threads t = a :: rest) (hdo : CDoes w a w₁ push) (hk : w₁.conn = some k)
    (hl : (w₁.objs sid).listed = true) : Announced w₁ k sid ∨
      Pending (w₁.setThread t (push ++ rest)) k sid := by
  have ha : a ∈ w.threads t := by simp [ht]
  have htarget := (hdo.ident sid).2
  have hpush : (t = .tunnel ∨ t = .proxy sid) →
      (∃ b ∈ push, b.Announces k sid (w.objs sid).cs.target) →
      Pending (w₁.setThread t (push ++ rest)) k sid := by
    rintro hu ⟨b, hb, hba⟩
    exact ⟨t, hu, b, mem_threads_push hb, htarget.symm ▸ hba⟩
  rcases hdo.conn_eq with heq | heq | ⟨j, rfl, heq⟩ <;> rw [heq] at hk
  · rcases hdo.listed hl with hold | ⟨rfl, hopn⟩
    · rcases hw.told k sid hk hold with hann | ⟨u, hu, x, hx, hxa⟩
      · refine .inl (hann.keep hdo ?_)
        by_contra hlt
        exact (hg.current k hk).ne_nil (hg.silent k (Nat.le_of_not_lt hlt))
      · rcases mem_threads_keep hdo ht (by rcases hu with rfl | rfl <;> simp) hx with
          ⟨rfl, rfl⟩ | hx
        · exact (hdo.announce (ho.named sid) hk hxa).imp_right (hpush hu)
        · exact .inr ⟨u, hu, x, hx, htarget.symm ▸ hxa⟩
    · exact .inr (hpush (.inr (hw.enlisting t sid ha)) ⟨_, hopn, rfl, ho.named sid, rfl⟩)
  · cases hk
  · cases hk
    have hu : t = .tunnel := by
      by_contra hu
      cases hs.others t hu _ ha
    cases hdo with
    | publish =>
      refine .inr (hpush (.inl hu) ⟨.attaching k w.live, by simp, rfl, ?_⟩)
      exact List.mem_filter.mpr ⟨ho.listed sid hl, hl⟩

theorem Tells.run (hw : Tells w) (ho : Opened w) (hs : Steered w) (hg : Greets w)
    (ht : w.threads t = a :: rest) (hdo : CDoes w a w₁ push) :
    Tells (w₁.setThread t (push ++ rest)) := by
  constructor
  · intro u sid hx
    rcases mem_threads_run hdo ht hx with hx | ⟨rfl, hp⟩ | ⟨k, -, -, hx⟩
    · exact hw.enlisting u sid hx
    · exact absurd hp hdo.enlist_push
    · cases hx
  · intro k sid hk hl
    exact hw.told_run ho hs hg ht hdo hk hl

theorem Tells.step (hw : Tells w) (ho : Opened w) (hs : Steered w) (hg : Greets w)
    (h : Client.step cfg w e = some w') : Tells w' := by
  cases step_steps h with
  | run t c a rest push w₁ ht hdo => exact hw.run ho hs hg ht hdo
  | accept s target hsid =>
    constructor
    · intro t sid hx
      rcases mem_threads_accept hx with ⟨rfl, heq⟩ | hx
      · cases heq
        rfl
      · exact hw.enlisting t sid hx
    · intro k sid hk hl
      have hne : sid ≠ s := by
        rintro rfl
        simp [Config.newObj] at hl
      have hold : (w.accept cfg s target).objs sid = w.objs sid := Function.update_of_ne hne _ _
      rw [hold] at hl
      rw [Announced, Pending, hold]
      refine (hw.told k sid hk hl).imp_right ?_
      rintro ⟨t, ht, x, hx, hxa⟩
      refine ⟨t, ht, x, ?_, hxa⟩
      have hu : t ≠ .proxy s := by
        rcases ht with rfl | rfl <;> simp [hne]
      rwa [World.accept_threads, Function.update_of_ne hu]

end Step

/-- Whenever a connection is current, every session in the map has been announced on it by its own
OPEN or ATTACH, with its own target, or somebody is about to do that; so no session is left out of
a connection, however its opening and the reconnection overlap. -/
theorem session_announced {cfg : Config} {es : List Event} {w : World} {k : ConnId} {sid : UInt64}
    (h : run (step cfg) (start cfg) es = some w) (hk : w.conn = some k)
    (hl : (w.objs sid).listed = true) : Announced w k sid ∨ Pending w k sid := by
  have hstep (w : World) (e : Event) (w' : World)
      (hI : Opened w ∧ Steered w ∧ Greets w ∧ Tells w) (h : step cfg w e = some w') :
      Opened w' ∧ Steered w' ∧ Greets w' ∧ Tells w' := by
    obtain ⟨ho, hs, hg, ht⟩ := hI
    exact ⟨ho.step h, hs.step h, hg.step hs h, ht.step ho hs hg h⟩
  obtain ⟨-, -, -, ht⟩ := run_preserves hstep ⟨.start cfg, .start cfg, .start cfg, .start cfg⟩ h
  exact ht.told k sid hk hl

/-- Session 7 is in the map before the connection is current, and session 8 has still to send its
OPEN. -/
theorem session_announced_connected : ∃ w, run (step demo) (start demo)
      (opened 7 2 ++ connected [7] ++ opened 8 1) = some w ∧ w.conn = some 0 ∧
    (w.objs 7).listed = true ∧ (w.objs 8).listed = true ∧
    Announced w 0 7 ∧ (Announced w 0 8 ∨ Pending w 0 8) := by
  have hrun := (rfl : run (step demo) (start demo)
    (opened 7 2 ++ connected [7] ++ opened 8 1) = some _)
  refine ⟨_, hrun, rfl, rfl, rfl, ⟨.attach 7 0 [120], ⟨rfl, rfl⟩, ?_⟩,
    session_announced hrun rfl rfl⟩
  decide

end SubstratePoc.Client
