import SubstratePoc.Deployment.Broker
import SubstratePoc.Deployment.Sidecar

namespace SubstratePoc.Deployment
open Lib Tunnel Broker Sidecar

/-- What every state of the deployment has. -/
structure Sound (cfg : Config) (w : World) : Prop where
  opened : Client.Opened w.sidecar
  steered : Client.Steered w.sidecar
  greets : Client.Greets w.sidecar
  truthful : Client.Says w.sidecar
  tidy : Tidy cfg.actorID w.sidecar
  owned : Server.Owned w.broker
  keyed : Server.Keyed w.broker
  bound : Server.Bound w.broker
  spawned : Server.Spawned w.broker
  solo : Solo cfg.actorID w.broker
  first : ∀ k, w.broker.conns k = none → w.up k <+: (w.sidecar.links k).sent
  whole : ∀ k, w.broker.conns k = none → w.closed k = false → w.up k = (w.sidecar.links k).sent
  heard : ∀ k t, w.broker.conns k = some t → (w.sidecar.links k).sent ≠ []
  unused : ∀ k, published w.sidecar ≤ k → Unused w.broker k
  quiet : ∀ k, published w.sidecar ≤ k → w.down k = []
  early : ∀ k t, published w.sidecar ≤ k → w.broker.conns k = some t → w.up k = []

theorem Sound.start (cfg : Config) : Sound cfg (start cfg) where
  opened := .start _
  steered := .start _
  greets := .start _
  truthful := .start _
  tidy := .start _ _
  owned := .start _
  keyed := .start _
  bound := .start _
  spawned := .start _
  solo := .start _ _
  first := fun _ _ => List.nil_prefix
  whole := fun _ _ _ => rfl
  heard := fun k t h => by cases h
  unused := fun k _ => .start _ k
  quiet := fun _ _ => rfl
  early := fun _ _ _ _ => rfl

/-! ## Steps -/

theorem popped_eq {q q' : ConnId → List Frame} {k : ConnId} {f : Frame} (h : popped q k f = some q') :
    ∃ rest, q k = f :: rest ∧ q' = Function.update q k rest := by
  unfold popped at h
  split_ifs at h with hf
  cases h
  cases hq : q k with
  | nil =>
    rw [hq] at hf
    cases hf
  | cons g rest =>
    rw [hq] at hf
    cases hf
    exact ⟨rest, rfl, rfl⟩

section Step
variable {cfg : Config} {w w' : World}

theorem step_sidecar {e : Client.Event} (h : step cfg w (.sidecar e) = some w') :
    ∃ down c, w.received cfg e = some down ∧ Client.step cfg.sidecar w.sidecar e = some c ∧
      w' = w.withSidecar c down := by
  simp only [step, Option.bind_eq_some_iff, Option.map_eq_some_iff] at h
  obtain ⟨down, hd, c, hc, rfl⟩ := h
  exact ⟨down, c, hd, hc, rfl⟩

theorem step_broker {e : Server.Event} (h : step cfg w (.broker e) = some w') :
    ∃ up s, w.taken e = some up ∧ Server.step cfg.broker w.broker e = some s ∧
      w' = w.withBroker s up := by
  simp only [step, Option.bind_eq_some_iff, Option.map_eq_some_iff] at h
  obtain ⟨up, hu, s, hs, rfl⟩ := h
  exact ⟨up, s, hu, hs, rfl⟩

theorem received_cases {e : Client.Event} {down : ConnId → List Frame}
    (h : w.received cfg e = some down) :
    (∃ t f k l rest, e = .run t (.frame f) ∧ w.sidecar.threads t = .readFrame k :: l ∧
      w.down k = f :: rest ∧ down = Function.update w.down k rest) ∨
    (∀ t f, e ≠ .run t (.frame f)) ∧ down = w.down := by
  unfold World.received at h
  split at h
  · rename_i t f
    split at h
    · rename_i k l ht
      obtain ⟨rest, hrest, rfl⟩ := popped_eq h
      exact .inl ⟨t, f, k, l, rest, rfl, ht, hrest, rfl⟩
    · cases h
  · split_ifs at h
    cases h
    exact .inr ⟨by simp, rfl⟩
  · rename_i hne _
    cases h
    exact .inr ⟨hne, rfl⟩

theorem received_name {t : Client.Thread} {id : Bytes} {down : ConnId → List Frame}
    (h : w.received cfg (.run t (.actorID id)) = some down) : id = cfg.actorID := by
  simp only [World.received] at h
  split_ifs at h with hid
  exact hid

theorem taken_cases {e : Server.Event} {up : ConnId → List Frame} (h : w.taken e = some up) :
    (∃ k f rest, e = .accept k f ∧ w.up k = f :: rest ∧ up = Function.update w.up k rest) ∨
    (∃ t f k l rest, e = .run t (.frame f) ∧ w.broker.threads t = .readFrame k :: l ∧
      w.up k = f :: rest ∧ up = Function.update w.up k rest) ∨
    (∀ k f, e ≠ .accept k f) ∧ (∀ t f, e ≠ .run t (.frame f)) ∧ up = w.up := by
  unfold World.taken at h
  split at h
  · rename_i k f
    obtain ⟨rest, hrest, rfl⟩ := popped_eq h
    exact .inl ⟨k, f, rest, rfl, hrest, rfl⟩
  · rename_i t f
    split at h
    · rename_i k l ht
      obtain ⟨rest, hrest, rfl⟩ := popped_eq h
      exact .inr (.inl ⟨t, f, k, l, rest, rfl, ht, hrest, rfl⟩)
    · cases h
  · rename_i hne hne'
    cases h
    exact .inr (.inr ⟨hne, hne', rfl⟩)

theorem client_run {c : Client.World} {t : Client.Thread} {ch : Client.CChoice}
    (h : Client.step cfg.sidecar w.sidecar (.run t ch) = some c) :
    ∃ a rest, w.sidecar.threads t = a :: rest ∧ ∃ push c₁,
      Client.cexec cfg.sidecar w.sidecar a ch = some (c₁, push) ∧
      c = c₁.setThread t (push ++ rest) := by
  simp only [Client.step] at h
  split at h
  · cases h
  · rename_i a rest ht
    obtain ⟨⟨c₁, push⟩, hex, rfl⟩ := Option.map_eq_some_iff.mp h
    exact ⟨a, rest, ht, push, c₁, hex, rfl⟩

/-- A connection once closed stays closed, until its number is given to a new one. -/
theorem closed_run {c c₁ : Client.World} {a : Client.CAct} {push : List Client.CAct}
    (h : Client.CDoes c a c₁ push) (k : ConnId) : (c₁.links k).closed = true ∨
      (c₁.links k).closed = (c.links k).closed ∨ k = c.conns ∧ (c₁.links k).sent = [] := by
  have hset : ∀ (j : ConnId) (l : Client.Link), l.closed = (c.links j).closed ∨ l.closed = true →
      ((c.setLink j l).links k).closed = true ∨
        ((c.setLink j l).links k).closed = (c.links k).closed := by
    intro j l hl
    show (Function.update c.links j l k).closed = true ∨
      (Function.update c.links j l k).closed = (c.links k).closed
    obtain ⟨rfl, heq⟩ | ⟨-, heq⟩ := update_cases c.links j l k <;> rw [heq]
    · exact hl.symm
    · exact .inr rfl
  have hwrites : ∀ {j : ConnId} {f : Frame}, Client.Writes c j f c₁ →
      (c₁.links k).closed = true ∨ (c₁.links k).closed = (c.links k).closed := by
    intro j f hw
    cases hw <;> exact hset j _ (.inl rfl)
  cases h with
  | dial =>
    obtain ⟨hk, heq⟩ | ⟨-, heq⟩ := update_cases c.links c.conns Client.newLink k
    · exact .inr (.inr ⟨hk, congrArg Client.Link.sent heq⟩)
    · exact .inr (.inl (congrArg Client.Link.closed heq))
  | hello j id w' hw =>
    rcases hwrites (Client.write_writes hw) with h | h
    · exact .inl h
    · exact .inr (.inl h)
  | pong j nonce w' hw | ping j nonce w' hw | write sid j m w' hw =>
    rcases hwrites hw with h | h
    · exact .inl h
    · exact .inr (.inl h)
  | closeConn j =>
    rcases hset j { c.links j with closed := true } (.inr rfl) with h | h
    · exact .inl h
    · exact .inr (.inl h)
  | cancelPing j =>
    rcases hset j { c.links j with cancelled := true } (.inl rfl) with h | h
    · exact .inl h
    · exact .inr (.inl h)
  | _ => exact .inr (.inl rfl)

theorem Sound.sent_step {e : Client.Event} {down : ConnId → List Frame} {c : Client.World}
    (hI : Sound cfg w) (hd : w.received cfg e = some down)
    (h : Client.step cfg.sidecar w.sidecar e = some c) :
    Tidy cfg.actorID c ∧ published w.sidecar ≤ published c ∧ ∀ k,
      ((c.links k).sent = (w.sidecar.links k).sent ∨
        ∃ f, (c.links k).sent = (w.sidecar.links k).sent ++ [f]) ∧
      ((c.links k).closed = false → (w.sidecar.links k).closed = true →
        (w.sidecar.links k).sent = [] ∧ (c.links k).sent = []) := by
  cases e with
  | accept sid target =>
    simp only [Client.step] at h
    split_ifs at h with hsid
    cases h
    refine ⟨hI.tidy.accept hsid, ?_, fun k => ⟨.inl rfl, fun h h' => ?_⟩⟩
    · rw [published, published, Client.World.accept_threads, Function.update_of_ne (by simp)]
      exact le_rfl
    · cases h.symm.trans h'
  | run t ch =>
    obtain ⟨a, rest, ht, push, c₁, hex, rfl⟩ := client_run h
    have hname : ∀ id, ch = .actorID id → id = cfg.actorID := by
      rintro id rfl
      exact received_name hd
    have hdo := Client.cexec_does hex
    refine ⟨hI.tidy.run hI.steered hI.greets ht hex hname,
      published_le hI.tidy hI.steered ht hdo, fun k => ⟨?_, fun hc hc' => ?_⟩⟩
    · rcases sent_run hI.greets hex hname k with heq | ⟨f, heq, -⟩
      · exact .inl heq
      · exact .inr ⟨f, heq⟩
    · have hc : (c₁.links k).closed = false := hc
      rcases closed_run hdo k with h | h | ⟨hk, hnil⟩
      · cases hc.symm.trans h
      · cases (hc.symm.trans h).trans hc'
      · exact ⟨hI.greets.silent k hk.ge, hnil⟩

section Sidecar
variable {c : Client.World} {k : ConnId}

/-- Until a connection is accepted, all that has been written to it is in flight. -/
theorem Sound.up_of_open (hI : Sound cfg w)
    (hsent : (c.links k).sent = (w.sidecar.links k).sent ∨
      ∃ f, (c.links k).sent = (w.sidecar.links k).sent ++ [f])
    (hk : w.broker.conns k = none) (hcl : w.closed k = false) :
    w.up k ++ w.carried k ((c.links k).sent.drop (w.sidecar.links k).sent.length) =
      (c.links k).sent := by
  rw [hI.whole k hk hcl, World.carried, hcl]
  rcases hsent with heq | ⟨f, heq⟩ <;> rw [heq] <;> simp

theorem Sound.up_of_new (hI : Sound cfg w)
    (hnew : (c.links k).closed = false → (w.sidecar.links k).closed = true →
      (w.sidecar.links k).sent = [] ∧ (c.links k).sent = [])
    (hk : w.broker.conns k = none) (hcl : w.closed k = true)
    (hcl' : (w.cut k || (c.links k).closed || (w.broker.conns k).any (·.closed)) = false) :
    w.up k ++ w.carried k ((c.links k).sent.drop (w.sidecar.links k).sent.length) =
      (c.links k).sent := by
  -- the number of the connection has been given to a new one
  simp only [World.closed, hk, Option.any_none, Bool.or_false, Bool.or_eq_false_iff,
    Bool.or_eq_true] at hcl hcl'
  obtain ⟨hnil, hnil'⟩ : (w.sidecar.links k).sent = [] ∧ (c.links k).sent = [] := by
    apply hnew hcl'.2
    rcases hcl with h | h
    · cases hcl'.1.symm.trans h
    · exact h
  have hup := hI.first k hk
  rw [hnil, List.prefix_nil] at hup
  rw [hup, hnil', List.drop_nil, World.carried, ite_self]
  rfl

/-- Nothing follows HELLO on a connection before it is published. -/
theorem Sound.sent_of_early (hI : Sound cfg w) {t : Server.Conn} (htidy : Tidy cfg.actorID c)
    (hsent : (c.links k).sent = (w.sidecar.links k).sent ∨
      ∃ f, (c.links k).sent = (w.sidecar.links k).sent ++ [f])
    (hk : published c ≤ k) (ht : w.broker.conns k = some t) :
    (c.links k).sent = (w.sidecar.links k).sent := by
  have hne := hI.heard k t ht
  rcases hsent with heq | ⟨f, heq⟩
  · exact heq
  · rcases htidy.greeting k hk with h | h <;> rw [h] at heq
    · simp at heq
    · have := congrArg List.length heq
      simp only [List.length_append, List.length_singleton] at this
      exact absurd (List.length_eq_zero_iff.mp (by omega)) hne

end Sidecar

theorem Sound.of_sidecar {e : Client.Event} (hI : Sound cfg w)
    (h : step cfg w (.sidecar e) = some w') : Sound cfg w' := by
  obtain ⟨down, c, hd, hc, rfl⟩ := step_sidecar h
  obtain ⟨htidy, hpub, hlinks⟩ := hI.sent_step hd hc
  constructor
  case opened => exact hI.opened.step hc
  case steered => exact hI.steered.step hc
  case greets => exact hI.greets.step hI.steered hc
  case truthful => exact hI.truthful.step hI.opened hc
  case tidy => exact htidy
  case owned => exact hI.owned
  case keyed => exact hI.keyed
  case bound => exact hI.bound
  case spawned => exact hI.spawned
  case solo => exact hI.solo
  case first =>
    intro k hk
    show w.up k ++ _ <+: (c.links k).sent
    cases hcl : w.closed k with
    | false => exact (hI.up_of_open (hlinks k).1 hk hcl).symm ▸ List.prefix_rfl
    | true =>
      rw [World.carried, if_pos hcl, List.append_nil]
      refine (hI.first k hk).trans ?_
      rcases (hlinks k).1 with heq | ⟨f, heq⟩ <;> rw [heq]
      exact List.prefix_append _ _
  case whole =>
    intro k hk hcl'
    cases hcl : w.closed k with
    | false => exact hI.up_of_open (hlinks k).1 hk hcl
    | true => exact hI.up_of_new (hlinks k).2 hk hcl hcl'
  case heard =>
    intro k t hk
    have := hI.heard k t hk
    show (c.links k).sent ≠ []
    rcases (hlinks k).1 with heq | ⟨f, heq⟩ <;> simp [heq, this]
  case unused => exact fun k hk => hI.unused k (hpub.trans hk)
  case quiet =>
    intro k hk
    have hnil := hI.quiet k (hpub.trans hk)
    rcases received_cases hd with ⟨t, f, j, l, rest, -, -, hj, rfl⟩ | ⟨-, rfl⟩
    · obtain ⟨rfl, heq⟩ | ⟨-, heq⟩ := update_cases w.down j rest k
      · rw [hnil] at hj
        cases hj
      · exact heq.trans hnil
    · exact hnil
  case early =>
    intro k t hk ht
    show w.up k ++ _ = []
    rw [hI.early k t (hpub.trans hk) ht, hI.sent_of_early htidy (hlinks k).1 hk ht, List.drop_length,
      World.carried, ite_self]
    rfl

/-- The first frame that the broker reads on a connection is HELLO. -/
theorem Sound.first_eq (hI : Sound cfg w) {k : ConnId} {f : Frame} {rest : List Frame}
    (hk : w.broker.conns k = none) (hf : w.up k = f :: rest) : f = Client.helloFrame cfg.actorID := by
  have hpre := hI.first k hk
  rw [hf] at hpre
  obtain ⟨tail, hsent⟩ := hpre
  rcases hI.greets.greeted k with hnil | ⟨id, l, heq, -⟩
  · rw [hnil] at hsent
    cases hsent
  · rw [heq] at hsent
    obtain ⟨rfl, -⟩ := List.cons.inj hsent
    exact hI.tidy.hello k _ (by rw [heq]; exact List.mem_cons_self) rfl

theorem sent_of_unused {s : Server.World} {k : ConnId} (h : Unused s k) : sent s k = [] := by
  unfold sent
  cases hk : s.conns k with
  | none => rfl
  | some t => exact (h.conn t hk).2

theorem conns_step {s : Server.World} {e : Server.Event} {k : ConnId} {t : Server.Conn}
    (hs : Server.step cfg.broker w.broker e = some s) (hk : s.conns k = some t) :
    (∃ t, w.broker.conns k = some t) ∨ ∃ f, e = .accept k f ∧ w.broker.conns k = none := by
  cases Server.step_steps hs with
  | hello j first hj hf =>
    obtain ⟨rfl, -⟩ | ⟨-, hk⟩ := Server.conns_setConn hk
    · exact .inr ⟨first, rfl, hj⟩
    · exact .inl ⟨t, hk⟩
  | refused | fire | resumer | exit => exact .inl ⟨t, hk⟩
  | run u c a rest push s₁ hu hdo => exact .inl (hdo.conn_of_conn hk)

theorem conns_none {s : Server.World} {e : Server.Event} {k : ConnId}
    (hs : Server.step cfg.broker w.broker e = some s) (hk : s.conns k = none) :
    w.broker.conns k = none := by
  cases Server.step_steps hs with
  | hello j first hj hf =>
    by_cases hkj : k = j
    · exact hkj ▸ hj
    · exact (Function.update_of_ne hkj ..).symm.trans hk
  | refused | fire | resumer | exit => exact hk
  | run u c a rest push s₁ hu hdo =>
    have hk : s₁.conns k = none := hk
    have := congrFun hdo.actor k
    rw [Server.World.actor, Server.World.actor, hk, eq_comm] at this
    exact Option.map_eq_none_iff.mp this

theorem Sound.loop_of_read (hI : Sound cfg w) {t : Server.Thread} {k : ConnId}
    {l : List Server.HAct} (ht : w.broker.threads t = .readFrame k :: l) :
    t = .loop k ∧ ∃ tc, w.broker.conns k = some tc := by
  have hmem : Server.HAct.readFrame k ∈ w.broker.threads t := by simp [ht]
  obtain rfl := hI.bound.home t _ hmem k rfl
  refine ⟨rfl, ?_⟩
  cases hk : w.broker.conns k with
  | none =>
    rw [hI.owned.idle k hk] at hmem
    cases hmem
  | some tc => exact ⟨tc, rfl⟩

section Broker
variable {e : Server.Event} {up : ConnId → List Frame} {s : Server.World} {k : ConnId}

theorem Sound.name_of_accept {f : Frame} (hI : Sound cfg w) (hu : w.taken (.accept k f) = some up)
    (hs : Server.step cfg.broker w.broker (.accept k f) = some s) : f.actorID = cfg.actorID := by
  obtain ⟨rest, hf, -⟩ := popped_eq hu
  cases hk : w.broker.conns k with
  | none =>
    rw [hI.first_eq hk hf]
    rfl
  | some t => simp [Server.step, hk] at hs

/-- Nothing is read from a connection before it is accepted. -/
theorem Sound.up_of_none (hI : Sound cfg w) (hu : w.taken e = some up)
    (hs : Server.step cfg.broker w.broker e = some s) (hk : w.broker.conns k = none)
    (hk' : s.conns k = none) : up k = w.up k := by
  rcases taken_cases hu with ⟨j, f, rest, rfl, hf, rfl⟩ | ⟨t, f, j, l, rest, -, ht, -, rfl⟩ |
    ⟨-, -, rfl⟩
  · by_cases hj : k = j
    · subst hj
      have hhello : Server.isHello f = true := by
        rw [hI.first_eq hk hf]
        simp [Server.isHello, Client.helloFrame, cfg.named]
      simp only [Server.step, hk, Option.isSome_none, Bool.false_eq_true, if_false, hhello,
        if_true, Option.some.injEq] at hs
      rw [← hs] at hk'
      simp [Server.World.setThread, Server.World.setConn] at hk'
    · exact Function.update_of_ne hj ..
  · obtain ⟨-, tc, htc⟩ := hI.loop_of_read ht
    refine Function.update_of_ne ?_ ..
    rintro rfl
    cases hk.symm.trans htc
  · rfl

/-- Nothing but HELLO is read from a connection before it is published. -/
theorem Sound.unread (hI : Sound cfg w) (hu : w.taken e = some up) (hk : published w.sidecar ≤ k)
    (f : Frame) : e ≠ .run (.loop k) (.frame f) := by
  rintro rfl
  rcases taken_cases hu with ⟨j, g, rest, he, -⟩ | ⟨t, g, j, l, rest, he, ht, hg, -⟩ | ⟨-, he, -⟩
  · cases he
  · cases he
    obtain ⟨hj, tc, htc⟩ := hI.loop_of_read ht
    cases hj
    rw [hI.early k tc hk htc] at hg
    cases hg
  · exact he _ _ rfl

theorem Sound.early_of_broker {t : Server.Conn} (hI : Sound cfg w) (hu : w.taken e = some up)
    (hs : Server.step cfg.broker w.broker e = some s) (hk : published w.sidecar ≤ k)
    (ht : s.conns k = some t) : up k = [] := by
  rcases conns_step hs ht with ⟨t', hold⟩ | ⟨f, rfl, hold⟩
  · have hnil := hI.early k t' hk hold
    have hne : ∀ (j : ConnId) (f : Frame) rest, w.up j = f :: rest → k ≠ j := by
      rintro j f rest hf rfl
      rw [hnil] at hf
      cases hf
    rcases taken_cases hu with ⟨j, f, rest, -, hf, rfl⟩ | ⟨-, f, j, l, rest, -, -, hf, rfl⟩ |
      ⟨-, -, rfl⟩
    · exact (Function.update_of_ne (hne j f rest hf) ..).trans hnil
    · exact (Function.update_of_ne (hne j f rest hf) ..).trans hnil
    · exact hnil
  · obtain ⟨rest, hf, rfl⟩ := popped_eq hu
    have hpre := (hI.first k hold).length_le
    rw [hf, List.length_cons] at hpre
    refine (Function.update_self ..).trans (List.length_eq_zero_iff.mp ?_)
    rcases hI.tidy.greeting k hk with h | h <;> rw [h] at hpre
    · cases hpre
    · exact Nat.le_zero.mp (Nat.le_of_succ_le_succ hpre)

end Broker

theorem Sound.of_broker {e : Server.Event} (hI : Sound cfg w)
    (h : step cfg w (.broker e) = some w') : Sound cfg w' := by
  obtain ⟨up, s, hu, hs, rfl⟩ := step_broker h
  have hname : ∀ k f, e = .accept k f → f.actorID = cfg.actorID := by
    rintro k f rfl
    exact hI.name_of_accept hu hs
  have hunused : ∀ k, published w.sidecar ≤ k → Unused s k := fun k hk =>
    (hI.unused k hk).step hI.bound (hI.unread hu hk) hs
  constructor
  case opened => exact hI.opened
  case steered => exact hI.steered
  case greets => exact hI.greets
  case truthful => exact hI.truthful
  case tidy => exact hI.tidy
  case owned => exact hI.owned.step hs
  case keyed => exact hI.keyed.step hI.owned hs
  case bound => exact hI.bound.step hI.keyed hI.owned hs
  case spawned => exact hI.spawned.step hI.keyed hs
  case solo => exact hI.solo.step hI.owned hname hs
  case first =>
    intro k hk
    have hold := conns_none hs hk
    show up k <+: _
    rw [hI.up_of_none hu hs hold hk]
    exact hI.first k hold
  case whole =>
    intro k hk hcl
    have hold := conns_none hs hk
    show up k = _
    rw [hI.up_of_none hu hs hold hk]
    apply hI.whole k hold
    have hk : s.conns k = none := hk
    have hcl : (w.cut k || (w.sidecar.links k).closed || (s.conns k).any (·.closed)) = false := hcl
    rwa [hk, ← hold] at hcl
  case heard =>
    intro k t hk
    rcases conns_step hs hk with ⟨t', hold⟩ | ⟨f, rfl, hold⟩
    · exact hI.heard k t' hold
    · obtain ⟨rest, hf, -⟩ := popped_eq hu
      intro hnil
      have hnil : (w.sidecar.links k).sent = [] := hnil
      have hpre := hI.first k hold
      rw [hnil, List.prefix_nil, hf] at hpre
      cases hpre
  case unused => exact hunused
  case quiet =>
    intro k hk
    show w.down k ++ _ = []
    rw [hI.quiet k hk, sent_of_unused (hunused k hk), List.drop_nil, World.carried, ite_self]
    rfl
  case early => exact fun k t hk ht => hI.early_of_broker hu hs hk ht

theorem Sound.of_cut {k : ConnId} {m n : ℕ} (hI : Sound cfg w)
    (h : step cfg w (.cut k m n) = some w') : Sound cfg w' := by
  simp only [step] at h
  split_ifs at h
  cases h
  have hnil : ∀ {q : ConnId → List Frame} {j : ConnId} (i : ℕ), q j = [] →
      Function.update q k ((q k).take i) j = [] := by
    intro q j i hj
    obtain ⟨rfl, heq⟩ | ⟨-, heq⟩ := update_cases q k ((q k).take i) j <;> rw [heq]
    · rw [hj, List.take_nil]
    · exact hj
  exact {
    hI with
    first := by
      intro j hj
      show Function.update w.up k ((w.up k).take m) j <+: (w.sidecar.links j).sent
      obtain ⟨rfl, heq⟩ | ⟨-, heq⟩ := update_cases w.up k ((w.up k).take m) j <;> rw [heq]
      · exact (List.take_prefix m _).trans (hI.first j hj)
      · exact hI.first j hj
    whole := by
      intro j hj hcl
      obtain ⟨rfl, heq⟩ | ⟨hne, heq⟩ := update_cases w.up k ((w.up k).take m) j
      · simp [World.closed] at hcl
      · refine heq.trans (hI.whole j hj ?_)
        simpa only [World.closed, Function.update_of_ne hne] using hcl
    quiet := fun j hj => hnil n (hI.quiet j hj)
    early := fun j t hj ht => hnil m (hI.early j t hj ht) }

theorem Sound.step {e : Event} (hI : Sound cfg w) (h : Deployment.step cfg w e = some w') :
    Sound cfg w' := by
  cases e with
  | sidecar e => exact hI.of_sidecar h
  | broker e => exact hI.of_broker h
  | cut k m n => exact hI.of_cut h

end Step

end SubstratePoc.Deployment
