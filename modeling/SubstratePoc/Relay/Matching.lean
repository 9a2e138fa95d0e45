import SubstratePoc.Relay.Broker
import SubstratePoc.Lib.Run

namespace SubstratePoc.Relay
open Lib Tunnel

namespace Broker

def responses (b : Broker) (h : ℕ) : List Response :=
  b.written.filterMap fun x => if x.1 = h then some x.2 else none

/-- Where the `h`-th call of `HandleRun` is; one that has not begun will begin by reading. -/
def client (b : Broker) (h : ℕ) : Client := b.clients[h]?.getD .reading

structure Early (b : Broker) (h : ℕ) : Prop where
  ids : ∀ r, (r, h) ∉ b.ids
  silent : b.responses h = []
  chan : b.chans h = none

/-- The channel of a call that waits holds the first reply accepted under its id. -/
structure Waiting (b : Broker) (h : ℕ) (r : ReqID) : Prop where
  id : (r, h) ∈ b.ids
  pending : b.pending r = some h
  silent : b.responses h = []
  chan : b.chans h = (b.first r).map (·.msg)
  registered : ∀ a, b.first r = some a → a.registered = true

structure Answered (b : Broker) (h : ℕ) : Prop where
  once : (b.responses h).length ≤ 1
  own : ∀ msg, .reply msg ∈ b.responses h → ∃ r a, (r, h) ∈ b.ids ∧ b.first r = some a ∧
    a.msg = msg ∧ a.registered = true

def Held (b : Broker) (h : ℕ) : Client → Prop
  | .reading | .registering _ => b.Early h
  | .sending r _ _ | .awaiting r _ _ | .backingOff r _ _ _ | .parked r => b.Waiting h r
  | .leaving r => (r, h) ∈ b.ids ∧ b.pending r = some h ∧ b.Answered h
  | .returned => (∀ r, (r, h) ∈ b.ids → b.pending r = none) ∧ b.Answered h

theorem held_iff_waiting {b : Broker} {h : ℕ} {cl : Client} {r : ReqID}
    (hcl : cl.waitingFor = some r) : b.Held h cl ↔ b.Waiting h r := by
  cases cl <;> cases hcl <;> rfl

theorem Answered.of_silent {b : Broker} {h : ℕ} (hs : b.responses h = []) : b.Answered h where
  once := by simp [hs]
  own msg hm := by simp [hs] at hm

theorem Held.answered {b : Broker} {h : ℕ} {cl : Client} (hh : b.Held h cl) : b.Answered h := by
  cases cl with
  | reading | registering => exact .of_silent hh.silent
  | sending | awaiting | backingOff | parked => exact .of_silent hh.silent
  | leaving => exact hh.2.2
  | returned => exact hh.2

/-- What a step leaves to the `h`-th client. -/
structure Same (b b' : Broker) (h : ℕ) : Prop where
  ids : ∀ r, (r, h) ∈ b'.ids ↔ (r, h) ∈ b.ids
  pending : ∀ r, (r, h) ∈ b.ids → b'.pending r = b.pending r
  responses : b'.responses h = b.responses h
  chan : b'.chans h = b.chans h
  first : ∀ r, (r, h) ∈ b.ids → b'.first r = b.first r

theorem Same.refl (b : Broker) (h : ℕ) : Same b b h := ⟨fun _ => .rfl, fun _ _ => rfl, rfl, rfl,
  fun _ _ => rfl⟩

theorem Same.answered {b b' : Broker} {h : ℕ} (hs : Same b b' h) (ha : b.Answered h) :
    b'.Answered h where
  once := hs.responses ▸ ha.once
  own msg hm := by
    rw [hs.responses] at hm
    obtain ⟨r, a, hr, hf, hx⟩ := ha.own msg hm
    exact ⟨r, a, (hs.ids r).mpr hr, (hs.first r hr).trans hf, hx⟩

theorem Same.held {b b' : Broker} {h : ℕ} {cl : Client} (hs : Same b b' h) (hh : b.Held h cl) :
    b'.Held h cl := by
  have early (hh : b.Early h) : b'.Early h :=
    ⟨fun r hr => hh.ids r ((hs.ids r).mp hr), hs.responses.trans hh.silent, hs.chan.trans hh.chan⟩
  have waiting (r : ReqID) (hh : b.Waiting h r) : b'.Waiting h r := by
    have hf := hs.first r hh.id
    exact ⟨(hs.ids r).mpr hh.id, (hs.pending r hh.id).trans hh.pending,
      hs.responses.trans hh.silent, by rw [hs.chan, hf, hh.chan],
      fun a ha => hh.registered a (hf ▸ ha)⟩
  cases cl with
  | reading | registering => exact early hh
  | sending | awaiting | backingOff | parked => exact waiting _ hh
  | leaving r =>
    obtain ⟨hr, hp, ha⟩ := hh
    exact ⟨(hs.ids r).mpr hr, (hs.pending r hr).trans hp, hs.answered ha⟩
  | returned =>
    refine ⟨fun r hr => ?_, hs.answered hh.2⟩
    rw [hs.ids r] at hr
    exact (hs.pending r hr).trans (hh.1 r hr)

/-! ## The updates of a broker -/

theorem pending_register (b : Broker) (r r' : ReqID) (h : ℕ) :
    (b.register r h).pending r' = if r' = r then some h else b.pending r' :=
  Function.update_apply _ _ _ _

theorem pending_unregister (b : Broker) (r r' : ReqID) :
    (b.unregister r).pending r' = if r' = r then none else b.pending r' :=
  Function.update_apply _ _ _ _

theorem responses_respond (b : Broker) (h h' : ℕ) (resp : Response) :
    (b.respond h resp).responses h' = b.responses h' ++ if h = h' then [resp] else [] := by
  simp only [responses, respond, List.filterMap_append, List.filterMap_cons, List.filterMap_nil]
  split_ifs <;> rfl

theorem first_accept (b : Broker) (r r' : ReqID) (ch : ℕ) (msg : ReplyMsg) :
    (b.accept r ch msg).first r' =
      (b.first r').or (if r = r' then some ⟨r, msg, b.pending r = some ch⟩ else none) := by
  simp only [first, accept, List.find?_append, List.find?_singleton, decide_eq_true_eq]

theorem same_respond {b : Broker} {h h' : ℕ} (resp : Response) (hne : h' ≠ h) :
    Same b (b.respond h resp) h' where
  __ := Same.refl b h'
  responses := by rw [responses_respond, if_neg hne.symm, List.append_nil]

theorem responses_receive (b : Broker) (h h' : ℕ) (msg : ReplyMsg) :
    (b.receive h msg).responses h' = b.responses h' ++
      if h = h' ∧ 100 ≤ msg.status ∧ msg.status ≤ 999 then [.reply msg] else [] := by
  by_cases hm : 100 ≤ msg.status ∧ msg.status ≤ 999
  · simp only [receive, if_pos hm, and_iff_left hm]
    exact responses_respond b h h' (.reply msg)
  · simp [receive, responses, hm]

theorem same_receive {b : Broker} {h h' : ℕ} (msg : ReplyMsg) (hne : h' ≠ h) :
    Same b (b.receive h msg) h' where
  __ := Same.refl b h'
  responses := by simp [responses_receive, hne.symm]
  chan := Function.update_of_ne hne _ _

theorem Waiting.responds {b : Broker} {h : ℕ} {r : ReqID} (hw : b.Waiting h r) (status : ℕ)
    (err : Bytes) : (b.respond h (.error status err)).Held h (.leaving r) := by
  refine ⟨hw.id, hw.pending, ?_⟩
  have hr := responses_respond b h h (.error status err)
  rw [if_pos rfl, hw.silent, List.nil_append] at hr
  exact ⟨by simp [hr], fun msg hm => by simp [hr] at hm⟩

theorem Waiting.receives {b : Broker} {h : ℕ} {r : ReqID} (hw : b.Waiting h r) {msg : ReplyMsg}
    (hm : b.chans h = some msg) : (b.receive h msg).Held h (.leaving r) := by
  refine ⟨hw.id, hw.pending, ?_⟩
  have hr := responses_receive b h h msg
  rw [hw.silent, List.nil_append] at hr
  constructor
  · rw [hr]
    split_ifs <;> simp
  · intro m hm'
    rw [hr] at hm'
    split_ifs at hm' with hs
    · cases List.mem_singleton.mp hm'
      have hc := hw.chan
      rw [hm, eq_comm, Option.map_eq_some_iff] at hc
      obtain ⟨a, ha, rfl⟩ := hc
      exact ⟨r, a, hw.id, ha, rfl, hw.registered a ha⟩
    · cases hm'

end Broker

open Broker

structure Matched (b : Broker) : Prop where
  held : ∀ h, b.Held h (b.client h)
  client_eq : ∀ r h h', (r, h) ∈ b.ids → (r, h') ∈ b.ids → h = h'
  id_eq : ∀ r r' h, (r, h) ∈ b.ids → (r', h) ∈ b.ids → r = r'
  offered : ∀ r ch msg err, .offering r ch msg err ∈ b.callbacks → (r, ch) ∈ b.ids
  pending : ∀ r h, b.pending r = some h → (r, h) ∈ b.ids
  accepted : ∀ a ∈ b.accepted, ∃ h, (a.id, h) ∈ b.ids

theorem client_set {b : Broker} {h : ℕ} {cl : Client} (hcl : b.clients[h]? = some cl) (b₁ : Broker)
    (cl' : Client) :
    { b₁ with clients := b.clients.set h cl' }.client h = cl' ∧
      ∀ h' ≠ h, { b₁ with clients := b.clients.set h cl' }.client h' = b.client h' := by
  obtain ⟨hlt, -⟩ := List.getElem?_eq_some_iff.mp hcl
  refine ⟨by simp [client, hlt], fun h' hne => ?_⟩
  rw [client, client, List.getElem?_set_ne hne.symm]

theorem Advances.same {cfg : Config} {b b' : Broker} {h h' : ℕ} {cl cl' : Client} {c : Choice}
    (ha : Advances cfg b h cl c b' cl') (hI : Matched b) (hh : b.Held h cl) (hne : h' ≠ h) :
    Same b b' h' := by
  -- a call of `HandleRun` leaves the other clients alone
  cases ha with
  | rejected | gaveUp => exact same_respond _ hne
  | read | send | accepted | refused | lost | retry | cancelled => exact { Same.refl b h' with }
  | register p r hr =>
    refine { Same.refl b h' with ids := fun r' => ?_, pending := fun r' hr' => ?_ }
    · simp [Broker.register, hne]
    · rw [pending_register, if_neg]
      rintro rfl
      exact hr h' hr'
  | receive r msg hm => exact same_receive msg hne
  | unregister r =>
    refine { Same.refl b h' with pending := fun r' hr' => ?_ }
    rw [pending_unregister, if_neg]
    rintro rfl
    exact hne (hI.client_eq r' h' h hr' hh.1)

theorem Advances.held {cfg : Config} {b b' : Broker} {h : ℕ} {cl cl' : Client} {c : Choice}
    (ha : Advances cfg b h cl c b' cl') (hI : Matched b) (hh : b.Held h cl) : b'.Held h cl' := by
  cases ha with
  | rejected c err =>
    have hr := responses_respond b h h (.error statusBadRequest err)
    rw [if_pos rfl, hh.silent, List.nil_append] at hr
    exact ⟨fun r hr => absurd hr (hh.ids r), by simp [hr], fun msg hm => by simp [hr] at hm⟩
  | read | accepted | refused | lost | retry => exact hh
  | send => exact ⟨hh.id, hh.pending, hh.silent, hh.chan, hh.registered⟩
  | register p r hr =>
    -- nothing has been accepted under an id that has not been drawn
    have hnone : b.first r = none := by
      rw [first, List.find?_eq_none]
      intro a hacc
      obtain ⟨h', ha⟩ := hI.accepted a hacc
      rw [decide_eq_true_eq]
      rintro rfl
      exact hr h' ha
    have hnone' : (b.register r h).first r = none := hnone
    refine ⟨by simp [Broker.register], by simp [Broker.register], hh.silent, ?_, fun a ha => ?_⟩
    · rw [hnone']
      exact hh.chan
    · rw [hnone'] at ha
      cases ha
  | gaveUp cl c r hcl status err => exact ((held_iff_waiting hcl).mp hh).responds status err
  | receive r msg hm => exact Waiting.receives hh hm
  | cancelled => exact ⟨hh.id, hh.pending, .of_silent hh.silent⟩
  | unregister r =>
    obtain ⟨hr, -, ha⟩ := hh
    refine ⟨fun r' hr' => ?_, ⟨ha.once, ha.own⟩⟩
    rw [pending_unregister, if_pos (hI.id_eq r' r h hr' hr)]

theorem same_offer {b : Broker} {r : ReqID} {ch h : ℕ} {msg : ReplyMsg} (hI : Matched b)
    (hr : (r, ch) ∈ b.ids) (hne : h ≠ ch) : Same b (b.offer r ch msg) h := by
  unfold offer
  split
  · exact Same.refl b h
  · refine { Same.refl b h with chan := Function.update_of_ne hne _ _, first := fun r' hr' => ?_ }
    have hid : r ≠ r' := by
      rintro rfl
      exact hne (hI.client_eq r h ch hr' hr)
    rw [first_accept, if_neg hid, Option.or_none]

theorem held_offer {b : Broker} {r : ReqID} {ch : ℕ} {cl : Client} (msg : ReplyMsg) (hI : Matched b)
    (hr : (r, ch) ∈ b.ids) (hh : b.Held ch cl) : (b.offer r ch msg).Held ch cl := by
  -- the send for the client's own id: the channel is full, or this is the first reply, or the
  -- client has its answer
  unfold offer
  split
  · exact hh
  rename_i hnone
  have answered (ha : b.Answered ch) : (b.accept r ch msg).Answered ch := by
    refine ⟨ha.once, fun m hm => ?_⟩
    obtain ⟨r', a, hr', hf, hx⟩ := ha.own m hm
    exact ⟨r', a, hr', by rw [first_accept, hf, Option.some_or], hx⟩
  have waiting (r' : ReqID) (hw : b.Waiting ch r') : (b.accept r ch msg).Waiting ch r' := by
    obtain rfl := hI.id_eq r r' ch hr hw.id
    have hempty : b.first r = none := by simpa [hnone] using hw.chan.symm
    have hf := first_accept b r r ch msg
    rw [hempty, if_pos rfl, Option.none_or] at hf
    refine ⟨hw.id, hw.pending, hw.silent, ?_, fun a ha => ?_⟩
    · rw [hf]
      exact Function.update_self _ _ _
    · cases hf.symm.trans ha
      simpa using hw.pending
  cases cl with
  | reading | registering => exact absurd hr (hh.ids r)
  | sending | awaiting | backingOff | parked => exact waiting _ hh
  | leaving => exact ⟨hh.1, hh.2.1, answered hh.2.2⟩
  | returned => exact ⟨hh.1, answered hh.2⟩

theorem Advances.table {cfg : Config} {b b' : Broker} {h : ℕ} {cl cl' : Client} {c : Choice}
    (ha : Advances cfg b h cl c b' cl') : b'.callbacks = b.callbacks ∧ b'.accepted = b.accepted ∧
      (b'.ids = b.ids ∧ (∀ r h', b'.pending r = some h' → b.pending r = some h') ∨
        ∃ p r, cl = .registering p ∧ (∀ h', (r, h') ∉ b.ids) ∧ b' = b.register r h) := by
  cases ha with
  | register p r hr => exact ⟨rfl, rfl, .inr ⟨p, r, rfl, hr, rfl⟩⟩
  | unregister r =>
    refine ⟨rfl, rfl, .inl ⟨rfl, fun r' h' hp => ?_⟩⟩
    rw [pending_unregister] at hp
    split_ifs at hp
    exact hp
  | _ => exact ⟨rfl, rfl, .inl ⟨rfl, fun _ _ hp => hp⟩⟩

theorem Matched.create : Matched .create where
  held h := ⟨by simp [Broker.create], rfl, rfl⟩
  client_eq := by simp [Broker.create]
  id_eq := by simp [Broker.create]
  offered := by simp [Broker.create]
  pending := by simp [Broker.create]
  accepted := by simp [Broker.create]

theorem Matched.advances {cfg : Config} {b b₁ : Broker} {h : ℕ} {cl cl' : Client} {c : Choice}
    (hI : Matched b) (hcl : b.clients[h]? = some cl) (ha : Advances cfg b h cl c b₁ cl') :
    Matched { b₁ with clients := b.clients.set h cl' } := by
  have hh : b.Held h cl := by simpa [client, hcl] using hI.held h
  obtain ⟨hself, hother⟩ := client_set hcl b₁ cl'
  have held (h' : ℕ) : { b₁ with clients := b.clients.set h cl' }.Held h'
      ({ b₁ with clients := b.clients.set h cl' }.client h') := by
    by_cases hne : h' = h
    · subst hne
      rw [hself]
      exact Same.held { Same.refl b₁ h' with } (ha.held hI hh)
    · rw [hother h' hne]
      exact Same.held { ha.same hI hh hne with } (hI.held h')
  obtain ⟨hcb, hacc, ⟨hids, hpend⟩ | ⟨p, r, rfl, hr, rfl⟩⟩ := ha.table
  · refine ⟨held, ?_, ?_, ?_, ?_, ?_⟩ <;> simp only [hids, hcb, hacc]
    exacts [hI.client_eq, hI.id_eq, hI.offered, fun r h' hp => hI.pending r h' (hpend r h' hp),
      hI.accepted]
  · -- the new pair shares neither its id nor its client with an old one
    have hmem (r' : ReqID) (h' : ℕ) : (r', h') ∈ (b.register r h).ids ↔
        (r', h') ∈ b.ids ∨ r' = r ∧ h' = h := by simp [Broker.register]
    refine ⟨held, ?_, ?_, ?_, ?_, ?_⟩ <;> simp only [hmem]
    · rintro r' h₁ h₂ (h1 | ⟨rfl, rfl⟩) (h2 | ⟨h2, rfl⟩)
      exacts [hI.client_eq r' h₁ h₂ h1 h2, absurd (h2 ▸ h1) (hr h₁), absurd h2 (hr h₂), rfl]
    · rintro r₁ r₂ h' (h1 | ⟨rfl, rfl⟩) (h2 | ⟨rfl, h2⟩)
      exacts [hI.id_eq r₁ r₂ h' h1 h2, absurd (h2 ▸ h1) (hh.ids r₁), absurd h2 (hh.ids r₂), rfl]
    · exact fun r' ch msg err hmem => .inl (hI.offered r' ch msg err hmem)
    · intro r' h' hp
      rw [pending_register] at hp
      split_ifs at hp with he
      · exact .inr ⟨he, (Option.some.inj hp).symm⟩
      · exact .inl (hI.pending r' h' hp)
    · intro a ha
      obtain ⟨h', hm⟩ := hI.accepted a ha
      exact ⟨h', .inl hm⟩

theorem Matched.with_callbacks {b : Broker} (hI : Matched b) {ks : List Callback}
    (hks : ∀ r ch msg err, .offering r ch msg err ∈ ks → (r, ch) ∈ b.ids) :
    Matched { b with callbacks := ks } where
  held h := Same.held { Same.refl b h with } (hI.held h)
  client_eq := hI.client_eq
  id_eq := hI.id_eq
  offered := hks
  pending := hI.pending
  accepted := hI.accepted

theorem Matched.offer {b : Broker} {r : ReqID} {ch : ℕ} (hI : Matched b) (hr : (r, ch) ∈ b.ids)
    (msg : ReplyMsg) : Matched (b.offer r ch msg) := by
  have held (h : ℕ) : (b.offer r ch msg).Held h (b.client h) := by
    by_cases hne : h = ch
    · subst hne
      exact held_offer msg hI hr (hI.held h)
    · exact (same_offer hI hr hne).held (hI.held h)
  unfold Broker.offer at held ⊢
  split
  · exact hI
  · rename_i hnone
    rw [hnone] at held
    refine { hI with held := held, accepted := fun a ha => ?_ }
    rcases List.mem_append.mp ha with ha | ha
    · exact hI.accepted a ha
    · rw [List.mem_singleton.mp ha]
      exact ⟨ch, hr⟩

theorem offer_frame (b : Broker) (r : ReqID) (ch : ℕ) (msg : ReplyMsg) :
    (b.offer r ch msg).ids = b.ids ∧ (b.offer r ch msg).clients = b.clients ∧
      (b.offer r ch msg).forwards = b.forwards := by
  unfold offer
  split <;> exact ⟨rfl, rfl, rfl⟩

theorem Matched.step {cfg : Config} {b b' : Broker} {e : Event} (hI : Matched b)
    (hs : b.step cfg e = some b') : Matched b' := by
  cases e with
  | request =>
    cases hs
    have hcl (h : ℕ) : { b with clients := b.clients ++ [Client.reading] }.client h = b.client h := by
      by_cases hlt : h < b.clients.length
      · rw [client, client, List.getElem?_append_left hlt]
      · rw [client, client, List.getElem?_append_right (not_lt.mp hlt),
          List.getElem?_eq_none (not_lt.mp hlt)]
        cases h - b.clients.length <;> rfl
    refine { hI with held := fun h => ?_ }
    rw [hcl h]
    exact Same.held { Same.refl b h with } (hI.held h)
  | client h c =>
    obtain ⟨cl, cl', b₁, hcl, ha, rfl⟩ := step_client hs
    exact hI.advances hcl ha
  | reply r status contentType body err =>
    cases hs
    refine hI.with_callbacks fun r ch msg err hm => hI.offered r ch msg err ?_
    simpa [handleReply] using hm
  | callback j =>
    obtain ⟨k, k', b₁, hk, hc, rfl⟩ := step_callback hs
    have hmem := List.mem_of_getElem? hk
    cases k with
    | looking r msg err =>
      unfold Relay.callback at hc
      dsimp only at hc
      split at hc
      · cases hc
        refine hI.with_callbacks fun r ch msg err hm => hI.offered r ch msg err ?_
        exact (List.mem_or_eq_of_mem_set hm).resolve_right (by simp)
      · rename_i ch hch
        cases hc
        refine hI.with_callbacks fun r' ch' msg' err' hm => ?_
        obtain hm | hm := List.mem_or_eq_of_mem_set hm
        · exact hI.offered r' ch' msg' err' hm
        · cases hm
          exact hI.pending r ch hch
    | offering r ch msg err =>
      cases hc
      refine (hI.offer (hI.offered r ch msg err hmem) msg).with_callbacks
        fun r' ch' msg' err' hm => ?_
      rw [(offer_frame b r ch msg).1]
      exact hI.offered r' ch' msg' err' ((List.mem_or_eq_of_mem_set hm).resolve_right (by simp))
    | returned => cases hc

theorem matched_run {cfg : Config} {es : List Event} {b : Broker}
    (hrun : run (Broker.step cfg) .create es = some b) : Matched b :=
  run_preserves (fun _ _ _ hI hs => hI.step hs) .create hrun

/-! ## Every reply goes to its own client -/

def Callback.id : Callback → Option ReqID
  | .looking r _ _ | .offering r _ _ _ => some r
  | .returned => none

/-- The steps that a call of `HandleReply` has before it. -/
def Callback.remaining : Callback → ℕ
  | .looking _ _ _ => 2
  | .offering _ _ _ _ => 1
  | .returned => 0

/-- The id of the call of `HandleReply` that takes the step. -/
def Broker.calling (b : Broker) : Event → Option ReqID
  | .reply r _ _ _ _ => some r
  | .callback j => b.callbacks[j]?.bind Callback.id
  | _ => none

theorem callback_remaining {b : Broker} {k : Callback} (hk : k ≠ .returned) :
    ∃ b₁ k', callback b k = some (b₁, k') ∧ k'.remaining < k.remaining := by
  cases k with
  | looking r msg err =>
    unfold Relay.callback
    dsimp only
    split
    · exact ⟨_, _, rfl, by simp [Callback.remaining]⟩
    · exact ⟨_, _, rfl, by simp [Callback.remaining]⟩
  | offering => exact ⟨_, _, rfl, by simp [Callback.remaining]⟩
  | returned => exact absurd rfl hk

theorem Matched.calling {cfg : Config} {b b' : Broker} {e : Event} {r' : ReqID} (hI : Matched b)
    (hs : b.step cfg e = some b') (hr' : b.calling e = some r') :
    b'.clients = b.clients ∧ ∀ r h, (r, h) ∈ b.ids → r ≠ r' → Same b b' h := by
  -- a step of a call of `HandleReply` touches no client but the one of its id
  cases e with
  | request | client => cases hr'
  | reply r status contentType body err =>
    cases hs
    exact ⟨rfl, fun _ h _ _ => { Same.refl b h with }⟩
  | callback j =>
    obtain ⟨k, k', b₁, hk, hc, rfl⟩ := step_callback hs
    simp only [Broker.calling, hk, Option.bind_some] at hr'
    cases k with
    | looking r msg err =>
      have hb : b₁ = b := by
        unfold Relay.callback at hc
        dsimp only at hc
        split at hc <;> cases hc <;> rfl
      subst hb
      exact ⟨rfl, fun _ h _ _ => { Same.refl b₁ h with }⟩
    | offering r ch msg err =>
      have hr := hI.offered r ch msg err (List.mem_of_getElem? hk)
      cases hr'
      cases hc
      refine ⟨(offer_frame b r' ch msg).2.1, fun r₁ h hr₁ hne => ?_⟩
      have hch : h ≠ ch := by
        rintro rfl
        exact hne (hI.id_eq r₁ r' h hr₁ hr)
      exact { same_offer hI hr hch with }
    | returned => cases hr'

/-- Whatever calls of `HandleReply` come in whatever order: a client is written at most one
response, and a reply only if it is the first that was accepted under the client's id; a call
for another id changes nothing of the client's; no call of `HandleReply` ever waits; and a call
of `HandleRun` that has returned has left `pending`, where it has touched no other entry. -/
theorem first_reply_to_own_client {cfg : Config} {es : List Event} {b : Broker}
    (hrun : run (Broker.step cfg) .create es = some b) :
    (∀ h, (b.responses h).length ≤ 1) ∧
    (∀ h msg, .reply msg ∈ b.responses h → ∃ r a, (r, h) ∈ b.ids ∧ b.first r = some a ∧
      a.msg = msg ∧ a.registered = true) ∧
    (∀ e b' r', b.step cfg e = some b' → b.calling e = some r' → b'.clients = b.clients ∧
      ∀ r h, (r, h) ∈ b.ids → r ≠ r' → b'.chans h = b.chans h ∧ b'.pending r = b.pending r ∧
        b'.responses h = b.responses h ∧ b'.first r = b.first r) ∧
    (∀ j k, b.callbacks[j]? = some k → k ≠ .returned → ∃ b' k',
      b.step cfg (.callback j) = some b' ∧ b'.callbacks[j]? = some k' ∧
        k'.remaining < k.remaining) ∧
    (∀ h r, b.clients[h]? = some .returned → (r, h) ∈ b.ids → b.pending r = none) ∧
    ∀ h c b', b.step cfg (.client h c) = some b' → b'.clients[h]? = some .returned →
      ∀ r, (r, h) ∉ b.ids → b'.pending r = b.pending r := by
  have hI := matched_run hrun
  refine ⟨fun h => (hI.held h).answered.once, fun h => (hI.held h).answered.own,
    fun e b' r' hs hr' => ?_, fun j k hk hne => ?_, fun h r hret hr => ?_,
    fun h c b' hs hret r hr => ?_⟩
  · obtain ⟨hcl, hsame⟩ := hI.calling hs hr'
    refine ⟨hcl, fun r h hr hne => ?_⟩
    have hS := hsame r h hr hne
    exact ⟨hS.chan, hS.pending r hr, hS.responses, hS.first r hr⟩
  · obtain ⟨b₁, k', hc, hlt⟩ := callback_remaining (b := b) hne
    obtain ⟨hj, -⟩ := List.getElem?_eq_some_iff.mp hk
    refine ⟨{ b₁ with callbacks := b.callbacks.set j k' }, k', ?_, by simp [hj], hlt⟩
    simp only [Broker.step, hk, hc, Option.map_some]
  · have hh := hI.held h
    rw [client, hret] at hh
    exact hh.1 r hr
  · obtain ⟨cl, cl', b₁, hcl, ha, rfl⟩ := step_client hs
    have hh : b.Held h cl := by simpa [client, hcl] using hI.held h
    obtain ⟨hlt, -⟩ := List.getElem?_eq_some_iff.mp hcl
    obtain rfl : cl' = .returned := by simpa [hlt] using hret
    cases ha with
    | rejected => rfl
    | unregister r' =>
      refine (pending_unregister b r' r).trans (if_neg ?_)
      rintro rfl
      exact hr hh.1

def demo : Config :=
  -- a body that is not empty names its session
  ⟨text "broker", some⟩

def repeatedReply : List Event :=
  -- two clients; the reply to the first comes while its request is still being forwarded,
  -- comes again, and comes once more after the client has left
  [.request, .request, .client 0 (.body [1]), .client 0 (.id [7]), .client 0 .ok,
    .client 1 (.body [2]), .client 1 (.id [8]), .client 1 .ok,
    .reply [7] 200 [] [3] false, .callback 0, .callback 0, .reply [7] 500 [] [4] false,
    .callback 1, .callback 1, .client 0 (.status 202), .reply [7] 500 [] [5] false, .callback 2,
    .client 0 .reply, .client 0 .ok, .callback 2]

theorem first_reply_repeatedReply : ∃ b, run (Broker.step demo) .create repeatedReply = some b ∧
    b.responses 0 = [.reply ⟨200, [], [3]⟩] ∧ b.responses 1 = [] ∧ b.pending [8] = some 1 ∧
    (∃ r a, (r, 0) ∈ b.ids ∧ b.first r = some a ∧ a.msg = ⟨200, [], [3]⟩ ∧ a.registered = true) ∧
    b.pending [7] = none := by
  have hrun := (rfl : run (Broker.step demo) .create repeatedReply = some _)
  obtain ⟨-, hown, -, -, hgone, -⟩ := first_reply_to_own_client hrun
  exact ⟨_, hrun, by decide, by decide, by decide, hown 0 ⟨200, [], [3]⟩ (by decide),
    hgone 0 [7] (by decide) (by decide)⟩

end SubstratePoc.Relay
