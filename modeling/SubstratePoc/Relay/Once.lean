import Mathlib.Data.List.Nodup
import SubstratePoc.Relay.Whole

namespace SubstratePoc.Relay
open Lib Tunnel Actor

/-! ## The attempts of one call -/

/-- `forwardToActor` counts its attempts from 1. -/
def Client.Counted : Client → Prop
  | .sending _ _ n | .awaiting _ _ n | .backingOff _ _ n _ => 1 ≤ n
  | _ => True

/-- An id is on no attempt before the first one of its call. -/
structure Numbered (b : Broker) : Prop where
  counted : ∀ cl ∈ b.clients, cl.Counted
  known : ∀ req ∈ b.forwards, ∃ h, (req.reqID, h) ∈ b.ids
  unsent : ∀ (h : ℕ) r p n, b.clients[h]? = some (Client.sending r p n) → n ≤ 1 →
    ∀ req ∈ b.forwards, req.reqID ≠ r

theorem Numbered.create : Numbered .create where
  counted := by simp [Broker.create]
  known := by simp [Broker.create]
  unsent := by simp [Broker.create]

theorem Advances.forwards {cfg : Config} {b b' : Broker} {h : ℕ} {cl cl' : Client} {c : Choice}
    (ha : Advances cfg b h cl c b' cl') : b'.forwards = b.forwards ∨
      ∃ r p n, cl = .sending r p n ∧ c = .ok ∧ cl' = .awaiting r p n ∧
        b' = b.forward (cfg.request r p) := by
  cases ha with
  | send r p n => exact .inr ⟨r, p, n, rfl, rfl, rfl, rfl⟩
  | _ => exact .inl rfl

theorem Advances.counted {cfg : Config} {b b' : Broker} {h : ℕ} {cl cl' : Client} {c : Choice}
    (ha : Advances cfg b h cl c b' cl') (hcl : cl.Counted) : cl'.Counted := by
  cases ha with
  | send | refused | lost => exact hcl
  | register => exact le_rfl
  | retry r p n => exact Nat.le_add_left 1 n
  | _ => trivial

theorem Advances.sending {cfg : Config} {b b' : Broker} {h : ℕ} {cl : Client} {c : Choice}
    {r : ReqID} {p : Bytes} {n : ℕ} (ha : Advances cfg b h cl c b' (.sending r p n))
    (hcl : cl.Counted) (hn : n ≤ 1) : ∀ h', (r, h') ∉ b.ids := by
  cases ha with
  | register p r hr => exact hr
  | retry r p n =>
    have hpos : 1 ≤ n := hcl
    omega

theorem step_frame {cfg : Config} {b b' : Broker} {e : Event} (hs : b.step cfg e = some b') :
    (∃ h c, e = .client h c) ∨ b'.ids = b.ids ∧ b'.forwards = b.forwards ∧
      ∀ (h : ℕ) (cl : Client), b'.clients[h]? = some cl → b.clients[h]? = some cl ∨ cl = .reading := by
  cases e with
  | request =>
    cases hs
    refine .inr ⟨rfl, rfl, fun h cl hcl => ?_⟩
    by_cases hlt : h < b.clients.length
    · rw [List.getElem?_append_left hlt] at hcl
      exact .inl hcl
    · rw [List.getElem?_append_right (not_lt.mp hlt)] at hcl
      exact .inr (List.mem_singleton.mp (List.mem_of_getElem? hcl))
  | client h c => exact .inl ⟨h, c, rfl⟩
  | reply =>
    cases hs
    exact .inr ⟨rfl, rfl, fun _ _ => .inl⟩
  | callback j =>
    obtain ⟨k, k', b₁, -, hc, rfl⟩ := step_callback hs
    right
    cases k with
    | looking r msg err =>
      unfold Relay.callback at hc
      dsimp only at hc
      split at hc
      all_goals
        cases hc
        exact ⟨rfl, rfl, fun _ _ => .inl⟩
    | offering r ch msg err =>
      cases hc
      obtain ⟨hids, hcl, hfw⟩ := offer_frame b r ch msg
      refine ⟨hids, hfw, fun h cl h' => .inl ?_⟩
      rwa [hcl] at h'
    | returned => cases hc

theorem Numbered.step {cfg : Config} {b b' : Broker} {e : Event} (hI : Numbered b) (hM : Matched b)
    (hs : b.step cfg e = some b') : Numbered b' := by
  obtain ⟨h, c, rfl⟩ | ⟨hids, hfw, hcl⟩ := step_frame hs
  · obtain ⟨cl, cl', b₁, hcl, ha, rfl⟩ := step_client hs
    have hcounted := hI.counted cl (List.mem_of_getElem? hcl)
    obtain ⟨hlt, -⟩ := List.getElem?_eq_some_iff.mp hcl
    have hids : b.ids ⊆ b₁.ids := by
      obtain ⟨-, -, ⟨hids, -⟩ | ⟨p, r, -, -, rfl⟩⟩ := ha.table
      · exact hids ▸ List.Subset.refl _
      · exact List.subset_append_left _ _
    -- the requests that are on the way afterwards, with the client whose id they have
    have hforward : ∀ req ∈ b₁.forwards, req ∈ b.forwards ∨ (req.reqID, h) ∈ b.ids ∧
        ∀ p n, cl' ≠ .sending req.reqID p n := by
      obtain hfw | ⟨r, p, n, rfl, -, rfl, rfl⟩ := ha.forwards
      · rw [hfw]
        exact fun req hreq => .inl hreq
      · intro req hreq
        rcases List.mem_append.mp hreq with hreq | hreq
        · exact .inl hreq
        · rw [List.mem_singleton.mp hreq]
          have hw : b.Held h (.sending r p n) := by simpa [Broker.client, hcl] using hM.held h
          exact .inr ⟨hw.id, by simp⟩
    refine ⟨fun x hx => ?_, fun req hreq => ?_, fun m r p n hm hn req hreq => ?_⟩
    · rcases List.mem_or_eq_of_mem_set hx with hx | rfl
      · exact hI.counted x hx
      · exact ha.counted hcounted
    · rcases hforward req hreq with hreq | ⟨hreq, -⟩
      · obtain ⟨m, hm⟩ := hI.known req hreq
        exact ⟨m, hids hm⟩
      · exact ⟨h, hids hreq⟩
    · by_cases hne : m = h
      · subst hne
        obtain rfl : cl' = .sending r p n := by simpa [hlt] using hm
        have hfresh := ha.sending hcounted hn
        rcases hforward req hreq with hreq | ⟨-, hreq⟩
        · obtain ⟨h', hh'⟩ := hI.known req hreq
          exact fun he => hfresh h' (he ▸ hh')
        · exact fun he => hreq p n (by rw [he])
      · rw [List.getElem?_set_ne (Ne.symm hne)] at hm
        rcases hforward req hreq with hreq | ⟨hreq, -⟩
        · exact hI.unsent m r p n hm hn req hreq
        · have hw : b.Held m (.sending r p n) := by simpa [Broker.client, hm] using hM.held m
          exact fun he => hne (hM.client_eq r m h hw.id (he ▸ hreq))
  · refine ⟨fun cl hmem => ?_, ?_, fun h r p n h' => ?_⟩
    · obtain ⟨h, hh⟩ := List.mem_iff_getElem?.mp hmem
      obtain h' | rfl := hcl h cl hh
      · exact hI.counted cl (List.mem_of_getElem? h')
      · trivial
    · simpa only [hids, hfw] using hI.known
    · rw [hfw]
      exact hI.unsent h r p n ((hcl h _ h').resolve_right (by simp))

/-! ## The attempts that the sidecar reads -/

/-- The request is on its way to the agent. -/
def awaits (r : ReqID) : IAct → Bool
  | .proxyInline req | .accept req | .enterRequest req | .process req => req.reqID = r
  | _ => false

/-- The sidecar reads an attempt to the end only if it is the last one for its request: no other
has been made before, and none is made afterwards. -/
def heard (w : System) : System.Event → Bool
  | .client h .ok => match w.broker.clients[h]? with
    | some (.sending r _ n) => n ≤ 1 || w.read.all fun k => w.idOf k ≠ some r
    | _ => true
  | .ingress i .ok _ => match w.next i, w.attempts[i]? with
    | some (.handle req), some k => (w.broker.forwards.drop (k + 1)).all (·.reqID ≠ req.reqID)
    | _, _ => true
  | _ => true

structure Single (w : System) : Prop where
  matched : Matched w.broker
  numbered : Numbered w.broker
  aligned : w.threads.length = w.attempts.length
  apart : w.attempts.Nodup
  reading : ∀ (i : ℕ) t req, w.threads[i]? = some t → .handle req ∈ t → t = [.handle req] ∧
    ∃ k, w.attempts[i]? = some k ∧ w.broker.forwards[k]? = some req ∧ k ∉ w.read
  attempted : ∀ k ∈ w.read, k ∈ w.attempts
  last : ∀ k ∈ w.read, ∃ req, w.broker.forwards[k]? = some req ∧
    ∀ req' ∈ w.broker.forwards.drop (k + 1), req'.reqID ≠ req.reqID
  nodup : w.read.Nodup
  count : ∀ r, (w.forwarded.filter (·.reqID = r)).length + (w.pending.filter (awaits r)).length ≤
    (w.read.filter (w.idOf · = some r)).length

theorem Single.start (now : Instant) : Single (.start now) where
  matched := .create
  numbered := .create
  aligned := rfl
  apart := by simp [System.start]
  reading := by simp [System.start]
  attempted := by simp [System.start]
  last := by simp [System.start]
  nodup := by simp [System.start]
  count := by simp [System.start, System.pending]

/-- The sidecar has read at most one attempt with a given id. -/
theorem Single.read_le_one {w : System} (hI : Single w) (r : ReqID) :
    (w.read.filter (w.idOf · = some r)).length ≤ 1 := by
  have hlt {k k' : ℕ} (hk : k ∈ w.read) (hk' : w.idOf k' = w.idOf k) : ¬k < k' := by
    intro hlt
    obtain ⟨req, hreq, hlast⟩ := hI.last k hk
    rw [System.idOf, System.idOf, hreq, Option.map_some, Option.map_eq_some_iff] at hk'
    obtain ⟨req', hreq', hid⟩ := hk'
    refine hlast req' (List.mem_of_getElem? (i := k' - (k + 1)) ?_) hid
    rw [List.getElem?_drop, Nat.add_sub_cancel' hlt, hreq']
  have heq : ∀ k ∈ w.read.filter (w.idOf · = some r), ∀ k' ∈ w.read.filter (w.idOf · = some r),
      k = k' := by
    intro k hk k' hk'
    simp only [List.mem_filter, decide_eq_true_eq] at hk hk'
    exact le_antisymm (not_lt.mp (hlt hk'.1 (hk.2.trans hk'.2.symm)))
      (not_lt.mp (hlt hk.1 (hk'.2.trans hk.2.symm)))
  have hnodup := hI.nodup.filter (w.idOf · = some r)
  match hl : w.read.filter (w.idOf · = some r) with
  | [] => simp
  | [k] => simp
  | k :: k' :: l =>
    rw [hl] at heq hnodup
    exact absurd (heq k (by simp) k' (by simp)) (by rintro rfl; simp at hnodup)

theorem Single.broker {cfg : Config} {w : System} {e : Event} {b : Broker} (hI : Single w)
    (hs : w.broker.step cfg e = some b) (arrived : List ℕ) (reqs : List Request)
    (hfw : b.forwards = w.broker.forwards ++ reqs)
    (hnew : ∀ req ∈ reqs, ∀ k ∈ w.read, w.idOf k ≠ some req.reqID) :
    Single { w with broker := b, arrived := arrived } := by
  -- a step of the broker: an attempt that it makes has an id that the sidecar has not read
  have hget {k : ℕ} {req : Request} (hk : w.broker.forwards[k]? = some req) :
      b.forwards[k]? = some req := by
    obtain ⟨hlt, -⟩ := List.getElem?_eq_some_iff.mp hk
    rw [hfw, List.getElem?_append_left hlt, hk]
  refine { hI with
    matched := hI.matched.step hs
    numbered := hI.numbered.step hI.matched hs
    reading := fun i t req ht hreq => ?_
    last := fun k hk => ?_
    count := fun r => ?_ }
  · obtain ⟨ht, k, hk, hreq, hnot⟩ := hI.reading i t req ht hreq
    exact ⟨ht, k, hk, hget hreq, hnot⟩
  · obtain ⟨req, hreq, hlast⟩ := hI.last k hk
    obtain ⟨hlt, -⟩ := List.getElem?_eq_some_iff.mp hreq
    refine ⟨req, hget hreq, fun req' hreq' => ?_⟩
    dsimp only at hreq'
    rw [hfw, List.drop_append_of_le_length hlt, List.mem_append] at hreq'
    rcases hreq' with hreq' | hreq'
    · exact hlast req' hreq'
    · have hne := hnew req' hreq' k hk
      simp only [System.idOf, hreq, Option.map_some, ne_eq, Option.some.injEq] at hne
      exact Ne.symm hne
  · refine (hI.count r).trans (le_of_eq (congrArg List.length (List.filter_congr fun k hk => ?_)))
    obtain ⟨req, hreq, -⟩ := hI.last k hk
    simp only [System.idOf, hreq, hget hreq]

theorem awaits_of_does {i i' : Ingress} {a : IAct} {c : IChoice} {now : Instant}
    {push : List IAct} {eff : List IEffect} (hdo : IDoes i now a c i' push eff) (w : System)
    (r : ReqID) : (∃ req, a = .handle req ∧ c = .ok ∧ (push.filter (awaits r)).length =
        (if req.reqID = r then 1 else 0) ∧ (eff.foldl System.observe w).forwarded = w.forwarded) ∨
      (∀ k, System.reads a c k = []) ∧
        ((eff.foldl System.observe w).forwarded.filter (·.reqID = r)).length +
          (push.filter (awaits r)).length ≤
        (w.forwarded.filter (·.reqID = r)).length + ([a].filter (awaits r)).length := by
  -- what an action of the ingress does to the requests on their way to the agent
  cases hdo with
  | handleInline req | handle req =>
    refine .inl ⟨req, rfl, rfl, ?_, rfl⟩
    by_cases hr : req.reqID = r <;> simp [awaits, hr]
  | inline req n | process req =>
    refine .inr ⟨fun _ => rfl, ?_⟩
    by_cases hr : req.reqID = r <;>
      simp [System.observe, List.filter_append, awaits, hr]
  | accept req | enter req =>
    refine .inr ⟨fun _ => rfl, ?_⟩
    by_cases hr : req.reqID = r <;> simp [System.observe, awaits, hr]
  | _ => exact .inr ⟨fun _ => rfl, by simp [System.observe, awaits]⟩

theorem handle_not_mem {i i' : Ingress} {a : IAct} {c : IChoice} {now : Instant}
    {push : List IAct} {eff : List IEffect} (hdo : IDoes i now a c i' push eff) (req : Request) :
    .handle req ∉ push := by
  cases hdo <;> simp

theorem Single.deliver {w : System} {k : ℕ} {req : Request} (hI : Single w)
    (hk : w.broker.forwards[k]? = some req) (hnew : k ∉ w.attempts) :
    Single { w with threads := w.threads ++ [[.handle req]], attempts := w.attempts ++ [k] } := by
  refine { hI with
    aligned := by simp [hI.aligned]
    apart := ?_
    reading := fun i t req' ht hreq => ?_
    attempted := fun j hj => List.mem_append_left _ (hI.attempted j hj)
    count := fun r => ?_ }
  · change (w.attempts ++ [k]).Nodup
    rw [← List.concat_eq_append]
    exact List.Nodup.concat hnew hI.apart
  · by_cases hlt : i < w.threads.length
    · rw [List.getElem?_append_left hlt] at ht
      rw [List.getElem?_append_left (hI.aligned ▸ hlt)]
      exact hI.reading i t req' ht hreq
    · rw [List.getElem?_append_right (not_lt.mp hlt)] at ht
      rw [List.getElem?_append_right (hI.aligned ▸ not_lt.mp hlt), ← hI.aligned]
      obtain ⟨h0, -⟩ := List.getElem?_eq_some_iff.mp ht
      obtain h0 : i - w.threads.length = 0 := by simpa using h0
      rw [h0] at ht ⊢
      cases ht
      cases List.mem_singleton.mp hreq
      exact ⟨rfl, k, rfl, hk, fun hr => hnew (hI.attempted k hr)⟩
  · simpa [System.pending, System.idOf, List.filter_append, awaits] using hI.count r

theorem Single.reads {w : System} {i k : ℕ} {c : IChoice} {now : Instant} {a : IAct}
    {rest : List IAct} (hI : Single w) (he : heard w (.ingress i c now) = true)
    (hget : w.threads[i]? = some (a :: rest)) (hk : w.attempts[i]? = some k) :
    System.reads a c k = [] ∨ ∃ req, System.reads a c k = [k] ∧
      w.broker.forwards[k]? = some req ∧ k ∉ w.read ∧
      ∀ req' ∈ w.broker.forwards.drop (k + 1), req'.reqID ≠ req.reqID := by
  unfold System.reads
  split
  · rename_i req
    obtain ⟨-, k', hk', hreq, hnot⟩ := hI.reading i _ req hget (by simp)
    obtain rfl := Option.some.inj (hk.symm.trans hk')
    refine .inr ⟨req, rfl, hreq, hnot, fun req' hreq' => ?_⟩
    simp only [heard, System.next, hget, Option.bind_some, List.head?_cons, hk, List.all_eq_true,
      decide_eq_true_eq] at he
    exact he req' hreq'
  · exact .inl rfl

theorem Single.count_ingress {w : System} {i k : ℕ} {c : IChoice} {now : Instant} {a : IAct}
    {rest push : List IAct} {ing : Ingress} {eff : List IEffect} {L R : List (List IAct)}
    (hI : Single w) (hts : w.threads = L ++ (a :: rest) :: R)
    (hget : w.threads[i]? = some (a :: rest)) (hk : w.attempts[i]? = some k)
    (hdo : IDoes w.ingress now a c ing push eff) (w₁ : System) (hb : w₁.broker = w.broker)
    (hread : w₁.read = w.read ++ System.reads a c k)
    (hthreads : w₁.threads = L ++ (push ++ rest) :: R) (hforwarded : w₁.forwarded = w.forwarded)
    (r : ReqID) : ((eff.foldl System.observe w₁).forwarded.filter (·.reqID = r)).length +
      (w₁.pending.filter (awaits r)).length ≤ (w₁.read.filter (w₁.idOf · = some r)).length := by
  -- a request on its way to the agent is one that has been read, or it is forwarded
  have hcount := hI.count r
  have hid (k' : ℕ) : w₁.idOf k' = w.idOf k' := by rw [System.idOf, System.idOf, hb]
  simp only [System.pending, hts, flatten_split, List.filter_append, List.length_append] at hcount
  rw [← List.singleton_append, List.filter_append, List.length_append] at hcount
  simp only [System.pending, hid, hread, hthreads, flatten_split, List.filter_append,
    List.length_append]
  obtain ⟨req, rfl, rfl, hpush, hfw⟩ | ⟨hnil, hle⟩ := awaits_of_does hdo w₁ r
  · obtain ⟨-, k', hk', hreq, -⟩ := hI.reading i _ req hget (by simp)
    obtain rfl := Option.some.inj (hk.symm.trans hk')
    have hone : ((System.reads (.handle req) .ok k).filter (w.idOf · = some r)).length =
        if req.reqID = r then 1 else 0 := by
      by_cases hr : req.reqID = r <;> simp [System.reads, System.idOf, hreq, hr]
    rw [hfw, hpush, hone, hforwarded]
    omega
  · rw [hnil, List.filter_nil, List.length_nil]
    rw [hforwarded] at hle
    omega

theorem Single.ingress {w : System} {i k : ℕ} {c : IChoice} {now : Instant} {a : IAct}
    {rest push : List IAct} {ing : Ingress} {eff : List IEffect} {L R : List (List IAct)}
    (hI : Single w) (he : heard w (.ingress i c now) = true)
    (hts : w.threads = L ++ (a :: rest) :: R) (hi : L.length = i) (hk : w.attempts[i]? = some k)
    (hdo : IDoes w.ingress now a c ing push eff) :
    Single (eff.foldl System.observe { w with
      ingress := ing
      threads := L ++ (push ++ rest) :: R
      read := w.read ++ System.reads a c k }) := by
  set w₁ : System := { w with
    ingress := ing
    threads := L ++ (push ++ rest) :: R
    read := w.read ++ System.reads a c k } with hw₁
  obtain ⟨hb, ht, hat, hr, -⟩ := w₁.observe_frame eff
  have hget : w.threads[i]? = some (a :: rest) := by simp [hts, ← hi]
  have hset : w₁.threads = w.threads.set i (push ++ rest) := by simp [hw₁, hts, ← hi]
  have hreads := hI.reads he hget hk
  have hmem (k' : ℕ) (hk' : k' ∈ w₁.read) : k' ∈ w.read ∨ k' = k ∧ ∃ req,
      w.broker.forwards[k]? = some req ∧
        ∀ req' ∈ w.broker.forwards.drop (k + 1), req'.reqID ≠ req.reqID := by
    rcases List.mem_append.mp hk' with hk' | hk'
    · exact .inl hk'
    · obtain hnil | ⟨req, hone, hreq, -, hlast⟩ := hreads
      · simp [hnil] at hk'
      · rw [hone, List.mem_singleton] at hk'
        exact .inr ⟨hk', req, hreq, hlast⟩
  refine ⟨hb ▸ hI.matched, hb ▸ hI.numbered, ?_, hat ▸ hI.apart, ?_, ?_, ?_, ?_, fun r => ?_⟩
  · rw [ht, hat, hset, List.length_set]
    exact hI.aligned
  · intro j t req htj hreq
    rw [hb, hat, hr]
    rw [ht, hset] at htj
    by_cases hne : j = i
    · -- the goroutine that moves has read its request
      subst hne
      obtain ⟨hlt, -⟩ := List.getElem?_eq_some_iff.mp hget
      obtain rfl : push ++ rest = t := by simpa [hlt] using htj
      rcases List.mem_append.mp hreq with hreq | hreq
      · exact absurd hreq (handle_not_mem hdo req)
      · obtain ⟨hone, -⟩ := hI.reading j _ req hget (List.mem_cons_of_mem _ hreq)
        rw [(List.cons.inj hone).2] at hreq
        cases hreq
    · rw [List.getElem?_set_ne (Ne.symm hne)] at htj
      obtain ⟨hone, k', hk', hreq', hnot⟩ := hI.reading j t req htj hreq
      refine ⟨hone, k', hk', hreq', fun hin => ?_⟩
      obtain hin | ⟨rfl, -⟩ := hmem k' hin
      · exact hnot hin
      · exact hne ((List.getElem?_inj (List.getElem?_eq_some_iff.mp hk').1 hI.apart).mp
          (hk'.trans hk.symm))
  · rw [hr, hat]
    intro k' hk'
    obtain hk' | ⟨rfl, -⟩ := hmem k' hk'
    · exact hI.attempted k' hk'
    · exact List.mem_of_getElem? hk
  · rw [hr, hb]
    intro k' hk'
    obtain hk' | ⟨rfl, hlast⟩ := hmem k' hk'
    · exact hI.last k' hk'
    · exact hlast
  · rw [hr]
    obtain hnil | ⟨req, hone, -, hnot, -⟩ := hreads
    · simpa [hw₁, hnil] using hI.nodup
    · simp only [hw₁, hone]
      rw [← List.concat_eq_append]
      exact List.Nodup.concat hnot hI.nodup
  · have hcount := hI.count_ingress hts hget hk hdo w₁ rfl rfl rfl rfl r
    simp only [System.pending, System.idOf, ht, hr, hb]
    exact hcount

theorem Single.step {cfg : Config} {w w' : System} {e : System.Event} (hI : Single w)
    (he : heard w e = true) (h : w.step cfg e = some w') : Single w' := by
  have hquiet {e' : Event} {b : Broker} (hs : w.broker.step cfg e' = some b)
      (hnot : ∀ h c, e' ≠ .client h c) (arrived : List ℕ) :
      Single { w with broker := b, arrived := arrived } := by
    obtain ⟨h, c, he'⟩ | ⟨-, hfw, -⟩ := step_frame hs
    · exact absurd he' (hnot h c)
    · exact hI.broker hs arrived [] (by rw [hfw, List.append_nil]) (by simp)
  cases System.step_steps h with
  | request b hs => exact hquiet hs (by simp) _
  | callback j b hs => exact hquiet hs (by simp) _
  | arrive k n rep b hk hs => exact hquiet hs (by simp) _
  | deliver k req hk hnew => exact hI.deliver hk hnew
  | ingress i c now a rest push k ing eff L R hts hi hk hdo =>
    exact hI.ingress he hts hi hk hdo
  | client m c b hs =>
    obtain ⟨cl, cl', b₁, hcl, ha, rfl⟩ := step_client hs
    obtain hfw | ⟨r, p, n, rfl, rfl, rfl, rfl⟩ := ha.forwards
    · exact hI.broker hs _ [] (by rw [hfw, List.append_nil]) (by simp)
    · refine hI.broker hs _ [cfg.request r p] rfl fun req hreq k hk => ?_
      rw [List.mem_singleton.mp hreq]
      simp only [heard, hcl, Bool.or_eq_true, decide_eq_true_eq, List.all_eq_true] at he
      rcases he with hn | hread
      · -- the first attempt of its call
        obtain ⟨req', hreq', -⟩ := hI.last k hk
        have hne := hI.numbered.unsent m r p n hcl hn req' (List.mem_of_getElem? hreq')
        simpa [System.idOf, hreq', Config.request] using hne
      · exact hread k hk

/-- The agent is sent at most one request with a given id, if the sidecar reads no attempt but
the last. -/
theorem forwarded_le_one_of_heard {cfg : Config} {now : Instant} {es : List System.Event}
    {w : System} (hes : Along (System.step cfg) (fun w e => heard w e = true) (.start now) es)
    (hrun : run (System.step cfg) (.start now) es = some w) (r : ReqID) :
    (w.forwarded.filter (·.reqID = r)).length ≤ 1 := by
  have hI : Single w := run_invariant (fun _ _ _ hI he hs => hI.step he hs) (.start now) hes hrun
  exact (Nat.le_add_right _ _).trans ((hI.count r).trans (hI.read_le_one r))

def lostOnce : List System.Event :=
  -- the first attempt is lost on its way; the second is acknowledged, and the agent is asked
  [.request, .client 0 (.body [1]), .client 0 (.id [7]), .client 0 .ok, .client 0 (.status 503),
    .client 0 .timer, .client 0 .ok, .deliver 0, .ingress 0 (.fail []) epoch, .deliver 1,
    .ingress 1 .ok epoch, .ingress 1 .ok epoch, .client 0 (.status 202), .ingress 1 .ok epoch,
    .ingress 1 .ok epoch]

theorem forwarded_lostOnce : ∃ w, run (System.step demo) (.start epoch) lostOnce = some w ∧
    w.forwarded = [demo.request [7] [1]] ∧ (w.forwarded.filter (·.reqID = [7])).length ≤ 1 := by
  have hrun := (rfl : run (System.step demo) (.start epoch) lostOnce = some _)
  have hes : Along (System.step demo) (fun w e => heard w e = true) (.start epoch) lostOnce := by
    decide
  exact ⟨_, hrun, by decide, forwarded_le_one_of_heard hes hrun [7]⟩

/-- Without the condition: the 202 to the first attempt is lost, and the agent is asked twice. -/
theorem forwarded_twice_of_lost : ∃ w, run (System.step demo) (.start epoch)
    [.request, .client 0 (.body [1]), .client 0 (.id [7]), .client 0 .ok, .deliver 0,
      .ingress 0 .ok epoch, .ingress 0 .ok epoch, .client 0 (.fail []), .client 0 .timer,
      .client 0 .ok, .deliver 1, .ingress 1 .ok epoch, .ingress 1 .ok epoch,
      .client 0 (.status 202), .ingress 0 .ok epoch, .ingress 0 .ok epoch, .ingress 1 .ok epoch,
      .ingress 1 .ok epoch] = some w ∧
    w.forwarded = [demo.request [7] [1], demo.request [7] [1]] :=
  ⟨_, rfl, by decide⟩

end SubstratePoc.Relay
