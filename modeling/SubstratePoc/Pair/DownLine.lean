import SubstratePoc.Pair.Delivery
import SubstratePoc.Pair.Lines

namespace SubstratePoc.Pair
open Lib Tunnel Broker Sidecar

def SAct.items (w : Core) : SAct → List (Option (ℕ × Bytes))
  | .readFrame k => (w.links k).down.flatMap (item dirDown)
  | .deliverDown offset p => [some (offset, p)]
  | .onClose dir => if dir = dirDown then [none] else []
  | _ => []

/-- The line of the sidecar's tunnel goroutine. -/
def System.downLine (w : System) : List (Option (ℕ × Bytes)) := w.tunnel.flatMap (SAct.items w.core)

/-- The bytes that an action is writing to the agent, or has written and not counted yet. -/
def SAct.carrying : SAct → ℕ
  | .agentWrite q => q.length
  | .delivered n => n
  | _ => 0

/-- How far the agent has been given the stream, or is being given it. -/
def System.reach (w : System) : ℕ :=
  w.core.cs.downDelivered + (w.tunnel.map SAct.carrying).sum

theorem items_dispatch (w : Core) (m : Msg) :
    (dispatch m).flatMap (SAct.items w) = item dirDown m := by
  cases m <;> simp [dispatch, SAct.items, item]

/-! ## Frames to the sidecar -/

theorem Core.down_toSidecar (w : Core) (j : ConnId) (m : Msg) (k : ConnId) :
    ((w.toSidecar j m).links k).down = (w.links k).down ∨
      j = k ∧ (w.links k).closed = false ∧
        ((w.toSidecar j m).links k).down = (w.links k).down ++ [m] := by
  unfold Core.toSidecar
  split_ifs with hc
  · exact .inl rfl
  · by_cases hj : j = k
    · subst hj
      exact .inr ⟨rfl, by simpa using hc, by simp [Core.setLink]⟩
    · exact .inl (by simp [Core.setLink, Ne.symm hj])

theorem Core.down_objAct (w : Core) {o : ℕ} {a : Act} {c : Choice} {r : Result}
    (h : Does (w.objs o).s a c r) (k : ConnId) :
    ((w.objAct o a c r).links k).down = (w.links k).down ∨
      ∃ m, (a = .write k m ∧ c = .ok ∨ none ∉ item dirDown m) ∧ (w.links k).closed = false ∧
        ((w.objAct o a c r).links k).down = (w.links k).down ++ [m] := by
  -- the frames that a session puts into a connection are those that it writes, and the DATA
  -- that `produceDownstream` writes under the lock
  cases h with
  | writeOk tc m hm =>
    refine (Core.down_toSidecar _ tc m k).imp id ?_
    rintro ⟨rfl, hc, hdown⟩
    exact ⟨m, .inl ⟨rfl, rfl⟩, hc, hdown⟩
  | produceSent p after b tc hp hd hf hb ht hm =>
    refine (Core.down_toSidecar _ tc _ k).imp id ?_
    rintro ⟨rfl, hc, hdown⟩
    exact ⟨_, .inr (by simp [item]), hc, hdown⟩
  | register tc => exact .inl (Core.links_setLink (f := Link.down) (by rfl) k)
  | produceDetached | produceLost =>
    left
    simp only [Core.objAct]
    split_ifs <;> rfl
  | _ => exact .inl rfl

theorem BDoes.down {cfg : Config} {w w' : Core} {a : BAct} {push : List BAct}
    {spawn : List (List BAct)} (h : BDoes cfg w a w' push spawn) (ha : ∀ o b, a ≠ .act o b)
    (hreply : ∀ j m, a ≠ .reply j m) (k : ConnId) : (w'.links k).down = (w.links k).down := by
  cases h with
  | act o b => exact absurd rfl (ha o b)
  | replyOk j m => exact absurd rfl (hreply j m)
  | readFrame | detachAll | closeConn => exact Core.links_setLink (f := Link.down) (by rfl) k
  | _ => rfl

theorem bexec_down {cfg : Config} {w w' : Core} {a : BAct} {c : Choice} {push : List BAct}
    {spawn : List (List BAct)} (h : bexec cfg w a c = some (w', push, spawn)) (k : ConnId) :
    (w'.links k).down = (w.links k).down ∨
      ∃ m, (((∃ o, a = .act o (.write k m)) ∨ a = .reply k m) ∧ c = .ok ∨ none ∉ item dirDown m) ∧
        (w.links k).closed = false ∧ (w'.links k).down = (w.links k).down ++ [m] := by
  by_cases hact : ∃ o b, a = .act o b
  · obtain ⟨o, b, rfl⟩ := hact
    simp only [bexec, Option.map_eq_some_iff, Prod.mk.injEq] at h
    obtain ⟨r, hr, rfl, -⟩ := h
    refine (w.down_objAct (exec_does hr) k).imp id ?_
    rintro ⟨m, hm, hdown⟩
    exact ⟨m, hm.imp (fun h => ⟨.inl ⟨o, by rw [h.1]⟩, h.2⟩) id, hdown⟩
  by_cases hreply : ∃ j m, a = .reply j m
  · obtain ⟨j, m, rfl⟩ := hreply
    cases c with
    | ok =>
      simp only [bexec] at h
      split_ifs at h
      cases h
      refine (w.down_toSidecar j m k).imp id ?_
      rintro ⟨rfl, hdown⟩
      exact ⟨m, .inl ⟨.inr rfl, rfl⟩, hdown⟩
    | fail n text =>
      cases h
      exact .inl rfl
    | read => cases h
  · push Not at hact hreply
    exact .inl ((bexec_does h).down hact hreply k)

theorem SDoes.down {w w' : Core} {a : SAct} {push : List SAct} {spawn : List (List BAct)}
    (h : SDoes w a w' push spawn) {k : ConnId} (hk : k < w.conns) (ha : a ≠ .readFrame k) :
    (w'.links k).down = (w.links k).down := by
  cases h with
  | connect => simp [Core.setLink, hk.ne]
  | readFrame j m down hd =>
    have hj : k ≠ j := fun hj => ha (by rw [hj])
    simp [Core.setLink, hj]
  | closeConn j => exact Core.links_setLink (f := Link.down) (by rfl) k
  | writeOk j m =>
    unfold Core.toBroker
    split_ifs
    · rfl
    · exact Core.links_setLink (f := Link.down) (by rfl) k
  | _ => rfl

/-! ## The line -/

theorem Steering.line {w : Core} {t : List SAct} (h : Steering w t) :
    (∃ X, ∀ v : Core, t.flatMap (SAct.items v) = X) ∨
      ∃ k X, k < w.conns ∧ .readFrame k ∈ t ∧
        ∀ v : Core, t.flatMap (SAct.items v) = X ++ (v.links k).down.flatMap (item dirDown) := by
  -- the goroutine reads one connection at most, and reads it last
  cases h with
  | dialing => exact .inl ⟨[], fun _ => rfl⟩
  | closing => exact .inl ⟨[], fun _ => rfl⟩
  | lost => exact .inl ⟨[], fun _ => rfl⟩
  | reading k t hk ht =>
    refine .inr ⟨k, t.flatMap (SAct.items w), by omega, by simp, fun v => ?_⟩
    rw [List.flatMap_append, List.flatMap_singleton]
    congr 1
    refine List.flatMap_congr fun a ha => ?_
    rcases ht a ha with hs | rfl
    · cases a with
      | readFrame => cases hs
      | _ => rfl
    · rfl

theorem SDoes.items_push {w w' : Core} {a : SAct} {push : List SAct} {spawn : List (List BAct)}
    (h : SDoes w a w' push spawn) (ha : ∀ k, a ≠ .readFrame k) :
    push.flatMap (SAct.items w') = [] := by
  cases h with
  | connect => split_ifs <;> simp [SAct.items, Core.setLink, newLink]
  | readFrame k | readFail k => exact absurd rfl (ha k)
  | onAttachOK offset => simp [SAct.items, List.flatMap_map]
  | writeUpDead p err push hp =>
    rw [List.flatMap_eq_nil_iff]
    intro b hb
    obtain ⟨reason, rfl⟩ := hp b hb
    rfl
  | writeUpDone err => cases err <;> rfl
  | _ => rfl

theorem Steering.lt_conns {w : Core} {t : List SAct} (h : Steering w t) {k : ConnId}
    (hk : .readFrame k ∈ t) : k < w.conns := by
  cases h with
  | reading j t hj ht =>
    rw [List.mem_append, List.mem_singleton] at hk
    rcases hk with hk | hk
    · exact absurd (ht _ hk) (by simp [SAct.steers])
    · cases hk
      rw [hj]
      exact Nat.lt_succ_self k
  | _ => simp at hk

theorem Steering.rest_eq_nil {w : Core} {k : ConnId} {rest : List SAct}
    (h : Steering w (.readFrame k :: rest)) : rest = [] := by
  generalize hl : SAct.readFrame k :: rest = l at h
  cases h with
  | reading j t hj ht =>
    cases t with
    | nil => exact (List.cons.inj hl).2
    | cons b t =>
      obtain ⟨rfl, -⟩ := List.cons.inj hl
      exact absurd (ht _ (List.mem_cons_self ..)) (by simp [SAct.steers])
  | _ => cases (List.cons.inj hl).1

theorem SDoes.line_readFrame {w w' : Core} {k : ConnId} {push : List SAct}
    {spawn : List (List BAct)} (h : SDoes w (.readFrame k) w' push spawn) :
    push.flatMap (SAct.items w') = [] ∨
      push.flatMap (SAct.items w') = SAct.items w (.readFrame k) ∨
      w.listed = false ∧ (w.links k).down ≠ [] := by
  cases h with
  | readFrame _ m down hd =>
    right
    by_cases hl : w.listed = true
    · left
      rw [if_pos hl, List.flatMap_append, items_dispatch]
      simp [SAct.items, Core.setLink, hd]
    · exact .inr ⟨by simpa using hl, by simp [hd]⟩
  | readFail => exact .inl rfl

theorem SAct.items_eq {a : SAct} (ha : ∀ k, a ≠ .readFrame k) (w : Core) :
    a.items w = [] ∨ (∃ offset p, a = .deliverDown offset p) ∨ a = .onClose dirDown := by
  cases a with
  | readFrame k => exact absurd rfl (ha k)
  | deliverDown offset p => exact .inr (.inl ⟨offset, p, rfl⟩)
  | onClose dir =>
    by_cases hd : dir = dirDown
    · exact .inr (.inr (by rw [hd]))
    · exact .inl (if_neg hd)
  | _ => exact .inl rfl

/-- How the line of the sidecar comes from the one before the step. -/
inductive DownAdvance (w : System) (e : Event) (l : List (Option (ℕ × Bytes))) : Prop
  | kept (h : l <+: w.downLine)
  | sent (i : ℕ) (c : Choice) (he : e = .broker i c) (a : BAct) (hn : w.next i = some a) (k : ConnId)
    (hk : .readFrame k ∈ w.tunnel) (m : Msg)
    (hm : ((∃ o, a = .act o (.write k m)) ∨ a = .reply k m) ∧ c = .ok ∨ none ∉ item dirDown m)
    (hc : (w.core.links k).closed = false) (h : l = w.downLine ++ item dirDown m)
  | delivered (c : Choice) (he : e = .tunnel c) (offset : ℕ) (p : Bytes)
    (ht : w.tunnel.head? = some (.deliverDown offset p)) (h : w.downLine = some (offset, p) :: l)
  | closed (h : w.downLine = none :: l)
  | dropped (k : ConnId) (ht : w.tunnel.head? = some (.readFrame k)) (hl : w.core.listed = false)
    (hd : (w.core.links k).down ≠ [])

section Step
variable {cfg : Config} {w w' : System} {e : Event}

theorem Steered.advance_tunnel {a : SAct} {rest push : List SAct} {spawn : List (List BAct)}
    {c : Choice} (hI : Steered w) (h : SDoes w.core a w'.core push spawn)
    (ht : w.tunnel = a :: rest) (ht' : w'.tunnel = push ++ rest) :
    DownAdvance w (.tunnel c) w'.downLine := by
  have hsteer := hI.newest.tunnel
  have hline' : w'.downLine = push.flatMap (SAct.items w'.core) ++
      rest.flatMap (SAct.items w'.core) := by
    rw [System.downLine, ht', List.flatMap_append]
  have hline : w.downLine = a.items w.core ++ rest.flatMap (SAct.items w.core) := by
    rw [System.downLine, ht, List.flatMap_cons]
  rw [ht] at hsteer
  by_cases hread : ∃ k, a = .readFrame k
  · obtain ⟨k, rfl⟩ := hread
    obtain rfl := hsteer.rest_eq_nil
    rw [List.flatMap_nil, List.append_nil] at hline hline'
    rcases h.line_readFrame with hp | hp | ⟨hl, hd⟩
    · exact .kept (by rw [hline', hp]; exact List.nil_prefix)
    · exact .kept (by rw [hline', hp, hline])
    · exact .dropped k (by rw [ht]; rfl) hl hd
  · push Not at hread
    have hrest : rest.flatMap (SAct.items w'.core) = rest.flatMap (SAct.items w.core) := by
      refine List.flatMap_congr fun b hb => ?_
      cases b with
      | readFrame k =>
        have hk := hsteer.lt_conns (List.mem_cons_of_mem a hb)
        rw [SAct.items, SAct.items, h.down hk (hread k)]
      | _ => rfl
    rw [h.items_push hread, List.nil_append, hrest] at hline'
    rcases SAct.items_eq hread w.core with ha | ⟨offset, p, rfl⟩ | rfl
    · exact .kept (by rw [hline', hline, ha, List.nil_append])
    · exact .delivered c rfl offset p (by rw [ht]; rfl) (by rw [hline, hline']; rfl)
    · exact .closed (by rw [hline, hline']; rfl)

theorem Steered.advance_links (hI : Steered w) (ht : w'.tunnel = w.tunnel)
    (h : ∀ k < w.core.conns, .readFrame k ∈ w.tunnel →
      (w'.core.links k).down <+: (w.core.links k).down) : w'.downLine <+: w.downLine := by
  rw [System.downLine, System.downLine, ht]
  obtain ⟨X, hX⟩ | ⟨k, X, hk, hmem, hX⟩ := hI.newest.tunnel.line
  · rw [hX, hX]
  · rw [hX, hX]
    obtain ⟨t, ht⟩ := h k hk hmem
    rw [← ht, List.flatMap_append, ← List.append_assoc]
    exact List.prefix_append _ _

theorem Steered.advance (hI : Steered w) (h : Pair.step cfg w e = some w') :
    DownAdvance w e w'.downLine := by
  cases e with
  | tunnel c =>
    obtain ⟨a, rest, push, spawn, ht, hr, ht', -, -⟩ := step_tunnel h
    exact hI.advance_tunnel (sexec_does hr) ht ht'
  | proxy c =>
    obtain ⟨a, rest, push, spawn, hp, hr, -, ht, -⟩ := step_proxy h
    refine .kept (hI.advance_links ht fun k hk _ => ?_)
    have hs : a.steers = false := hI.proxy a (by simp [hp])
    rw [(sexec_does hr).down hk fun ha => by rw [ha] at hs; cases hs]
  | broker i c =>
    obtain ⟨a, -, -, push, spawn, hn, hr, -, -, ht, -⟩ := step_bexec h
    have hdown := bexec_down hr
    obtain ⟨X, hX⟩ | ⟨k, X, -, hmem, hX⟩ := hI.newest.tunnel.line
    · exact .kept (by rw [System.downLine, System.downLine, ht, hX, hX])
    · rcases hdown k with hsame | ⟨m, hm, hc, hdown⟩
      · exact .kept (by rw [System.downLine, System.downLine, ht, hX, hX, hsame])
      · refine .sent i c rfl a hn k hmem m hm hc ?_
        rw [System.downLine, System.downLine, ht, hX, hX, hdown, List.flatMap_append,
          List.append_assoc, List.flatMap_singleton]
  | fire o =>
    simp only [Pair.step] at h
    split_ifs at h
    obtain rfl := Option.some.inj h
    exact .kept (hI.advance_links rfl fun _ _ _ => List.prefix_rfl)
  | cut j m n =>
    obtain rfl := Option.some.inj h
    refine .kept (hI.advance_links rfl fun k _ _ => ?_)
    by_cases hk : k = j
    · subst hk
      simpa [Core.setLink] using List.take_prefix n _
    · simp [Core.setLink, hk]

/-! ## What has been delivered -/

theorem SAct.carrying_eq_zero {a : SAct} (h : a.delivering = false) : a.carrying = 0 := by
  cases a <;> first | rfl | cases h

theorem sum_carrying_eq_zero {l : List SAct} (h : ∀ a ∈ l, a.delivering = false) :
    (l.map SAct.carrying).sum = 0 := by
  induction l with
  | nil => rfl
  | cons a l ih =>
    rw [List.forall_mem_cons] at h
    rw [List.map_cons, List.sum_cons, SAct.carrying_eq_zero h.1, ih h.2]

theorem SDoes.reach {cw cw' : Core} {a : SAct} {push : List SAct} {spawn : List (List BAct)}
    (h : SDoes cw a cw' push spawn) (ha : ∀ offset p, a ≠ .deliverDown offset p)
    (hok : cw'.agentOK = true) :
    cw'.cs.downDelivered + (push.map SAct.carrying).sum = cw.cs.downDelivered + a.carrying := by
  by_cases hd : a.delivering = false
  · obtain ⟨-, -, hdel, -, hpush⟩ := h.quiet hd ha
    rw [hdel, SAct.carrying_eq_zero hd]
    rcases hpush with hpush | rfl
    · rw [sum_carrying_eq_zero hpush]
    · rfl
  · cases h with
    | agentWriteFail => cases hok
    | agentWriteOk q => rfl
    | delivered n => rfl
    | closeAll => rfl
    | closeAllAgain => rfl
    | _ => exact absurd rfl hd

theorem sexec_deliverDown {cw cw' : Core} {offset : ℕ} {p : Bytes} {c : Choice} {push : List SAct}
    {spawn : List (List BAct)} (h : sexec cw (.deliverDown offset p) c = some (cw', push, spawn))
    (hd : cw.cs.dead = false) :
    cw'.cs.downDelivered + (push.map SAct.carrying).sum = splice cw.cs.downDelivered offset p := by
  have hdel := ClientSession.downDelivered_deliver hd offset p
  unfold ClientSession.deliver at hdel
  simp only [sexec] at h
  rcases hq : cw.cs.deliverDown offset p with _ | q
  · rw [hq] at h hdel
    cases h
    exact hdel
  · rw [hq] at h hdel
    cases h
    exact hdel

theorem reach_step {P : Bytes} (hD : Delivering P w) (hd : w.core.cs.dead = false)
    (hok : w'.core.agentOK = true) (h : step cfg w e = some w') :
    w.reach ≤ w'.reach ∧ ∀ offset p c, e = .tunnel c →
      w.tunnel.head? = some (.deliverDown offset p) → splice w.reach offset p ≤ w'.reach := by
  have hsame : w'.core.cs.downDelivered = w.core.cs.downDelivered → w'.tunnel = w.tunnel →
      w.reach ≤ w'.reach := by
    intro hdel ht
    rw [System.reach, System.reach, hdel, ht]
  cases e with
  | tunnel c =>
    obtain ⟨a, rest, push, spawn, ht, hr, ht', -, -⟩ := step_tunnel h
    have hrest : (rest.map SAct.carrying).sum = 0 :=
      sum_carrying_eq_zero fun b hb => hD.tail b (by simpa [ht] using hb)
    have hreach : w.reach = w.core.cs.downDelivered + a.carrying := by
      rw [System.reach, ht, List.map_cons, List.sum_cons, hrest, Nat.add_zero]
    have hreach' : w'.reach = w'.core.cs.downDelivered + (push.map SAct.carrying).sum := by
      rw [System.reach, ht', List.map_append, List.sum_append, hrest, Nat.add_zero]
    by_cases ha : ∃ offset p, a = .deliverDown offset p
    · obtain ⟨offset, p, rfl⟩ := ha
      have hreach : w.reach = w.core.cs.downDelivered := hreach
      rw [hreach', sexec_deliverDown hr hd, hreach]
      refine ⟨le_splice _ _ _, fun offset' p' c' _ hhead => ?_⟩
      rw [ht] at hhead
      cases hhead
      exact le_rfl
    · push Not at ha
      rw [hreach', (sexec_does hr).reach ha hok, hreach]
      refine ⟨le_rfl, fun offset p c' _ hhead => ?_⟩
      rw [ht] at hhead
      exact absurd (Option.some.inj hhead) (ha offset p)
  | proxy c =>
    obtain ⟨a, rest, push, spawn, hp, hr, -, ht, -⟩ := step_proxy h
    obtain ⟨hnd, hne⟩ := SAct.not_delivering_of_copying (hD.copying a (by simp [hp]))
    exact ⟨hsame ((sexec_does hr).quiet hnd hne).2.2.1 ht, fun _ _ _ he => by cases he⟩
  | broker i c =>
    obtain ⟨a, -, -, push, spawn, -, hr, -, -, ht, -⟩ := step_bexec h
    exact ⟨hsame (by rw [(bexec_does hr).sidecar_eq.1]) ht, fun _ _ _ he => by cases he⟩
  | fire o =>
    have hq := step_fire h
    exact ⟨hsame (by rw [hq.cs]) hq.tunnel, fun _ _ _ he => by cases he⟩
  | cut k m n =>
    have hq := step_cut h
    exact ⟨hsame (by rw [hq.cs]) hq.tunnel, fun _ _ _ he => by cases he⟩

/-! ## The sidecar's map -/

/-- A connection that nothing has been sent on. -/
def Link.Blank (l : Link) : Prop := l.up = [] ∧ l.down = [] ∧ l.registered = none

theorem Core.blank_setLink {w : Core} {k : ConnId} {l : Link} (h : ∀ j, (w.links j).Blank)
    (hl : l.Blank) (j : ConnId) : ((w.setLink k l).links j).Blank := by
  by_cases hj : j = k
  · subst hj
    simpa [setLink] using hl
  · simpa [setLink, hj] using h j

/-- `openSession` is still to come, and nothing has been sent on any connection. -/
structure Unopened (w : System) : Prop where
  proxy : w.proxy = [.openSession]
  listed : w.core.listed = false
  created : w.core.created = 0
  links : ∀ k, (w.core.links k).Blank
  tunnel : ∀ a ∈ w.tunnel, a.steers = true ∧ ∀ k, a ≠ .attachFrame k
  broker : ∀ b ∈ w.pending, ∃ k, b = .readFrame k ∨ b = .detachAll k ∨ b = .closeConn k

/-- The session leaves the map only after `closeAll`. -/
structure Listed (w : System) : Prop where
  listed : w.core.listed = true ∨ w.core.cs.dead = true
  removing : .removeSession ∈ w.tunnel ++ w.proxy → w.core.cs.dead = true

theorem unopened_start (cfg : Config) : Unopened (start cfg) where
  proxy := rfl
  listed := rfl
  created := rfl
  links _ := ⟨rfl, rfl, rfl⟩
  tunnel := by simp [start, SAct.steers]
  broker b hb := by cases hb

theorem SDoes.listed {cw cw' : Core} {a : SAct} {push : List SAct} {spawn : List (List BAct)}
    (h : SDoes cw a cw' push spawn) :
    (cw.cs.dead = true → cw'.cs.dead = true) ∧
      (a ≠ .removeSession → cw.listed = true → cw'.listed = true) ∧
      (.removeSession ∈ push → cw'.cs.dead = true) := by
  cases h with
  | readFrame k m down hd =>
    refine ⟨id, fun _ => id, fun hm => ?_⟩
    split_ifs at hm
    · cases m <;> simp [dispatch] at hm
    · simp at hm
  | connect => exact ⟨id, fun _ => id, by split_ifs <;> simp⟩
  | writeOk k m =>
    rw [Core.toBroker_eq]
    exact ⟨id, fun _ => id, by simp⟩
  | writeUpDead p err push hp =>
    refine ⟨id, fun _ => id, fun hm => ?_⟩
    obtain ⟨reason, hr⟩ := hp _ hm
    cases hr
  | writeUpDone err => cases err <;> exact ⟨id, fun _ => id, by simp [afterWriteUp]⟩
  | removeSession => exact ⟨id, fun h => absurd rfl h, by simp⟩
  | closeAll => exact ⟨fun _ => rfl, fun _ => id, fun _ => rfl⟩
  | openSession => exact ⟨id, fun _ _ => rfl, by simp⟩
  | _ => exact ⟨id, fun _ => id, by simp⟩

theorem Listed.of_sidecar (hI : Listed w) {a : SAct} {push : List SAct} {spawn : List (List BAct)}
    (h : SDoes w.core a w'.core push spawn)
    (hrun : Runs w.tunnel w'.tunnel a push ∧ w'.proxy = w.proxy ∨
      Runs w.proxy w'.proxy a push ∧ w'.tunnel = w.tunnel) : Listed w' := by
  obtain ⟨hmem, hside⟩ := side_of_runs hrun
  obtain ⟨hdead, hlisted, hpush⟩ := h.listed
  refine ⟨?_, fun hm => (hside _ hm).elim (fun hm => hdead (hI.removing hm)) hpush⟩
  by_cases ha : a = .removeSession
  · exact .inr (hdead (hI.removing (ha ▸ hmem)))
  · exact hI.listed.imp (hlisted ha) hdead

theorem Listed.congr (hI : Listed w) (hcs : w'.core.cs = w.core.cs)
    (hl : w'.core.listed = w.core.listed) (ht : w'.tunnel = w.tunnel) (hp : w'.proxy = w.proxy) :
    Listed w' := by
  obtain ⟨h1, h2⟩ := hI
  exact ⟨by rwa [hcs, hl], by rwa [hcs, ht, hp]⟩

theorem SDoes.unopened {cw cw' : Core} {a : SAct} {push : List SAct} {spawn : List (List BAct)}
    (h : SDoes cw a cw' push spawn) (ha : a.steers = true) (hna : ∀ k, a ≠ .attachFrame k)
    (hl : cw.listed = false) (hlinks : ∀ k, (cw.links k).Blank) :
    cw'.cs = cw.cs ∧ cw'.listed = false ∧ (∀ k, (cw'.links k).Blank) ∧
      ∀ b ∈ push, b.steers = true ∧ ∀ k, b ≠ .attachFrame k := by
  cases h with
  | connect =>
    refine ⟨rfl, hl, Core.blank_setLink hlinks ⟨rfl, rfl, rfl⟩, ?_⟩
    rw [if_neg (by simp [hl])]
    simp [SAct.steers]
  | attachFrame k => exact absurd rfl (hna k)
  | readFrame k m down hd =>
    rw [(hlinks k).2.1] at hd
    cases hd
  | closeConn k => exact ⟨rfl, hl, Core.blank_setLink hlinks (hlinks k), by simp⟩
  | connectFail | readFail | disconnect => exact ⟨rfl, hl, hlinks, by simp [SAct.steers]⟩
  | _ => cases ha

theorem BDoes.unopened {cw cw' : Core} {a : BAct} {push : List BAct} {spawn : List (List BAct)}
    (h : BDoes cfg cw a cw' push spawn)
    (ha : ∃ k, a = .readFrame k ∨ a = .detachAll k ∨ a = .closeConn k)
    (hlinks : ∀ k, (cw.links k).Blank) :
    cw'.created = cw.created ∧ (∀ k, (cw'.links k).Blank) ∧
      ∀ b ∈ push ++ spawn.flatten, ∃ k, b = .readFrame k ∨ b = .detachAll k ∨ b = .closeConn k := by
  obtain ⟨k, rfl | rfl | rfl⟩ := ha
  · cases h with
    | readFrame _ m up hu =>
      rw [(hlinks k).1] at hu
      cases hu
    | readFail => exact ⟨rfl, hlinks, by simp⟩
  · cases h with
    | detachAll _ o ho =>
      rw [(hlinks k).2.2] at ho
      cases ho
    | detachNone => exact ⟨rfl, hlinks, by simp⟩
  · cases h
    exact ⟨rfl, Core.blank_setLink hlinks (hlinks k), by simp⟩

theorem Unopened.step (hI : Unopened w) (h : Pair.step cfg w e = some w') :
    w'.core.cs = w.core.cs ∧ (Unopened w' ∨ w'.core.listed = true ∧
      .openSession ∉ w'.tunnel ++ w'.proxy ∧ Listed w') := by
  cases e with
  | tunnel c =>
    obtain ⟨a, rest, push, spawn, ht, hr, ht', hp, hts⟩ := step_tunnel h
    have hacts := hI.tunnel
    rw [ht, List.forall_mem_cons] at hacts
    have hs := sexec_does hr
    obtain ⟨hcs, hl, hlinks, hpush⟩ := hs.unopened hacts.1.1 hacts.1.2 hI.listed hI.links
    refine ⟨hcs, .inl ⟨hp.trans hI.proxy, hl, hs.frame.created.trans hI.created, hlinks, ?_, ?_⟩⟩
    · rw [ht', List.forall_mem_append]
      exact ⟨hpush, hacts.2⟩
    · intro b hb
      rw [System.pending, hts, List.flatten_append, List.mem_append] at hb
      refine hb.elim (hI.broker b) fun hb => ?_
      obtain ⟨k, rfl, -⟩ := hs.frame.spawn b hb
      exact ⟨k, .inl rfl⟩
  | proxy c =>
    obtain ⟨a, rest, push, spawn, hp, hr, hp', ht, -⟩ := step_proxy h
    rw [hI.proxy] at hp
    obtain ⟨rfl, rfl⟩ := List.cons.inj hp
    simp only [sexec, Option.some.injEq, Prod.mk.injEq] at hr
    obtain ⟨hcore, rfl, -⟩ := hr
    have hl : w'.core.listed = true := by rw [← hcore]
    have hside : ∀ a : SAct, a.steers = false →
        a ∉ [.send (.opn w.core.cs.sessionID w.core.cs.target), .readAgent] →
        a ∉ w'.tunnel ++ w'.proxy := by
      intro a ha hne hm
      rw [ht, hp', List.append_nil, List.mem_append] at hm
      exact hm.elim (fun hm => by simp [(hI.tunnel _ hm).1] at ha) hne
    exact ⟨by rw [← hcore], .inr ⟨hl, hside _ rfl (by simp), .inl hl,
      fun hm => absurd hm (hside _ rfl (by simp))⟩⟩
  | broker i c =>
    obtain ⟨a, X, Y, push, spawn, -, hr, hpend, hpend', ht, hp⟩ := step_bexec h
    have hb := bexec_does hr
    obtain ⟨hcreated, hlinks, hpush⟩ := hb.unopened (hI.broker a (by simp [hpend])) hI.links
    refine ⟨hb.sidecar_eq.1, .inl ⟨hp.trans hI.proxy, hb.sidecar_eq.2.1.trans hI.listed,
      hcreated.trans hI.created, hlinks, ht ▸ hI.tunnel, fun b hb => ?_⟩⟩
    exact (mem_pending_of_replace hpend hpend' b hb).elim (hI.broker b) (hpush b)
  | fire o => simp [Pair.step, hI.created] at h
  | cut k m n =>
    obtain rfl := Option.some.inj h
    refine ⟨rfl, .inl ⟨hI.proxy, hI.listed, hI.created, Core.blank_setLink hI.links ?_, hI.tunnel,
      hI.broker⟩⟩
    obtain ⟨hu, hd, hr⟩ := hI.links k
    exact ⟨by rw [hu, List.take_nil], by rw [hd, List.take_nil], hr⟩

theorem listed_step (hI : Unopened w ∨ Listed w) (h : step cfg w e = some w') :
    Unopened w' ∨ Listed w' := by
  rcases hI with hI | hI
  · exact (hI.step h).2.imp id fun hl => hl.2.2
  right
  cases step_moves h with
  | sidecar _ a push spawn hs hrun hp => exact hI.of_sidecar hs hrun
  | quiet _ hq => exact hI.congr hq.cs hq.listed hq.tunnel hq.proxy
  | broker i c a X Y push spawn hn hb ht hproxy hp hp' =>
    obtain ⟨hcs, hl, -⟩ := hb.sidecar_eq
    exact hI.congr hcs hl ht hproxy

end Step

end SubstratePoc.Pair
