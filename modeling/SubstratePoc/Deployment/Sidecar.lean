import SubstratePoc.Client.Announce
import SubstratePoc.Deployment.View

namespace SubstratePoc.Deployment
open Lib Tunnel Broker Sidecar Client

/-- The actions of a goroutine. -/
def Home (t : Client.Thread) (a : CAct) : Prop :=
  match t with
  | .tunnel => ∀ k nonce, a ≠ .tick k nonce ∧ a ≠ .ping k nonce
  | .ping k => a = .closeConn k ∨ ∃ nonce, a = .tick k nonce ∨ a = .ping k nonce
  | .proxy sid => ∃ b, a = .sess sid b

/-- The actions that `Run` takes before anything else. -/
def heads : CAct → Bool
  | .hello _ | .publish _ | .handleFrame _ _ => true
  | _ => false

/-- How what the goroutines of the sidecar have to do stands to its connections; `A` is its name. -/
structure Tidy (A : Bytes) (c : Client.World) : Prop where
  home : ∀ t, ∀ a ∈ c.threads t, Home t a
  heads : ∀ a ∈ (c.threads .tunnel).tail, heads a = false
  reads : ∀ k f rest, c.threads .tunnel = .handleFrame k f :: rest → rest = [.readFrame k]
  newest : ∀ k, .hello k ∈ c.threads .tunnel ∨ .publish k ∈ c.threads .tunnel → k + 1 = c.conns
  current : ∀ k, c.conn = some k →
    .readFrame k ∈ c.threads .tunnel ∨ .disconnect k ∈ c.threads .tunnel
  ids : c.ids.Nodup
  attaching : ∀ k sids, .attaching k sids ∈ c.threads .tunnel → sids.Nodup
  known : ∀ t, ∀ a ∈ c.threads t, ∀ k, a.conn = some k → a = .publish k ∨ k < published c
  conn : ∀ k, c.conn = some k → k < published c
  greeting : ∀ k, published c ≤ k → (c.links k).sent = [] ∨ (c.links k).sent = [helloFrame A]
  hello : ∀ k, ∀ f ∈ (c.links k).sent, f.type = FrameType.typeHello.byte → f = helloFrame A

theorem Tidy.start (A : Bytes) (cfg : Client.Config) : Tidy A (Client.start cfg) where
  home := by
    intro t a ha
    cases t <;> simp [Client.start] at ha
    subst ha
    simp [Home]
  heads := by simp [Client.start]
  reads := by simp [Client.start]
  newest := by simp [Client.start]
  current := by simp [Client.start]
  ids := List.nodup_nil
  attaching := by simp [Client.start]
  known := by
    intro t a ha k hk
    cases t <;> simp [Client.start] at ha
    subst ha
    cases hk
  conn := by simp [Client.start]
  greeting := fun _ _ => .inl rfl
  hello := by simp [Client.start, newLink]

section Step
variable {A : Bytes} {cfg : Client.Config} {c c₁ : Client.World} {a : CAct} {push rest : List CAct}
  {t : Client.Thread} {k : ConnId}

theorem publishedOf_of_heads {n : ℕ} {l : List CAct} (h : ∀ a ∈ l, heads a = false) :
    publishedOf n l = n := by
  cases l with
  | nil => rfl
  | cons a l =>
    have ha := h a (by simp)
    cases a <;> first | rfl | cases ha

theorem heads_sess {sid : UInt64} {l : List SAct} {x : CAct} (h : x ∈ l.map (CAct.sess sid)) :
    heads x = false := by
  obtain ⟨b, -, rfl⟩ := List.mem_map.mp h
  rfl

theorem home_push (h : CDoes c a c₁ push) (ha : Home t a) : ∀ x ∈ push, Home t x := by
  cases t with
  | tunnel =>
    cases h with
    | handleSession | sess => simp [Home]
    | tick | overdue | pingDone => exact absurd rfl (ha _ _).1
    | ping => exact absurd rfl (ha _ _).2
    | _ => simp [Home]
  | ping k =>
    obtain rfl | ⟨nonce, rfl | rfl⟩ := ha
    · cases h
      simp
    · cases h <;> simp [Home]
    · cases h with
      | ping _ _ _ _ next hn => rcases hn with rfl | rfl <;> simp [Home]
  | proxy sid =>
    obtain ⟨b, rfl⟩ := ha
    cases h <;> simp [Home]

theorem heads_push (h : CDoes c a c₁ push) : ∀ x ∈ push.tail, heads x = false := by
  cases h with
  | handleSession | sess => exact fun x hx => heads_sess (List.mem_of_mem_tail hx)
  | ping _ _ _ _ next hn => simp
  | _ => simp [heads]

theorem tunnel_of_steers (hs : Steered c) (ha : a ∈ c.threads t) (h : a.steers = true) :
    t = .tunnel := by
  by_contra hne
  rw [hs.others t hne a ha] at h
  cases h

/-- The next step of a connection is the last thing that `Run` has to do. -/
theorem rest_eq_nil (hs : Steered c) (ht : c.threads .tunnel = a :: rest) (ha : a.steers = true) :
    rest = [] := eq_nil_of_last (ht ▸ hs.tunnel) ha

/-- What `Run` does about its connections stays as it is while another goroutine moves. -/
theorem other_run (hs : Steered c) (h : CDoes c a c₁ push) (ha : a ∈ c.threads t)
    (ht : t ≠ .tunnel) : c₁.threads .tunnel = c.threads .tunnel ∧ c₁.conns = c.conns := by
  have hsteers := hs.others t ht a ha
  constructor
  · obtain heq | ⟨j, -, heq⟩ := h.threads <;> rw [heq]
    rw [Function.update_of_ne (by simp)]
  · obtain heq | ⟨rfl, -⟩ := h.conns
    · exact heq
    · cases hsteers

/-- A connection is published by the action of this name, or given up if HELLO fails. -/
theorem published_run (hI : Tidy A c) (hs : Steered c) (ht : c.threads t = a :: rest)
    (h : CDoes c a c₁ push) :
    (∀ k, a = .publish k → published (c₁.setThread t (push ++ rest)) = published c + 1) ∧
    (∀ k, a = .hello k → push = [.closeConn k, .dial] →
      published (c₁.setThread t (push ++ rest)) = published c + 1) ∧
    ((∀ k, a ≠ .publish k) → (∀ k, a = .hello k → push ≠ [.closeConn k, .dial]) →
      published (c₁.setThread t (push ++ rest)) = published c) := by
  -- only `Run` sets up connections
  by_cases htun : t = .tunnel
  · subst htun
    have hnew : published (c₁.setThread .tunnel (push ++ rest)) =
        publishedOf c₁.conns (push ++ rest) := by simp [published, World.setThread]
    have hold : published c = publishedOf c.conns (a :: rest) := by rw [published, ht]
    have hrest : ∀ x ∈ rest, heads x = false := by simpa [ht] using hI.heads
    have hconns := hI.newest
    rw [hnew, hold]
    rw [ht] at hconns
    cases h with
    | hello k id w' hw =>
      refine ⟨by simp, by simp, fun _ _ => rfl⟩
    | helloFail k =>
      refine ⟨by simp, fun j _ _ => ?_, fun _ h => absurd rfl (h k rfl)⟩
      show c.conns = k + 1
      exact (hconns k (by simp)).symm
    | publish k =>
      refine ⟨fun j _ => ?_, by simp, fun h => absurd rfl (h k)⟩
      show c.conns = k + 1
      exact (hconns k (by simp)).symm
    | handleSession | sess =>
      refine ⟨by simp, by simp, fun _ _ => publishedOf_of_heads fun x hx => ?_⟩
      exact (List.mem_append.mp hx).elim heads_sess (hrest x)
    | pong k nonce w' hw | write sid k m w' hw =>
      refine ⟨by simp, by simp, fun _ _ => ?_⟩
      cases hw <;> exact publishedOf_of_heads hrest
    | ping k nonce w' hw next hn =>
      refine ⟨by simp, by simp, fun _ _ => ?_⟩
      rcases hn with rfl | rfl <;> cases hw <;> rfl
    | _ =>
      refine ⟨by simp, by simp, fun _ _ => ?_⟩
      first
        | rfl
        | exact publishedOf_of_heads hrest
  · obtain ⟨hth, hconns⟩ := other_run hs h (by simp [ht]) htun
    have heq : published (c₁.setThread t (push ++ rest)) = published c := by
      simp [published, World.setThread, Function.update_of_ne (Ne.symm htun), hth, hconns]
    have hsteers := hs.others t htun a (by simp [ht])
    refine ⟨?_, ?_, fun _ _ => heq⟩
    · rintro k rfl
      cases hsteers
    · rintro k rfl
      cases hsteers

theorem published_le (hI : Tidy A c) (hs : Steered c) (ht : c.threads t = a :: rest)
    (h : CDoes c a c₁ push) : published c ≤ published (c₁.setThread t (push ++ rest)) := by
  obtain ⟨hp, hh, hother⟩ := published_run hI hs ht h
  by_cases h1 : ∃ k, a = .publish k
  · obtain ⟨k, hk⟩ := h1
    exact (hp k hk).ge.trans' (Nat.le_succ _)
  · by_cases h2 : ∃ k, a = .hello k ∧ push = [.closeConn k, .dial]
    · obtain ⟨k, hk, hpush⟩ := h2
      exact (hh k hk hpush).ge.trans' (Nat.le_succ _)
    · push Not at h1 h2
      exact (hother h1 h2).ge

theorem lt_published (hI : Tidy A c) (hs : Steered c) (ht : c.threads t = .publish k :: rest)
    (h : CDoes c (.publish k) c₁ push) : k < published (c₁.setThread t (push ++ rest)) := by
  obtain rfl := tunnel_of_steers hs (show CAct.publish k ∈ c.threads t by simp [ht]) rfl
  rw [(published_run hI hs ht h).1 k rfl, published, ht]
  exact Nat.lt_succ_self k

/-- What an action adds to the frames of a connection; HELLO has the actor's name. -/
theorem sent_run {ch : CChoice} (hg : Greets c) (h : cexec cfg c a ch = some (c₁, push))
    (hname : ∀ id, ch = .actorID id → id = A) (k : ConnId) :
    (c₁.links k).sent = (c.links k).sent ∨ ∃ f, (c₁.links k).sent = (c.links k).sent ++ [f] ∧
      a.Puts k f ∧ (f.type = FrameType.typeHello.byte → f = helloFrame A) := by
  have hl := (cexec_does h).links k
  generalize hl₁ : c₁.links k = l₁ at hl ⊢
  cases hl with
  | same | flagged | lost => exact .inl rfl
  | made ha hk => exact .inl (hg.silent k hk.ge).symm
  | sent f hf =>
    refine .inr ⟨f, rfl, hf, fun htype => ?_⟩
    rcases hf.cases with ⟨rfl, id, rfl⟩ | ⟨-, hne⟩
    · simp only [cexec] at h
      split at h
      · rename_i id'
        obtain rfl := hname id' rfl
        obtain ⟨w', hw, heq⟩ := Option.map_eq_some_iff.mp h
        cases heq
        simp only [World.write] at hw
        split_ifs at hw
        cases hw
        simpa [World.setLink, helloFrame] using (congrArg Link.sent hl₁).symm
      · cases h
        rw [hl₁] at *
        simp at hl₁
      · cases h
    · exact absurd htype hne

theorem handle_push {f : Frame} (h : CDoes c a c₁ (.handleFrame k f :: push)) :
    a = .readFrame k ∧ push = [.readFrame k] := by
  generalize hp : CAct.handleFrame k f :: push = l at h
  cases h with
  | readFrame j g =>
    cases hp
    exact ⟨rfl, rfl⟩
  | handleSession | sess =>
    rw [eq_comm, List.map_eq_cons_iff] at hp
    obtain ⟨b, -, -, hb, -⟩ := hp
    cases hb
  | ping j nonce w' hw next hn =>
    rcases hn with rfl | rfl <;> cases hp
  | _ => cases hp

/-- A new connection: it is dialed, HELLO is written, and it is published. -/
theorem fresh_push (h : CDoes c a c₁ push) : (.hello k ∈ push → k + 1 = c₁.conns) ∧
    (.publish k ∈ push → a = .hello k ∧ c₁.conns = c.conns) := by
  cases h with
  | dial => simp [World.setLink]
  | hello j id w' hw =>
    cases write_writes hw <;> simp [World.setLink, eq_comm]
  | ping j nonce w' hw next hn => rcases hn with rfl | rfl <;> simp
  | _ => simp

theorem mem_tunnel_run (h : CDoes c a c₁ push) (ht : c.threads t = a :: rest) {x : CAct}
    (hx : x ∈ (c₁.setThread t (push ++ rest)).threads .tunnel) :
    x ∈ c.threads .tunnel ∨ t = .tunnel ∧ x ∈ push := by
  rcases mem_threads_run h ht hx with hx | ⟨hu, hx⟩ | ⟨k, -, hu, -⟩
  · exact .inl hx
  · exact .inr ⟨hu.symm, hx⟩
  · cases hu

theorem tunnel_run (h : CDoes c a c₁ push) (t : Client.Thread) (rest : List CAct) :
    t = .tunnel ∧ (c₁.setThread t (push ++ rest)).threads .tunnel = push ++ rest ∨
      (c₁.setThread t (push ++ rest)).threads .tunnel = c.threads .tunnel := by
  rcases threads_run h t rest .tunnel with ⟨rfl, heq⟩ | ⟨-, heq⟩ | ⟨k, -, hu, -⟩
  · exact .inl ⟨rfl, heq⟩
  · exact .inr heq
  · cases hu

theorem Tidy.heads_run (hI : Tidy A c) (ht : c.threads t = a :: rest) (h : CDoes c a c₁ push) :
    ∀ x ∈ ((c₁.setThread t (push ++ rest)).threads .tunnel).tail, Deployment.heads x = false := by
  intro x hx
  rcases tunnel_run h t rest with ⟨rfl, heq⟩ | heq <;> rw [heq] at hx
  · have hrest : ∀ y ∈ rest, Deployment.heads y = false := by simpa [ht] using hI.heads
    cases push with
    | nil => exact hrest x (List.mem_of_mem_tail hx)
    | cons y p => exact (List.mem_append.mp hx).elim (heads_push h x) (hrest x)
  · exact hI.heads x hx

theorem Tidy.reads_run (hI : Tidy A c) (hs : Steered c) (ht : c.threads t = a :: rest)
    (h : CDoes c a c₁ push) {f : Frame} {r : List CAct}
    (hr : (c₁.setThread t (push ++ rest)).threads .tunnel = .handleFrame k f :: r) :
    r = [.readFrame k] := by
  rcases tunnel_run h t rest with ⟨rfl, heq⟩ | heq <;> rw [heq] at hr
  · cases push with
    | nil =>
      have hrest : rest = .handleFrame k f :: r := hr
      have := hI.heads (.handleFrame k f) (by rw [ht, hrest]; exact List.mem_cons_self)
      cases this
    | cons y p =>
      cases hr
      obtain ⟨rfl, rfl⟩ := handle_push h
      rw [rest_eq_nil hs ht rfl]
      rfl
  · exact hI.reads k f r hr

theorem Tidy.newest_run (hI : Tidy A c) (hs : Steered c) (ht : c.threads t = a :: rest)
    (h : CDoes c a c₁ push) {x : CAct} (hx : x = .hello k ∨ x = .publish k)
    (hmem : x ∈ (c₁.setThread t (push ++ rest)).threads .tunnel) : k + 1 = c₁.conns := by
  have ha : a ∈ c.threads t := by simp [ht]
  have hxs : x.steers = true := by rcases hx with rfl | rfl <;> rfl
  cases hsteer : a.steers with
  | true =>
    have hp := hs.pushed ht h hsteer hmem hxs
    rcases hx with rfl | rfl
    · exact (fresh_push h).1 hp
    · obtain ⟨rfl, hconns⟩ := (fresh_push h).2 hp
      rw [hconns]
      exact hI.newest k (.inl (tunnel_of_steers hs ha rfl ▸ ha))
  | false =>
    have hconns : c₁.conns = c.conns := by
      rcases h.conns with heq | ⟨rfl, -⟩
      · exact heq
      · cases hsteer
    rw [hconns]
    rcases mem_tunnel_run h ht hmem with hold | ⟨-, hp⟩
    · apply hI.newest k
      rcases hx with rfl | rfl
      · exact .inl hold
      · exact .inr hold
    · rw [h.steers.2 hsteer x hp] at hxs
      cases hxs

/-- The connection that is published is read, or given up next. -/
theorem Tidy.current_run (hI : Tidy A c) (hs : Steered c) (ht : c.threads t = a :: rest)
    (h : CDoes c a c₁ push) (hk : c₁.conn = some k) :
    .readFrame k ∈ (c₁.setThread t (push ++ rest)).threads .tunnel ∨
      .disconnect k ∈ (c₁.setThread t (push ++ rest)).threads .tunnel := by
  have ha : a ∈ c.threads t := by simp [ht]
  have hkeep : ∀ x ∈ c.threads .tunnel, .tunnel = t ∧ x = a ∨
      x ∈ (c₁.setThread t (push ++ rest)).threads .tunnel :=
    fun x hx => mem_threads_keep h ht (by simp) hx
  have hpush : .tunnel = t → ∀ x ∈ push,
      x ∈ (c₁.setThread t (push ++ rest)).threads .tunnel := by
    rintro rfl x hx
    exact mem_threads_push hx
  rcases h.conn_eq with heq | heq | ⟨j, rfl, heq⟩ <;> rw [heq] at hk
  · rcases hI.current k hk with hr | hd
    · rcases hkeep _ hr with ⟨htt, rfl⟩ | hr
      · have := hpush htt
        cases h with
        | readFrame _ f => exact .inl (this _ (by simp))
        | readFail => exact .inr (this _ (by simp))
      · exact .inl hr
    · rcases hkeep _ hd with ⟨htt, rfl⟩ | hd
      · cases h
        rw [hk] at heq
        simp at heq
      · exact .inr hd
  · cases hk
  · cases hk
    have htt := tunnel_of_steers hs ha rfl
    cases h
    exact .inl (hpush htt.symm _ (by simp))

theorem Tidy.attaching_run (hI : Tidy A c) (ht : c.threads t = a :: rest) (h : CDoes c a c₁ push)
    {sids : List UInt64}
    (hk : .attaching k sids ∈ (c₁.setThread t (push ++ rest)).threads .tunnel) : sids.Nodup := by
  rcases mem_tunnel_run h ht hk with hold | ⟨rfl, hp⟩
  · exact hI.attaching k sids hold
  · cases h with
    | publish j =>
      simp only [List.mem_cons, CAct.attaching.injEq, reduceCtorEq, false_or, List.not_mem_nil,
        or_false] at hp
      rw [hp.2]
      exact hI.ids.filter _
    | attach j ss s hss =>
      simp only [List.mem_cons, CAct.attaching.injEq, reduceCtorEq, false_or, List.not_mem_nil,
        or_false] at hp
      rw [hp.2]
      exact (hI.attaching j ss (by simp [ht])).erase s
    | ping j nonce w' hw next hn => rcases hn with rfl | rfl <;> simp at hp
    | _ => simp at hp

/-- Nothing but its own steps is done on a connection before it is published. -/
theorem Tidy.known_run (hI : Tidy A c) (hs : Steered c) (ht : c.threads t = a :: rest)
    (h : CDoes c a c₁ push) {u : Client.Thread} {x : CAct}
    (hx : x ∈ (c₁.setThread t (push ++ rest)).threads u) (hk : x.conn = some k) :
    x = .publish k ∨ k < published (c₁.setThread t (push ++ rest)) := by
  have ha : a ∈ c.threads t := by simp [ht]
  have hpub := published_le hI hs ht h
  rcases mem_threads_run h ht hx with hold | ⟨rfl, hp⟩ | ⟨j, rfl, rfl, rfl⟩
  · exact (hI.known u x hold k hk).imp id (·.trans_le hpub)
  · rcases h.conn_push x hp k hk with hc | hc | ⟨id, rfl, -⟩
    · rcases hI.known u a ha k hc with rfl | hlt
      · exact .inr (lt_published hI hs ht h)
      · exact .inr (hlt.trans_le hpub)
    · exact .inr ((hI.conn k hc).trans_le hpub)
    · cases h with
      | hello => exact .inl (List.mem_singleton.mp hp)
      | helloFail =>
        simp only [List.mem_cons, List.not_mem_nil, or_false] at hp
        rcases hp with rfl | rfl <;> cases hk
  · rcases hI.known t _ ha k hk with h | h
    · cases h
    · exact .inr (h.trans_le hpub)

theorem Tidy.run {ch : CChoice} (hI : Tidy A c) (hs : Steered c) (hg : Greets c)
    (ht : c.threads t = a :: rest) (hex : cexec cfg c a ch = some (c₁, push))
    (hname : ∀ id, ch = .actorID id → id = A) : Tidy A (c₁.setThread t (push ++ rest)) := by
  have h := cexec_does hex
  have ha : a ∈ c.threads t := by simp [ht]
  have hpub := published_le hI hs ht h
  constructor
  case home =>
    intro u x hx
    rcases mem_threads_run h ht hx with hold | ⟨rfl, hp⟩ | ⟨k, -, rfl, rfl⟩
    · exact hI.home u x hold
    · exact home_push h (hI.home u a ha) x hp
    · exact .inr ⟨0, .inl rfl⟩
  case heads => exact hI.heads_run ht h
  case reads => exact fun _ _ _ => hI.reads_run hs ht h
  case newest =>
    exact fun k hk => hk.elim (hI.newest_run hs ht h (.inl rfl)) (hI.newest_run hs ht h (.inr rfl))
  case current => exact fun _ => hI.current_run hs ht h
  case ids =>
    show c₁.ids.Nodup
    rw [h.ids]
    exact hI.ids
  case attaching => exact fun _ _ => hI.attaching_run ht h
  case known => exact fun _ _ hx _ => hI.known_run hs ht h hx
  case conn =>
    intro k hk
    have hk : c₁.conn = some k := hk
    rcases h.conn_eq with heq | heq | ⟨j, rfl, heq⟩ <;> rw [heq] at hk
    · exact (hI.conn k hk).trans_le hpub
    · cases hk
    · cases hk
      exact lt_published hI hs ht h
  case greeting =>
    intro k hk
    show (c₁.links k).sent = [] ∨ (c₁.links k).sent = [helloFrame A]
    rcases sent_run hg hex hname k with heq | ⟨f, heq, hput, hf⟩ <;> rw [heq]
    · exact hI.greeting k (hpub.trans hk)
    · rcases hput.cases with ⟨rfl, id, rfl⟩ | ⟨hc, -⟩
      · rw [(hg.pending t k ha).2, hf rfl]
        exact .inr rfl
      · rcases hI.known t a ha k hc with rfl | hlt
        · cases hput
        · exact absurd (hlt.trans_le (hpub.trans hk)) (lt_irrefl k)
  case hello =>
    intro k f hf
    have hf : f ∈ (c₁.links k).sent := hf
    rcases sent_run hg hex hname k with heq | ⟨g, heq, -, hg⟩ <;> rw [heq] at hf
    · exact hI.hello k f hf
    · rcases List.mem_append.mp hf with hf | hf
      · exact hI.hello k f hf
      · rw [List.mem_singleton.mp hf]
        exact hg

theorem Tidy.accept {sid : UInt64} {target : Bytes} (hI : Tidy A c) (hs : sid ∉ c.ids) :
    Tidy A (c.accept cfg sid target) := by
  have htun : (c.accept cfg sid target).threads .tunnel = c.threads .tunnel := by
    rw [World.accept_threads, Function.update_of_ne (by simp)]
  have hpub : published (c.accept cfg sid target) = published c := by
    rw [published, published, htun]
    rfl
  constructor
  · intro t a ha
    rcases mem_threads_accept ha with ⟨rfl, rfl⟩ | ha
    · exact ⟨_, rfl⟩
    · exact hI.home t a ha
  · rw [htun]
    exact hI.heads
  · rw [htun]
    exact hI.reads
  · rw [htun]
    exact hI.newest
  · rw [htun]
    exact hI.current
  · exact List.nodup_cons.mpr ⟨hs, hI.ids⟩
  · rw [htun]
    exact hI.attaching
  · intro t a ha k hk
    rw [hpub]
    rcases mem_threads_accept ha with ⟨rfl, rfl⟩ | ha
    · cases hk
    · exact hI.known t a ha k hk
  · rw [hpub]
    exact hI.conn
  · rw [hpub]
    exact hI.greeting
  · exact hI.hello

end Step

end SubstratePoc.Deployment
