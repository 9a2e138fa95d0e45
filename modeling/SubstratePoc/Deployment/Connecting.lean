import SubstratePoc.Deployment.SidecarSteps

namespace SubstratePoc.Deployment
open Lib Tunnel Broker Sidecar Client

theorem eq_nil_of_unfold {l : List Pair.SAct} (h : l.flatMap unfold = []) : l = [] := by
  cases l with
  | nil => rfl
  | cons a l => cases a <;> cases h

/-! ## The broker's end of a new connection -/

section CatchUp
variable (cfg : Pair.Config) {core core' : Pair.Core} (tunnel proxy : List Pair.SAct)
  (ts : List (List Pair.BAct)) {k : ConnId}

theorem step_last {a : Pair.BAct} {c : Choice} (r push : List Pair.BAct)
    (h : Pair.bexec cfg core a c = some (core', push, [])) :
    Pair.step cfg ⟨core, tunnel, proxy, ts ++ [a :: r]⟩ (.broker ts.length c) =
      some ⟨core', tunnel, proxy, ts ++ [push ++ r]⟩ := by
  simp [Pair.step, h]

theorem closeConn_of_closed (h : (core.links k).closed = true) : core.closeConn k = core := by
  unfold Pair.Core.closeConn Pair.Core.setLink
  rw [← h]
  simp

/-- A frame loop can end before the sidecar has published the connection. -/
theorem catch_up {l : List Server.HAct} (key : Server.Key) (hidle : Idle k l)
    (hreg : (core.links k).registered = none)
    (hclosed : l = [] → (core.links k).closed = true) :
    ∃ ds m, run (Pair.step cfg) ⟨core, tunnel, proxy, ts ++ [[.readFrame k]]⟩ ds =
      some ⟨core, tunnel, proxy, ts ++ [m]⟩ ∧ m.flatMap unfoldAll = l.flatMap (brokerActs key) := by
  -- the read fails, nothing is detached, and the connection is closed
  have hfail : Pair.step cfg ⟨core, tunnel, proxy, ts ++ [[.readFrame k]]⟩
      (.broker ts.length (.fail 0 [])) = some ⟨core, tunnel, proxy, ts ++ [[.detachAll k]]⟩ :=
    step_last cfg tunnel proxy ts [] [.detachAll k] rfl
  have hdetach : Pair.step cfg ⟨core, tunnel, proxy, ts ++ [[.detachAll k]]⟩
      (.broker ts.length .ok) = some ⟨core, tunnel, proxy, ts ++ [[.closeConn k]]⟩ :=
    step_last cfg tunnel proxy ts [] [.closeConn k] (by simp [Pair.bexec, hreg])
  cases hidle with
  | waiting => exact ⟨[], _, rfl, rfl⟩
  | leaving =>
    exact ⟨[.broker ts.length (.fail 0 [])], [.detachAll k], by simp [run, hfail], rfl⟩
  | detaching | closing =>
    exact ⟨[.broker ts.length (.fail 0 []), .broker ts.length .ok], [.closeConn k],
      by simp [run, hfail, hdetach], rfl⟩
  | ended =>
    have hclose : Pair.step cfg ⟨core, tunnel, proxy, ts ++ [[.closeConn k]]⟩
        (.broker ts.length .ok) = some ⟨core, tunnel, proxy, ts ++ [[]]⟩ :=
      step_last cfg tunnel proxy ts [] []
        (by simp [Pair.bexec, closeConn_of_closed (hclosed rfl)])
    exact ⟨[.broker ts.length (.fail 0 []), .broker ts.length .ok, .broker ts.length .ok], [],
      by simp [run, hfail, hdetach, hclose], rfl⟩

end CatchUp

section Connect
variable {cfg : Config} {sid : UInt64} {target : Bytes} {w : World} {p : Pair.System} {a : CAct}
  {rest : List CAct} {k : ConnId}

/-- Connection `k` is there, and closed already if `closed` says so. -/
def arrived (core : Pair.Core) (k : ConnId) (closed : Bool) : Pair.Core :=
  { core with
    conn := some k
    conns := k + 1
    links := Function.update core.links k ⟨[], [], closed, none⟩ }

theorem connect_run (pcfg : Pair.Config) (hp : p.tunnel = [.connect]) (hk : p.core.conns = k)
    (closed : Bool) : ∃ ds, run (Pair.step pcfg) p ds = some
      ⟨arrived p.core k closed, (if p.core.listed then [.attachFrame k] else []) ++ [.readFrame k],
        p.proxy, p.threads ++ [[.readFrame k]]⟩ := by
  have hconnect : Pair.step pcfg p (.tunnel .ok) = some ⟨arrived p.core k false,
      (if p.core.listed then [.attachFrame k] else []) ++ [.readFrame k], p.proxy,
      p.threads ++ [[.readFrame k]]⟩ := by
    simp [Pair.step, hp, Pair.sexec, hk, arrived, Pair.Core.setLink, Pair.newLink]
  cases closed with
  | false => exact ⟨[.tunnel .ok], by simp [run, hconnect]⟩
  | true =>
    refine ⟨[.tunnel .ok, .cut k 0 0], ?_⟩
    rw [run, hconnect]
    simp [run, Pair.step, arrived, Pair.Core.setLink]

theorem published_eq (ht : w.sidecar.threads .tunnel = a :: rest)
    (ha : a = .hello k ∨ a = .publish k) : published w.sidecar = k := by
  rw [published, ht]
  rcases ha with rfl | rfl <;> rfl

theorem far_unused (hI : Sound cfg w) (hk : published w.sidecar ≤ k) (key : Server.Key) :
    ∃ l, Idle k l ∧ (far key w.broker).threads (.loop k) = l.flatMap (brokerActs key) ∧
      (l = [] → w.closed k = true) := by
  have hU := hI.unused k hk
  show ∃ l, _ ∧ loops key w.broker (.loop k) = _ ∧ _
  cases hc : w.broker.conns k with
  | none => exact ⟨_, .waiting, by simp [loops, hc, brokerActs], by simp⟩
  | some tc =>
    refine ⟨_, hU.loop, by simp [loops, hc], fun hl => ?_⟩
    simp [World.closed, hc, hU.ended tc hc hl]

theorem startDial_of_idle {l : List Server.HAct} (key : Server.Key) (h : Idle k l) (o : ℕ) :
    .startDial o ∉ l.flatMap (brokerActs key) := by
  cases h <;> simp [brokerActs]

theorem arrives (hI : Sound cfg w) (hM : Matches cfg sid target w p)
    (ht : w.sidecar.threads .tunnel = a :: rest) (ha : a = .hello k ∨ a = .publish k) :
    ∃ ds ts order, run (Pair.step (cfg.pair sid target)) p ds = some
        ⟨arrived p.core k (w.closed k),
          (if p.core.listed then [.attachFrame k] else []) ++ [.readFrame k], p.proxy, ts⟩ ∧
      FarMatches (cfg.key sid) (far (cfg.key sid) w.broker) (arrived p.core k (w.closed k)) ts
        order := by
  have hk : p.core.conns = k := hM.conns.trans (published_eq ht ha)
  obtain rfl : rest = [] := rest_eq_nil hI.steered ht (by rcases ha with rfl | rfl <;> rfl)
  have htun : p.tunnel = [.connect] := by
    have hside : p.tunnel.flatMap unfold = [.connect] := by
      refine (congrArg Side.tunnel hM.side).trans ?_
      rcases ha with rfl | rfl <;> simp [side, ht, sidecarActs]
    obtain ⟨l, hl, hnil⟩ := unfold_head hside
    rw [hl, eq_nil_of_unfold hnil]
  obtain ⟨order, hF⟩ := hM.far
  obtain ⟨l, hidle, hloop, hclosed⟩ := far_unused hI (published_eq ht ha).le (cfg.key sid)
  -- the one-session model connects, and then the broker's end goes as far as it has come
  obtain ⟨ds₁, h₁⟩ := connect_run (cfg.pair sid target) htun hk (w.closed k)
  have hlink : (arrived p.core k (w.closed k)).links k = ⟨[], [], w.closed k, none⟩ := by
    simp [arrived]
  obtain ⟨ds₂, m, h₂, hm⟩ := catch_up (cfg.pair sid target)
    ((if p.core.listed then [.attachFrame k] else []) ++ [.readFrame k]) p.proxy p.threads
    (cfg.key sid) hidle (congrArg Pair.Link.registered hlink) fun hl => by rw [hlink, hclosed hl]
  refine ⟨ds₁ ++ ds₂, p.threads ++ [m], order ++ [.loop k], by rw [run_append, h₁]; exact h₂,
    hF.spawn ?_ (fun _ _ _ => rfl) (hloop.trans hm.symm) ⟨hF.created, hF.sessions, hF.objs⟩ rfl
      (fun _ _ => le_rfl) ?_ ?_ (by simp) (by simp)⟩
  · rw [hF.loops, hk]
    exact lt_irrefl k
  · intro j
    show j < k + 1 ↔ j < p.core.conns ∨ _
    rw [hk, Nat.lt_succ_iff_lt_or_eq, Server.Thread.loop.injEq, eq_comm (a := j)]
  · rw [hloop]
    exact startDial_of_idle _ hidle

/-- A connection that has not been published has no frame of the session. -/
theorem line_new (hI : Sound cfg w) (ht : w.sidecar.threads .tunnel = a :: rest)
    (ha : a = .hello k ∨ a = .publish k) : line cfg sid w k = ⟨[], [], w.closed k, []⟩ := by
  have hpub := (published_eq ht ha).le
  obtain rfl : rest = [] := rest_eq_nil hI.steered ht (by rcases ha with rfl | rfl <;> rfl)
  have hseen : (w.sidecar.threads .tunnel).flatMap (unseen k) = [] := by
    rw [ht]
    rcases ha with rfl | rfl <;> rfl
  have hup : (w.up k).filterMap (Frame.own sid) = [] := by
    cases hc : w.broker.conns k with
    | none =>
      rw [List.filterMap_eq_nil_iff]
      intro f hf
      have hmem := (hI.first k hc).subset hf
      rcases hI.tidy.greeting k hpub with h | h <;> rw [h] at hmem
      · cases hmem
      · rw [List.mem_singleton.mp hmem]
        exact Frame.own_of_msg rfl sid
    | some tc =>
      rw [hI.early k tc hpub hc]
      rfl
  have hreg : registered (cfg.key sid) w.broker k = [] := by
    unfold registered
    cases hc : w.broker.conns k with
    | none => rfl
    | some tc => simp [((hI.unused k hpub).conn tc hc).1]
  unfold line
  rw [hseen, hI.quiet k hpub, hup, hreg]
  rfl

theorem lines_arrived (hI : Sound cfg w) (hM : Matches cfg sid target w p)
    (ht : w.sidecar.threads .tunnel = a :: rest) (ha : a = .hello k ∨ a = .publish k) (j : ConnId)
    (hj : j < k + 1) : lineOf ((arrived p.core k (w.closed k)).links j) = line cfg sid w j := by
  show lineOf (Function.update p.core.links k ⟨[], [], w.closed k, none⟩ j) = _
  obtain ⟨rfl, heq⟩ | ⟨hne, heq⟩ :=
    update_cases p.core.links k ⟨[], [], w.closed k, none⟩ j <;> rw [heq]
  · exact (line_new hI ht ha).symm
  · have hk : p.core.conns = k := hM.conns.trans (published_eq ht ha)
    exact hM.lines j (hk ▸ Nat.lt_of_le_of_ne (Nat.le_of_lt_succ hj) hne)

theorem Follows.publish (hI : Sound cfg w) (hM : Matches cfg sid target w p)
    (ht : w.sidecar.threads .tunnel = .publish k :: rest) :
    Follows cfg sid target p (w.withSidecar
      (({ w.sidecar with conn := some k } : Client.World).setThread .tunnel
        ([.setLastPong, .attaching k w.sidecar.live, .startPing k, .readFrame k] ++ rest))
      w.down) := by
  have h := CDoes.publish (w := w.sidecar) k
  obtain ⟨ds, ts, order, hrun, hF⟩ := arrives hI hM ht (.inr rfl)
  obtain rfl : rest = [] := rest_eq_nil hI.steered ht rfl
  have hconns : k + 1 = w.sidecar.conns := hI.tidy.newest k (.inr (by simp [ht]))
  have hlive : sid ∈ w.sidecar.live ↔ p.core.listed = true := by
    rw [hM.listed, Client.World.live, List.mem_filter]
    exact ⟨And.right, fun hl => ⟨hI.opened.listed sid hl, hl⟩⟩
  refine ⟨ds, _, hrun, ?_, fun j hj => ?_, order, hF⟩
  · refine Eq.trans ?_ (side_tunnel cfg target h rfl).symm
    rw [(published_run hI.tidy hI.steered ht h).1 k rfl, published_eq ht (.inr rfl), ← hM.side]
    by_cases hl : p.core.listed = true <;>
      simp [sideOf, arrived, hlive, sidecarActs, unfold, hl]
  · rw [lines_arrived hI hM ht (.inr rfl) j hj]
    exact (line_keep hI h ht (hconns ▸ hj) (by simp [CAct.Puts]) (by simp) (by simp [unseen])).symm

/-- HELLO has failed: to the session, the connection has failed before its first frame. -/
theorem Follows.helloFail (hI : Sound cfg w) (hM : Matches cfg sid target w p)
    (ht : w.sidecar.threads .tunnel = .hello k :: rest) :
    Follows cfg sid target p (w.withSidecar
      (w.sidecar.setThread .tunnel ([.closeConn k, .dial] ++ rest)) w.down) := by
  have h := CDoes.helloFail (w := w.sidecar) k
  obtain ⟨ds, ts, order, hrun, hF⟩ := arrives hI hM ht (.inl rfl)
  obtain rfl : rest = [] := rest_eq_nil hI.steered ht rfl
  have hconns : k + 1 = w.sidecar.conns := hI.tidy.newest k (.inl (by simp [ht]))
  have hnone : w.sidecar.conn = none := by
    cases hc : w.sidecar.conn with
    | none => rfl
    | some j =>
      have := hI.tidy.current j hc
      simp [ht] at this
  have hfail : ∃ es, run (Pair.step (cfg.pair sid target))
      ⟨arrived p.core k (w.closed k),
        (if p.core.listed then [.attachFrame k] else []) ++ [.readFrame k], p.proxy, ts⟩ es =
      some ⟨{ arrived p.core k (w.closed k) with conn := none }, [.closeConn k, .connect], p.proxy,
        ts⟩ := by
    -- a session in the map tries its ATTACH first
    cases p.core.listed with
    | true =>
      exact ⟨[.tunnel .ok, .tunnel (.fail 0 []), .tunnel (.fail 0 []), .tunnel .ok], by
        simp [run, Pair.step, Pair.sexec, arrived]⟩
    | false =>
      exact ⟨[.tunnel (.fail 0 []), .tunnel .ok], by simp [run, Pair.step, Pair.sexec, arrived]⟩
  obtain ⟨es, hes⟩ := hfail
  refine ⟨ds ++ es, _, by rw [run_append, hrun]; exact hes, ?_, fun j hj => ?_, order, ?_⟩
  · refine Eq.trans ?_ (side_tunnel cfg target h rfl).symm
    rw [(published_run hI.tidy hI.steered ht h).2.1 k rfl rfl, published_eq ht (.inl rfl), ← hM.side,
      hnone]
    simp [sideOf, arrived, sidecarActs, unfold]
  · refine (lines_arrived hI hM ht (.inl rfl) j hj).trans ?_
    refine (line_keep hI h ht (hconns ▸ hj) ?_ (by simp) (by simp [unseen])).symm
    rintro f ⟨-, id, rfl⟩
    exact Frame.own_of_msg rfl sid
  · exact hF.congr (fun _ _ => rfl) ⟨hF.created, hF.sessions, hF.objs⟩ rfl le_rfl fun _ _ => le_rfl

end Connect

end SubstratePoc.Deployment
