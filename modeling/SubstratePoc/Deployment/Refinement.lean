import SubstratePoc.Deployment.SessionActs
import SubstratePoc.Deployment.SidecarRun
import SubstratePoc.Pair.Delivery

namespace SubstratePoc.Deployment
open Lib Tunnel Broker Sidecar

/-! ## The broker -/

section Broker
open Server
variable {cfg : Config} {sid : UInt64} {target : Bytes} {w : World} {p : Pair.System}
  {s₁ : Server.World} {up : ConnId → List Frame} {a : HAct} {push rest : List HAct}
  {t : Server.Thread} {k : ConnId}

theorem loops_setThread {key : Server.Key} {s : Server.World} {u : Server.Thread} (h : u ≠ t)
    (l : List HAct) : loops key (s.setThread t l) u = loops key s u := by
  cases u <;> simp [loops, Server.World.setThread, Function.update_of_ne h]

theorem Follows.brokerIdle (hI : Sound cfg w) (hM : Matches cfg sid target w p)
    (ht : w.broker.threads (.loop k) = a :: rest) (hk : published w.sidecar ≤ k)
    (h : HDoes cfg.broker w.broker a s₁ push) :
    Follows cfg sid target p (w.withBroker (s₁.setThread (.loop k) (push ++ rest)) w.up) := by
  -- the loop has no frame to read, and can only end
  have hsame : s₁.made = w.broker.made ∧ s₁.sessions = w.broker.sessions ∧
      s₁.objs = w.broker.objs ∧ ∀ j < published w.sidecar, s₁.conns j = w.broker.conns j := by
    rcases (hI.unused k hk).loop.mem (show a ∈ _ by rw [ht]; exact List.mem_cons_self) with
      rfl | rfl | rfl | rfl
    · cases h <;> exact ⟨rfl, rfl, rfl, fun _ _ => rfl⟩
    · cases h
      exact ⟨rfl, rfl, rfl, fun j hj => Function.update_of_ne (hj.trans_le hk).ne ..⟩
    · cases h <;> exact ⟨rfl, rfl, rfl, fun _ _ => rfl⟩
    · cases h
      exact ⟨rfl, rfl, rfl, fun j hj => Function.update_of_ne (hj.trans_le hk).ne ..⟩
  obtain ⟨hmade, hsessions, hobjs, hconns⟩ := hsame
  have hdial : ∀ q, a ≠ .startDial q := by
    rintro q rfl
    have := (hI.unused k hk).loop.mem (show HAct.startDial q ∈ _ by rw [ht]; exact List.mem_cons_self)
    simp at this
  exact Follows.brokerQuiet hI hM ht h (.inl ⟨k, rfl, hk⟩) (fun q hq => absurd hq (hdial q))
    (by rw [hmade]) (by rw [hsessions]) (fun o => by rw [hobjs]) fun j hj => line_same rfl (hconns j hj)

theorem Follows.brokerRun {ch : HChoice} (hI : Sound cfg w) (hM : Matches cfg sid target w p)
    (ht : w.broker.threads t = a :: rest)
    (hsmall : ∀ q b c r, a = .act q b → q.key = cfg.key sid → ch = .io c →
      exec (w.broker.objs q).s b c = some r → ∀ k m, .frame k m ∈ r.eff → m.small = true)
    (hex : hexec cfg.broker w.broker a ch = some (s₁, push)) (hch : ∀ f, ch ≠ .frame f) :
    Follows cfg sid target p (w.withBroker (s₁.setThread t (push ++ rest)) w.up) := by
  have h := hexec_does hex
  by_cases hidle : ∃ k, t = .loop k ∧ published w.sidecar ≤ k
  · obtain ⟨k, rfl, hk⟩ := hidle
    exact Follows.brokerIdle hI hM ht hk h
  have hpub : ∀ k, t = .loop k → k < published w.sidecar := by
    intro k hk
    by_contra hle
    exact hidle ⟨k, hk, Nat.not_lt.mp hle⟩
  cases a with
  | readFrame k =>
    cases h with
    | readFrame _ f =>
      simp only [hexec] at hex
      split at hex <;> cases hex
      exact absurd rfl (hch f)
    | readFail => exact Follows.brokerReadFail hI hM ht hpub
  | handleFrame k f =>
    cases h with
    | handleFrame _ _ tc htc => exact Follows.brokerHandle hI hM ht hpub htc
  | openSession k s' tgt => exact Follows.brokerOpen hI hM ht hpub hex
  | attachSession k s' offset tgt => exact Follows.brokerAttach hI hM ht hpub hex
  | reattach k s' offset => exact Follows.brokerReattach hI hM ht hpub hex
  | startDial q =>
    cases h
    by_cases hq : q.key = cfg.key sid
    · exact Follows.brokerDial hI hM ht hpub hq
    · refine Follows.brokerQuiet hI hM ht (.startDial q) (.inr ?_) ?_ rfl rfl (fun _ => rfl)
        fun j _ => line_same rfl rfl
      · simp [brokerActs, hq]
      · rintro q' hq'
        cases hq'
        exact hq
  | act q b =>
    cases ch with
    | io c =>
      simp only [hexec, Option.map_eq_some_iff] at hex
      obtain ⟨r, hr, heq⟩ := hex
      cases heq
      by_cases hq : q.key = cfg.key sid
      · exact Follows.brokerSess hI hM ht hpub hq hr (hsmall q b c r rfl hq rfl hr)
      · exact Follows.brokerOther hI hM ht hq hr
    | frame f => cases hex
    | pick i => cases hex
  | reply k f => exact Follows.brokerReply hI hM ht hpub hex
  | detachAll k =>
    cases h with
    | detachAll _ tc htc => exact Follows.brokerDetachAll hI hM ht hpub htc
  | detaching k ps => exact Follows.brokerDetaching hI hM ht h
  | closeConn k =>
    cases h with
    | closeConn _ tc htc => exact Follows.brokerClose hI hM ht hpub htc

theorem Follows.brokerAccept {f : Frame} {fs : List Frame} (hI : Sound cfg w)
    (hM : Matches cfg sid target w p) (hk : w.broker.conns k = none) (hf : w.up k = f :: fs) :
    Follows cfg sid target p (w.withBroker
      ((w.broker.setConn k ⟨f.actorID, [], [], false⟩).setThread (.loop k) [.readFrame k])
      (Function.update w.up k fs)) := by
  have hown : f.own sid = none := by
    rw [hI.first_eq hk hf]
    exact Frame.own_of_msg rfl sid
  refine Follows.brokerSilent hM (fun u _ => ?_) rfl rfl (fun _ => rfl) fun j _ => ?_
  · by_cases hu : u = .loop k
    · subst hu
      simp [loops, hk, Server.World.setConn, Server.World.setThread, brokerActs]
    · rw [loops_setThread hu]
      cases u with
      | loop j =>
        have hj : j ≠ k := fun hj => hu (by rw [hj])
        simp [loops, Server.World.setConn, Function.update_of_ne hj]
      | _ => rfl
  · by_cases hj : j = k
    · subst hj
      rw [line_withBroker]
      simp [line, hf, hown, sent, registered, hk, World.closed, World.carried,
        Server.World.setConn, Server.World.setThread]
    · refine line_same ?_ (Function.update_of_ne hj ..)
      rw [Function.update_of_ne hj]

theorem Follows.brokerFireOther {q : Ptr} (hI : Sound cfg w) (hM : Matches cfg sid target w p)
    (hq : q.key ≠ cfg.key sid) : Follows cfg sid target p (w.withBroker
      ((w.broker.setObj q (w.broker.objs q).fire).setThread (.timer q (w.broker.objs q).fired)
        [.act q .watchdog]) w.up) := by
  refine Follows.brokerSilent hM (fun u _ => ?_) rfl rfl (fun o => ?_) fun j _ => line_same rfl rfl
  · by_cases hu : u = .timer q (w.broker.objs q).fired
    · subst hu
      simp [loops, Server.World.setThread, brokerActs, hq, hI.spawned.unfired q _ (.inr le_rfl)]
    · rw [loops_setThread hu]
      cases u <;> rfl
  · refine Function.update_of_ne ?_ ..
    rintro rfl
    exact hq rfl

theorem Follows.brokerFire {o : ℕ} (hM : Matches cfg sid target w p)
    (ho : o < w.broker.made (cfg.key sid))
    (hw : (w.broker.objs ⟨cfg.key sid, o⟩).s.watchdog = true) :
    Follows cfg sid target p (w.withBroker
      ((w.broker.setObj ⟨cfg.key sid, o⟩ (w.broker.objs ⟨cfg.key sid, o⟩).fire).setThread
        (.timer ⟨cfg.key sid, o⟩ (w.broker.objs ⟨cfg.key sid, o⟩).fired)
        [.act ⟨cfg.key sid, o⟩ .watchdog]) w.up) := by
  obtain ⟨order, hF⟩ := hM.far
  have hcreated : p.core.created = w.broker.made (cfg.key sid) := hF.created
  have hobj := hF.objs o ho
  simp only [far, Prod.mk.injEq] at hobj
  have hstep : Pair.step (cfg.pair sid target) p (.fire o) = some ⟨{ p.core with
      objs := Function.update p.core.objs o
        { p.core.objs o with s := { (p.core.objs o).s with watchdog := false } } },
      p.tunnel, p.proxy, p.threads ++ [[.act o .watchdog]]⟩ := by
    simp [Pair.step, hcreated, ho, hobj.1, hw]
  refine Follows.step hstep (hM.of_broker rfl (hM.lines_of_conns rfl)
    ⟨order ++ [.timer ⟨cfg.key sid, o⟩ (w.broker.objs ⟨cfg.key sid, o⟩).fired],
      hF.spawn ?_ (fun u hu _ => ?_) ?_ ⟨hF.created, hF.sessions, fun i hi => ?_⟩ rfl
        (fun i _ => ?_) (by simp) ?_ (by simp) ?_⟩)
  · -- no callback has had this number
    intro hmem
    exact lt_irrefl _ (hF.timers _ _ hmem).2.2
  · refine (loops_setThread hu _).trans ?_
    cases u <;> rfl
  · simp [far, loops, Server.World.setThread, brokerActs, unfoldAll]
  · by_cases hio : i = o
    · subst hio
      simp [far, Server.World.setObj, Server.World.setThread, Obj.fire, hobj]
    · have hne : (⟨cfg.key sid, i⟩ : Ptr) ≠ ⟨cfg.key sid, o⟩ := by simpa using hio
      simp only [far, Server.World.setObj, Server.World.setThread, Function.update_of_ne hne,
        Function.update_of_ne hio]
      exact hF.objs i hi
  · by_cases hio : i = o
    · subst hio
      simp [far, Server.World.setObj, Server.World.setThread, Obj.fire]
    · have hne : (⟨cfg.key sid, i⟩ : Ptr) ≠ ⟨cfg.key sid, o⟩ := by simpa using hio
      simp only [far, Server.World.setObj, Server.World.setThread, Function.update_of_ne hne]
      exact le_rfl
  · intro i hi
    simp [far, loops, Server.World.setThread, brokerActs] at hi
  · rintro q n hq
    cases hq
    refine ⟨rfl, ho, ?_⟩
    simp [far, Server.World.setObj, Server.World.setThread, Obj.fire]

end Broker

/-! ## The deployment -/

/-- What a session needs of a step: it is accepted for its target, and the offsets in its frames
are 64-bit numbers. -/
def admits (cfg : Config) (sid : UInt64) (target : Bytes) (w : World) : Event → Bool
  | .sidecar (.accept s t) => s ≠ sid || t = target
  | .sidecar (.run t _) => match w.sidecar.threads t with
    | .sess s (.write _ m) :: _ => s ≠ sid || m.small
    | _ => true
  | .broker (.run t (.io c)) => match w.broker.threads t with
    | .act q a :: _ => q.key ≠ cfg.key sid ||
      ((exec (w.broker.objs q).s a c).elim [] (·.eff)).all fun e => match e with
        | .frame _ m => m.small
        | _ => true
    | _ => true
  | _ => true

section Step
variable {cfg : Config} {sid : UInt64} {target : Bytes} {w w' : World} {p : Pair.System}

theorem Follows.sidecar {e : Client.Event} (hI : Sound cfg w) (hM : Matches cfg sid target w p)
    (hadm : admits cfg sid target w (.sidecar e) = true)
    (h : Deployment.step cfg w (.sidecar e) = some w') : Follows cfg sid target p w' := by
  obtain ⟨down, c, hd, hc, rfl⟩ := step_sidecar h
  cases e with
  | accept s tgt =>
    obtain rfl : w.down = down := Option.some.inj hd
    simp only [Client.step] at hc
    split_ifs at hc with hs
    cases hc
    exact Follows.accept hI hM hs fun hsid => by simpa [admits, hsid] using hadm
  | run t ch =>
    obtain ⟨a, rest, ht, push, c₁, hex, rfl⟩ := client_run hc
    rcases received_cases hd with ⟨t', f, k, l, fs, he, ht', hf, rfl⟩ | ⟨hne, rfl⟩
    · cases he
      cases ht.symm.trans ht'
      cases hex
      exact Follows.readFrame hI hM ht hf
    · refine Follows.sidecarAct hI hM ht ?_ hex fun f hf => hne t f (by rw [hf])
      rintro k m rfl
      simpa [admits, ht] using hadm

theorem Follows.broker {e : Server.Event} (hI : Sound cfg w) (hM : Matches cfg sid target w p)
    (hadm : admits cfg sid target w (.broker e) = true)
    (h : Deployment.step cfg w (.broker e) = some w') : Follows cfg sid target p w' := by
  obtain ⟨up, s, hu, hs, rfl⟩ := step_broker h
  cases e with
  | accept k f =>
    obtain ⟨fs, hf, rfl⟩ := popped_eq hu
    simp only [Server.step] at hs
    split_ifs at hs with hk hhello
    · cases hs
      exact Follows.brokerAccept hI hM (by simpa using hk) hf
    · have hk : w.broker.conns k = none := by simpa using hk
      rw [hI.first_eq hk hf] at hhello
      simp [Server.isHello, Client.helloFrame, cfg.named] at hhello
  | run t ch =>
    obtain ⟨a, rest, ht, push, s₁, hex, rfl⟩ := step_run hs
    rcases taken_cases hu with ⟨k, f, fs, he, -⟩ | ⟨t', f, k, l, fs, he, ht', hf, rfl⟩ |
      ⟨-, hne, rfl⟩
    · cases he
    · cases he
      cases ht.symm.trans ht'
      cases hex
      obtain ⟨rfl, tc, htc⟩ := hI.loop_of_read ht
      refine Follows.brokerRead hI hM ht ?_ hf
      by_contra hle
      rw [hI.early k tc (Nat.not_lt.mp hle) htc] at hf
      cases hf
    · refine Follows.brokerRun hI hM ht ?_ hex fun f hf => hne t f (by rw [hf])
      rintro q b c r rfl hq rfl hr k m hm
      simp only [admits, ht, hq, hr, ne_eq, not_true, decide_false, Bool.false_or, Option.elim_some,
        List.all_eq_true] at hadm
      exact hadm _ hm
  | fire q =>
    obtain rfl : w.up = up := Option.some.inj hu
    simp only [Server.step] at hs
    split_ifs at hs with hq
    cases hs
    by_cases hkey : q.key = cfg.key sid
    · obtain ⟨key, o⟩ := q
      subst hkey
      exact Follows.brokerFire hM hq.1 hq.2
    · exact Follows.brokerFireOther hI hM hkey
  | resumer A c =>
    obtain rfl : w.up = up := Option.some.inj hu
    cases Server.step_steps hs
    exact Follows.brokerSilent hM (fun u _ => by cases u <;> rfl) rfl rfl (fun _ => rfl)
      fun j _ => line_same rfl rfl
  | exit A =>
    obtain rfl : w.up = up := Option.some.inj hu
    cases Server.step_steps hs
    exact Follows.brokerSilent hM (fun u _ => by cases u <;> rfl) rfl rfl (fun _ => rfl)
      fun j _ => line_same rfl rfl

theorem filterMap_own_of_prefix (sid : UInt64) {l l' : List Frame} (h : l <+: l') :
    ∃ n, l.filterMap (Frame.own sid) = (l'.filterMap (Frame.own sid)).take n :=
  ⟨_, List.prefix_iff_eq_take.mp (h.filterMap _)⟩

theorem Follows.cutEvent {k : ConnId} {m n : ℕ} (hM : Matches cfg sid target w p)
    (h : Deployment.step cfg w (.cut k m n) = some w') : Follows cfg sid target p w' := by
  simp only [Deployment.step] at h
  split_ifs at h
  cases h
  -- what can still be read has a prefix of the session's frames
  obtain ⟨m', hup⟩ := filterMap_own_of_prefix sid (List.take_prefix m (w.up k))
  obtain ⟨n', hdown⟩ := filterMap_own_of_prefix sid ((List.prefix_append_right_inj
    ((w.sidecar.threads .tunnel).flatMap (unseen k))).mpr (List.take_prefix n (w.down k)))
  refine Follows.cut k m' n' hM rfl rfl (fun _ => ?_) fun j _ hj => ?_
  · simp only [line, Function.update_self, World.closed, Bool.true_or, Line.mk.injEq, and_true]
    exact ⟨hup, hdown⟩
  · simp [line, World.closed, hj]

/-- Each step of the deployment is a run of the session's model. -/
theorem Follows.of_step {e : Event} (hI : Sound cfg w) (hM : Matches cfg sid target w p)
    (hadm : admits cfg sid target w e = true) (h : Deployment.step cfg w e = some w') :
    Follows cfg sid target p w' := by
  cases e with
  | sidecar e => exact Follows.sidecar hI hM hadm h
  | broker e => exact Follows.broker hI hM hadm h
  | cut k m n => exact Follows.cutEvent hM h

theorem follows_run {es : List Event} (hI : Sound cfg w) (hM : Matches cfg sid target w p)
    (hes : Along (step cfg) (fun w e => admits cfg sid target w e = true) w es)
    (hrun : run (step cfg) w es = some w') : Follows cfg sid target p w' := by
  have hstep : ∀ w e w' p, Sound cfg w ∧ Matches cfg sid target w p →
      admits cfg sid target w e = true → step cfg w e = some w' →
      ∃ ds p', run (Pair.step (cfg.pair sid target)) p ds = some p' ∧
        Sound cfg w' ∧ Matches cfg sid target w' p' := by
    rintro w e w' p ⟨hI, hM⟩ hadm h
    obtain ⟨ds, p', hds, hM'⟩ := Follows.of_step hI hM hadm h
    exact ⟨ds, p', hds, hI.step h, hM'⟩
  obtain ⟨ds, p', hds, -, hM'⟩ := run_simulates hstep ⟨hI, hM⟩ hes hrun
  exact ⟨ds, p', hds, hM'⟩

end Step

/-- To each of its sessions the deployment is the one-session model: a run of that model ends in
what the session has of the sidecar, the connections and the broker. -/
theorem deployment_refines_pair {cfg : Config} {sid : UInt64} {target : Bytes} {es : List Event}
    {w : World}
    (hes : Along (step cfg) (fun w e => admits cfg sid target w e = true) (start cfg) es)
    (hrun : run (step cfg) (start cfg) es = some w) :
    ∃ ds p, run (Pair.step (cfg.pair sid target)) (Pair.start (cfg.pair sid target)) ds = some p ∧
      Matches cfg sid target w p :=
  follows_run (Sound.start cfg) (matches_start cfg sid target) hes hrun

def demo : Config := ⟨[97], by decide, Client.demo, Server.demo⟩

def served : List Event :=
  -- of two sessions one is served a byte, and its ACK is lost with the connection
  List.map .sidecar (Client.connected [] ++ Client.opened 1 3 ++ Client.opened 7 3) ++
  List.map .broker (Server.openOn 0 [97] [120] ++
    [.run (.reader ⟨⟨[97], 1⟩, 0⟩) (.io (.read [5] none)),
      .run (.reader ⟨⟨[97], 1⟩, 0⟩) (.io .ok)]) ++
  List.map .sidecar (.run .tunnel (.frame (Msg.data 1 0 [5]).frame) ::
    List.replicate 6 (.run .tunnel (.io .ok))) ++ [.cut 0 0 0]

theorem deployment_refines_pair_served : ∃ w, run (step demo) (start demo) served = some w ∧
    (w.sidecar.objs 1).agent = [5] ∧ w.sidecar.ids = [7, 1] ∧
    ∃ ds p, run (Pair.step (demo.pair 1 [120])) (Pair.start (demo.pair 1 [120])) ds = some p ∧
      Matches demo 1 [120] w p := by
  have hrun := (rfl : run (step demo) (start demo) served = some _)
  exact ⟨_, hrun, by decide, by decide, deployment_refines_pair (by decide) hrun⟩

end SubstratePoc.Deployment
