import SubstratePoc.Pair.Lossless

namespace SubstratePoc.Protocol
open Lib Tunnel Broker Sidecar
open Pair (Config)

/-- A frame of the broker that trims the sidecar's buffer to `n`. -/
def Trims (n : ℕ) : Msg → Prop
  | .ack _ offset | .attachOK _ offset => offset = n
  | _ => False

/-- An ACK of the sidecar for `n` bytes. -/
def Acks (n : ℕ) : Msg → Prop
  | .ack _ offset => offset = n
  | _ => False

/-- A buffer has been trimmed to `n`, or a frame in flight will do it. -/
def Told (tells : ℕ → Msg → Prop) (base n : ℕ) (ms : List Msg) : Prop :=
  base = n ∨ ∃ m ∈ ms, tells n m

theorem Told.mono {tells : ℕ → Msg → Prop} {base n : ℕ} {ms ms' : List Msg} (h : Told tells base n ms)
    (hms : ∀ m ∈ ms, tells n m → m ∈ ms') : Told tells base n ms' :=
  h.imp_right fun ⟨m, hm, hn⟩ => ⟨m, hms m hm hn, hn⟩

theorem Told.trim {tells : ℕ → Msg → Prop} {n offset : ℕ} {m : Msg} {ms : List Msg}
    {b : ReplayBuffer} (h : Told tells b.base n (m :: ms)) (hm : ∀ n, tells n m → offset = n)
    (hb : b.base ≤ n) (hle : offset ≤ n) (hend : n ≤ b.endOffset) :
    Told tells (b.trimTo offset).base n ms := by
  rw [Told, ReplayBuffer.base_trimTo]
  rcases h with h | ⟨m', hm', hn⟩
  · left
    omega
  · rcases List.mem_cons.mp hm' with rfl | hm'
    · left
      have := hm n hn
      omega
    · exact .inr ⟨m', hm', hn⟩

/-- What the sidecar has still to be told of the bytes that the broker has written, once the broker
has handled its ATTACH or OPEN. -/
def UpTold (cfg : Config) (w : Net) : Prop :=
  w.handled = true → Told Trims (w.client cfg).upBuf.base (w.session cfg).upstreamWritten w.down

/-- What the broker has still to be told of the bytes that the agent has got. -/
def DownTold (cfg : Config) (w : Net) : Prop :=
  Told Acks (w.session cfg).downBuf.base (w.client cfg).downDelivered w.up

section Send
variable {cfg : Config} {w : Net} {ms : List Msg}

@[simp] theorem send_client : (w.send ms).client cfg = w.client cfg := by
  unfold Net.send
  split_ifs <;> rfl

@[simp] theorem send_session : (w.send ms).session cfg = w.session cfg := by
  unfold Net.send
  split_ifs <;> rfl

@[simp] theorem send_down : (w.send ms).down = w.down := by
  unfold Net.send
  split_ifs <;> rfl

@[simp] theorem send_handled : (w.send ms).handled = w.handled := by
  unfold Net.send
  split_ifs <;> rfl

@[simp] theorem send_nil : w.send [] = w := by
  unfold Net.send
  split_ifs <;> simp

theorem mem_send {m : Msg} (h : m ∈ w.up) : m ∈ (w.send ms).up := by
  unfold Net.send
  split_ifs
  · exact List.mem_append_left _ h
  · exact h

theorem mem_send_self {m : Msg} (hc : w.conn.isSome = true) (hm : m ∈ ms) (hs : m.Sendable) :
    m ∈ (w.send ms).up := by
  rw [Net.send, if_pos hc]
  exact List.mem_append_right _ (List.mem_filter.mpr ⟨hm, by simpa using hs⟩)

end Send

section Steps
variable {cfg : Config} {w w' : Net} {cs cs' : ClientSession} {s s' : Session} {ms : List Msg}
  {m : Msg}

theorem client_of_some (cfg : Config) (h : w.cs = some cs) : w.client cfg = cs := by
  rw [Net.client, h, Option.getD_some]

theorem session_of_some (cfg : Config) (h : w.broker = some s) : w.session cfg = s := by
  rw [Net.session, h, Option.getD_some]

theorem UpTold.sidecar (h : UpTold cfg w) (hb : cs'.upBuf.base = (w.client cfg).upBuf.base)
    (attach : Bool) (ms : List Msg) : UpTold cfg ({ w with cs := some cs', attach }.send ms) := by
  intro hh
  simp only [send_handled, send_down, send_client, send_session] at hh ⊢
  have := h hh
  rwa [← hb] at this

theorem DownTold.sidecar (h : DownTold cfg w)
    (hd : cs'.downDelivered = (w.client cfg).downDelivered) (attach : Bool) (ms : List Msg) :
    DownTold cfg ({ w with cs := some cs', attach }.send ms) := by
  simp only [DownTold, send_client, send_session]
  have := h
  rw [DownTold, ← hd] at this
  exact this.mono fun m hm _ => mem_send hm

theorem UpTold.skip {down : List Msg} (h : UpTold cfg w) (hd : w.down = m :: down)
    (hm : ∀ n, ¬Trims n m) (hb : cs'.upBuf.base = (w.client cfg).upBuf.base) (ms : List Msg) :
    UpTold cfg ({ w with down, cs := some cs' }.send ms) := by
  intro hh
  simp only [send_handled, send_down, send_client, send_session] at hh ⊢
  have := h hh
  rw [hd, ← hb] at this
  refine this.mono fun m' hm' hn => ?_
  rcases List.mem_cons.mp hm' with rfl | hm'
  · exact absurd hn (hm _)
  · exact hm'

theorem UpTold.trimmed {down : List Msg} {offset : ℕ} (h : UpTold cfg w) (hI : Inv cfg w)
    (hcs : w.cs = some cs) (hd : w.down = m :: down) (hm : ∀ n, Trims n m → offset = n)
    (hle : offset ≤ (w.session cfg).upstreamWritten) (ms : List Msg) :
    UpTold cfg ({ w with
      down, cs := some { cs with upBuf := cs.upBuf.trimTo offset } }.send ms) := by
  intro hh
  simp only [send_handled, send_down, send_client, send_session] at hh ⊢
  have hup := (hI.of_cs hcs).up
  have := h hh
  rw [hd, client_of_some cfg hcs] at this
  exact this.trim hm hup.base_le hle (hup.written_le.trans hup.taken_le)

theorem UpTold.recvDown {down : List Msg} (h : UpTold cfg w) (hI : Inv cfg w) (hcs : w.cs = some cs)
    (hd : w.down = m :: down) : UpTold cfg (readFrame cs { w with down } m) := by
  have hconf := hI.up.confirms m (hd ▸ List.mem_cons_self)
  have hc := client_of_some cfg hcs
  have hskip (hm : ∀ n, ¬Trims n m) : UpTold cfg { w with down, cs := some cs } := by
    simpa using h.skip hd hm (congrArg (·.upBuf.base) hc.symm) []
  cases m with
  | attachOK sid offset =>
    rw [readFrame, ClientSession.onAttachOK_fst]
    exact h.trimmed hI hcs hd (fun n hn => hn) hconf _
  | data sid offset p =>
    refine h.skip hd (fun n hn => hn) ?_ _
    rw [deliverDown_fst (hI.of_cs hcs).client.1, hc]
  | ack sid offset =>
    have := h.trimmed hI hcs hd (fun n hn => hn) hconf []
    rwa [send_nil] at this
  | close sid dir reason =>
    rw [readFrame]
    split_ifs
    · exact hskip fun n hn => hn
    · exact hcs ▸ hskip fun n hn => hn
  | opn sid target => exact hcs ▸ hskip fun n hn => hn
  | attach sid offset target => exact hcs ▸ hskip fun n hn => hn

theorem DownTold.recvDown {down : List Msg} (h : DownTold cfg w) (hI : Inv cfg w)
    (hcs : w.cs = some cs) (hd : w.down = m :: down) :
    DownTold cfg (readFrame cs { w with down } m) := by
  have hc : cs.downDelivered = (w.client cfg).downDelivered := by rw [client_of_some cfg hcs]
  have hsame : DownTold cfg { w with down } := h
  have hquiet (cs' : ClientSession) (hcs' : cs'.downDelivered = cs.downDelivered) :
      DownTold cfg { w with down, cs := some cs' } := by
    have := hsame.sidecar (hcs'.trans hc) w.attach []
    rwa [send_nil] at this
  cases m with
  | attachOK sid offset =>
    refine hsame.sidecar ?_ w.attach _
    rw [ClientSession.onAttachOK_fst]
    exact hc
  | data sid offset p =>
    show DownTold cfg (Net.send _ _)
    unfold deliverDown
    cases hq : cs.deliverDown offset p with
    | none => exact hsame.sidecar hc w.attach _
    | some q =>
      -- the tunnel is up, so the ACK is on its way
      have hconn := hI.shape.isSome_of_handled (hI.shape.handled_of_down hd)
      refine .inr ⟨_, mem_send_self hconn List.mem_cons_self rfl, ?_⟩
      rw [send_client]
      rfl
  | ack sid offset => exact hquiet _ rfl
  | close sid dir reason =>
    rw [readFrame]
    split_ifs
    · exact hquiet _ rfl
    · exact hsame
  | opn sid target => exact hsame
  | attach sid offset target => exact hsame

/-! ### The broker's steps -/

theorem onData_trims (s : Session) (offset : ℕ) (p : Bytes) :
    (onData s offset p).1.upstreamWritten = s.upstreamWritten ∨
      ∃ m ∈ (onData s offset p).2, Trims (onData s offset p).1.upstreamWritten m := by
  have hw : (s.onData offset p).1.upstreamWritten = s.upstreamWritten := by
    unfold Session.onData
    dsimp only
    split_ifs <;> rfl
  unfold onData
  dsimp only
  split
  · exact .inl hw
  · exact .inr ⟨_, List.mem_cons_self, rfl⟩

theorem dialUpstream_trims {r : Session × List Msg} (h : dialUpstream s = some r) :
    r.1.upstreamWritten = s.upstreamWritten ∨ ∃ m ∈ r.2, Trims r.1.upstreamWritten m := by
  unfold dialUpstream at h
  split_ifs at h
  obtain ⟨d, hd, rfl⟩ := Option.map_eq_some_iff.mp h
  unfold Session.dialed at hd
  split_ifs at hd
  obtain rfl := Option.some.inj hd
  split_ifs
  · exact .inr ⟨_, List.mem_cons_self, rfl⟩
  · exact .inl rfl

theorem UpTold.broker (h : UpTold cfg w) (hs : w.broker = some s)
    (ht : s'.upstreamWritten = s.upstreamWritten ∨ ∃ m ∈ ms, Trims s'.upstreamWritten m) :
    UpTold cfg { w with
      broker := some s', down := if w.handled then w.down ++ ms else w.down } := by
  intro hh
  have hh : w.handled = true := hh
  have hold := h hh
  rw [session_of_some cfg hs] at hold
  show Told Trims _ s'.upstreamWritten (if w.handled then w.down ++ ms else w.down)
  rw [if_pos hh]
  rcases ht with heq | ⟨m, hm, hn⟩
  · rw [heq]
    exact hold.mono fun m hm _ => List.mem_append_left _ hm
  · exact .inr ⟨m, List.mem_append_right _ hm, hn⟩

theorem DownTold.broker {down : List Msg} (h : DownTold cfg w) (hs : w.broker = some s)
    (hb : s'.downBuf.base = s.downBuf.base) : DownTold cfg { w with broker := some s', down } := by
  rw [DownTold, session_of_some cfg hs, ← hb] at h
  exact h

theorem DownTold.pop {up : List Msg} (h : DownTold cfg w) (hup : w.up = m :: up)
    (hm : ∀ n, ¬Acks n m) : DownTold cfg { w with up } := by
  rw [DownTold, hup] at h
  refine h.mono fun m' hm' hn => ?_
  rcases List.mem_cons.mp hm' with rfl | hm'
  · exact absurd hn (hm _)
  · exact hm'

theorem asked_eq {k : ConnId} {up : List Msg} (hI : Inv cfg w)
    (hallow : cfg.allowTarget cfg.target = true) (htarget : cfg.target ≠ []) (hk : w.conn = some k)
    (hup : w.up = m :: up) (hm : m.asks = true) (hfit : fits w .recvUp = true) :
    ∃ ms, handleFrame cfg k { w with up } m = { w with
        up, handled := true, down := ms, broker := some ((w.session cfg).bind k) } ∧
      ((w.client cfg).upBuf.base = (w.session cfg).upstreamWritten ∨
        ∃ m ∈ ms, Trims (w.session cfg).upstreamWritten m) := by
  obtain ⟨-, hh, -⟩ := hI.shape.of_asks hup hm
  have hquiet := hI.shape.quiet hh
  have hd := hI.down
  rw [hup, hquiet, hh] at hd
  cases m with
  | opn sid target =>
    obtain ⟨rfl, hb⟩ := hI.shape.opn sid target (hup ▸ List.mem_cons_self)
    refine ⟨[], ?_, .inl ?_⟩
    · rw [handleFrame, openSession_eq (w := { w with up }) hallow hb, ← hquiet]
      rfl
    · have hle := hI.up.base_le
      rw [session_of_none hb] at hle ⊢
      exact Nat.le_zero.mp hle
  | attach sid offset target =>
    obtain rfl := hI.shape.attach sid offset target (hup ▸ List.mem_cons_self)
    obtain rfl : offset = (w.client cfg).downDelivered := (List.forall_mem_cons.mp hd.reports).1
    have hfit' : (w.session cfg).downBuf.endOffset - (w.client cfg).downDelivered ≤ maxPayload := by
      cases hb : w.broker with
      | none =>
        rw [session_of_none hb]
        exact (Nat.sub_le _ _).trans (Nat.zero_le _)
      | some s =>
        rw [Net.session, hb]
        simpa [fits, hup, hb] using hfit
    refine ⟨(w.session cfg).onSidecarAttach (w.client cfg).downDelivered, ?_, .inr ?_⟩
    · rw [handleFrame, attachSession_eq (w := { w with up }) hallow htarget hk]
      · rw [show w.down = [] from hquiet]
        rfl
      · exact hI.offset_eq_zero (hup ▸ List.mem_cons_self)
      · exact sendable_onSidecarAttach hd.base_le hd.le_end hfit'
    · obtain ⟨ms, hms, -⟩ := (w.session cfg).onSidecarAttach_cons (w.client cfg).downDelivered
      rw [hms]
      exact ⟨_, List.mem_cons_self, rfl⟩
  | _ => cases hm

theorem handleData_eq {k : ConnId} {sid : UInt64} {offset : ℕ} {p : Bytes} {up : List Msg}
    (hI : Inv cfg w) (hup : w.up = .data sid offset p :: up) (hb : w.broker = some s) :
    handleFrame cfg k { w with up } (.data sid offset p) = { w with
      up
      broker := some (onData s offset p).1
      down := if w.handled then w.down ++ (onData s offset p).2 else w.down } := by
  have hB := hI.of_broker hb
  have ht := onData_takes hB.dead hB.preConn offset p
  have hacks : ∀ m ∈ (onData s offset p).2, m.Sendable := by
    intro m hm
    obtain ⟨sid, rfl⟩ := ht.acks m hm
    rfl
  have hshape : Shape cfg { w with up } := hB.shape.pop hup
  have hbound : Bound w.conn w.conns w.handled (onData s offset p).1.tconn := ht.tconn ▸ hB.bound
  rw [← sendToSidecar_attached (w := { w with up }) hshape hbound hacks]
  simp only [handleFrame, hb]

theorem handleData_of_none {k : ConnId} {sid : UInt64} {offset : ℕ} {p : Bytes}
    (hb : w.broker = none) : handleFrame cfg k w (.data sid offset p) = w := by
  simp only [handleFrame, hb]

theorem session_handleAck (cfg : Config) (k : ConnId) (w : Net) (sid : UInt64) (offset : ℕ) :
    ((handleFrame cfg k w (.ack sid offset)).session cfg).upstreamWritten =
        (w.session cfg).upstreamWritten ∧
      ((handleFrame cfg k w (.ack sid offset)).session cfg).downBuf.base =
        ((w.session cfg).downBuf.trimTo offset).base := by
  unfold handleFrame Net.session
  dsimp only
  cases w.broker with
  | none =>
    refine ⟨rfl, ?_⟩
    rw [ReplayBuffer.base_trimTo]
    simp [newSession, newReplayBuffer, ReplayBuffer.endOffset]
  | some s =>
    have hr := s.onDownstreamAck_eq offset
    rw [Option.map_some, hr]
    exact ⟨rfl, rfl⟩

theorem UpTold.recvUp {k : ConnId} {up : List Msg} (h : UpTold cfg w) (hI : Inv cfg w)
    (hallow : cfg.allowTarget cfg.target = true) (htarget : cfg.target ≠ []) (hk : w.conn = some k)
    (hup : w.up = m :: up) (hfit : fits w .recvUp = true) :
    UpTold cfg (handleFrame cfg k { w with up } m) := by
  have hsame : UpTold cfg { w with up } := h
  cases hm : m.asks with
  | true =>
    obtain ⟨ms, heq, ht⟩ := asked_eq hI hallow htarget hk hup hm hfit
    rw [heq]
    exact fun _ => ht
  | false =>
    cases m with
    | opn | attach => cases hm
    | data sid offset p =>
      obtain hb | ⟨s, hb⟩ := Option.eq_none_or_eq_some w.broker
      · rw [handleData_of_none (w := { w with up }) hb]
        exact hsame
      · rw [handleData_eq hI hup hb]
        exact hsame.broker hb (onData_trims s offset p)
    | ack sid offset =>
      intro hh
      rw [(session_handleAck cfg k { w with up } sid offset).1]
      exact h hh
    | attachOK | close => exact hsame

theorem DownTold.recvUp {k : ConnId} {up : List Msg} (h : DownTold cfg w) (hI : Inv cfg w)
    (hallow : cfg.allowTarget cfg.target = true) (htarget : cfg.target ≠ []) (hk : w.conn = some k)
    (hup : w.up = m :: up) (hfit : fits w .recvUp = true) :
    DownTold cfg (handleFrame cfg k { w with up } m) := by
  cases hm : m.asks with
  | true =>
    obtain ⟨ms, heq, -⟩ := asked_eq hI hallow htarget hk hup hm hfit
    have hm' : ∀ n, ¬Acks n m := by
      cases m with
      | ack => cases hm
      | _ => exact fun n hn => hn
    rw [heq]
    exact h.pop hup hm'
  | false =>
    cases m with
    | opn | attach => cases hm
    | data sid offset p =>
      have hpop := h.pop hup (fun n hn => hn)
      obtain hb | ⟨s, hb⟩ := Option.eq_none_or_eq_some w.broker
      · rw [handleData_of_none (w := { w with up }) hb]
        exact hpop
      · have hB := hI.of_broker hb
        rw [handleData_eq hI hup hb]
        exact hpop.broker hb (by rw [(onData_takes hB.dead hB.preConn offset p).downBuf])
    | ack sid offset =>
      have hd := hI.down
      have hle : offset ≤ (w.client cfg).downDelivered :=
        hd.reports (.ack sid offset) (hup ▸ List.mem_cons_self)
      rw [DownTold, hup] at h
      rw [DownTold, (session_handleAck cfg k { w with up } sid offset).2]
      exact h.trim (fun n hn => hn) hd.base_le hle hd.le_end
    | attachOK | close => exact h.pop hup (fun n hn => hn)

/-! ### Runs -/

/-- What a step can do to the two buffers and to the frames that trim them. -/
inductive Turns (cfg : Config) (w : Net) : Event → Net → Prop
  | sidecar (e : Event) (cs : ClientSession) (attach : Bool) (ms : List Msg)
      (hb : cs.upBuf.base = (w.client cfg).upBuf.base)
      (hd : cs.downDelivered = (w.client cfg).downDelivered) :
    Turns cfg w e ({ w with cs := some cs, attach }.send ms)
  | connect (attach : Bool) :
    Turns cfg w .connect { w with conn := some w.conns, conns := w.conns + 1, attach }
  | recvDown (cs : ClientSession) (m : Msg) (down : List Msg) (hcs : w.cs = some cs)
      (hd : w.down = m :: down) : Turns cfg w .recvDown (readFrame cs { w with down } m)
  | recvUp (k : ConnId) (m : Msg) (up : List Msg) (hk : w.conn = some k) (hup : w.up = m :: up) :
    Turns cfg w .recvUp (handleFrame cfg k { w with up } m)
  | broker (e : Event) (s s' : Session) (ms : List Msg) (hs : w.broker = some s)
      (ht : s'.upstreamWritten = s.upstreamWritten ∨ ∃ m ∈ ms, Trims s'.upstreamWritten m)
      (hb : s'.downBuf.base = s.downBuf.base) :
    Turns cfg w e { w with
      broker := some s', down := if w.handled then w.down ++ ms else w.down }
  | detachNone (k : ConnId) : Turns cfg w (.detach k) w
  | cut : Turns cfg w .cut { w with
      conn := none, attach := false, handled := false, up := [], down := [] }

theorem detach_fst (s : Session) (k : ConnId) : ∃ tc, (s.detach k).1 = { s with tconn := tc } := by
  unfold Session.detach
  split_ifs
  · exact ⟨s.tconn, rfl⟩
  · exact ⟨none, rfl⟩

theorem step_turns {e : Event} (hI : Inv cfg w) (hstep : Protocol.step cfg w e = some w') :
    Turns cfg w e w' := by
  unfold Protocol.step at hstep
  cases e with
  | openSession =>
    cases hcs : w.cs with
    | some cs => simp [hcs] at hstep
    | none =>
      simp only [hcs, Option.some.injEq] at hstep
      have hc : w.client cfg = newClientSession cfg.sessionBuffer cfg.sessionID cfg.target := by
        rw [Net.client, hcs, Option.getD_none]
      exact hstep ▸ .sidecar _ _ w.attach _ (by rw [hc]) (by rw [hc])
  | connect =>
    dsimp only at hstep
    split_ifs at hstep
    exact (Option.some.inj hstep) ▸ .connect _
  | attach =>
    cases hcs : w.cs with
    | none => simp [hcs] at hstep
    | some cs =>
      simp only [hcs] at hstep
      split_ifs at hstep
      obtain rfl := Option.some.inj hstep
      have hc := client_of_some cfg hcs
      exact .sidecar .attach cs false [cs.attachFrame] (by rw [hc]) (by rw [hc])
  | writeUp p =>
    cases hcs : w.cs with
    | none => simp [hcs] at hstep
    | some cs =>
      simp only [hcs] at hstep
      split_ifs at hstep
      obtain ⟨cs', hw, rfl⟩ := Option.map_eq_some_iff.mp hstep
      obtain ⟨b, hb, rfl⟩ := Option.map_eq_some_iff.mp hw
      have hc := client_of_some cfg hcs
      exact .sidecar _ _ w.attach _ (by rw [hc, (ReplayBuffer.append_eq_some hb).1]) (by rw [hc])
  | recvDown =>
    cases hd : w.down with
    | nil => simp [hd] at hstep
    | cons m down =>
      cases hcs : w.cs with
      | none =>
        -- a session that is not open has no frames
        have hh := hI.shape.handled_of_down hd
        rw [hI.not_handled (hI.shape.unopened hcs).2.2] at hh
        cases hh
      | some cs =>
        simp only [hd, hcs, Option.some.injEq] at hstep
        have : Turns cfg w .recvDown _ := .recvDown cs m down hcs hd
        rw [hcs] at this
        exact hstep ▸ this
  | recvUp =>
    cases hk : w.conn with
    | none => simp [hk] at hstep
    | some k =>
      cases hup : w.up with
      | nil => simp [hk, hup] at hstep
      | cons m up =>
        simp only [hk, hup, Option.some.injEq] at hstep
        have : Turns cfg w .recvUp _ := .recvUp k m up hk hup
        rw [hk] at this
        exact hstep ▸ this
  | dialed =>
    cases hs : w.broker with
    | none => simp [hs] at hstep
    | some s =>
      simp only [hs] at hstep
      obtain ⟨r, hr, rfl⟩ := Option.map_eq_some_iff.mp hstep
      have hB := hI.of_broker hs
      have ht := dialUpstream_takes hB.dead hr
      have hacks : ∀ m ∈ r.2, m.Sendable := by
        intro m hm
        obtain ⟨sid, rfl⟩ := ht.acks m hm
        rfl
      rw [sendToSidecar_attached hB.shape (ht.tconn ▸ hB.bound) hacks]
      exact .broker _ s r.1 r.2 hs (dialUpstream_trims hr) (by rw [ht.downBuf])
  | produce p =>
    cases hs : w.broker with
    | none => simp [hs] at hstep
    | some s =>
      simp only [hs] at hstep
      split_ifs at hstep with hp
      obtain ⟨s', hw, rfl⟩ := Option.map_eq_some_iff.mp hstep
      obtain ⟨b, hb, rfl⟩ := Option.map_eq_some_iff.mp hw
      have hB := hI.of_broker hs
      have hlen : (s.nextChunk p).1.length ≤ maxPayload := by
        have : readSize ≤ maxPayload := by decide
        simp only [Session.nextChunk, List.length_take]
        omega
      rw [sendToSidecar_attached (s := { s with downBuf := b }) hB.shape hB.bound
        (List.forall_mem_singleton.mpr (Msg.sendable_data.mpr hlen))]
      exact .broker _ s { s with downBuf := b } _ hs (.inl rfl) (ReplayBuffer.append_eq_some hb).1
  | detach k =>
    dsimp only at hstep
    split_ifs at hstep
    obtain rfl := Option.some.inj hstep
    cases hs : w.broker with
    | none =>
      rw [Option.map_none, ← hs]
      exact .detachNone k
    | some s =>
      obtain ⟨tc, htc⟩ := detach_fst s k
      have : Turns cfg w (.detach k) _ :=
        .broker (.detach k) s (s.detach k).1 [] hs (.inl (by rw [htc])) (by rw [htc])
      simpa using this
  | cut =>
    dsimp only at hstep
    split_ifs at hstep
    exact (Option.some.inj hstep) ▸ .cut

theorem UpTold.step {e : Event} (hallow : cfg.allowTarget cfg.target = true)
    (htarget : cfg.target ≠ []) (h : UpTold cfg w) (hI : Inv cfg w) (hfit : fits w e = true)
    (hstep : Protocol.step cfg w e = some w') : UpTold cfg w' := by
  cases step_turns hI hstep with
  | sidecar _ cs attach ms hb _ => exact h.sidecar hb attach ms
  | connect attach => exact h
  | recvDown cs m down hcs hd => exact h.recvDown hI hcs hd
  | recvUp k m up hk hup => exact h.recvUp hI hallow htarget hk hup hfit
  | broker _ s s' ms hs ht _ => exact h.broker hs ht
  | detachNone k => exact h
  | cut => exact fun hh => nomatch hh

/-- The step does not cut a connection with an ACK in flight. -/
def spares (w : Net) : Event → Bool
  | .cut => w.up.all fun m => match m with | .ack _ _ => false | _ => true
  | _ => true

theorem DownTold.step {e : Event} (hallow : cfg.allowTarget cfg.target = true)
    (htarget : cfg.target ≠ []) (h : DownTold cfg w) (hI : Inv cfg w) (hfit : fits w e = true)
    (hs : spares w e = true) (hstep : Protocol.step cfg w e = some w') : DownTold cfg w' := by
  cases step_turns hI hstep with
  | sidecar _ cs attach ms _ hd => exact h.sidecar hd attach ms
  | connect attach => exact h
  | recvDown cs m down hcs hd => exact h.recvDown hI hcs hd
  | recvUp k m up hk hup => exact h.recvUp hI hallow htarget hk hup hfit
  | broker _ s s' ms hs _ hb => exact h.broker hs hb
  | detachNone k => exact h
  | cut =>
    refine .inl ?_
    rcases h with h | ⟨m, hm, hn⟩
    · exact h
    · have hack := List.all_eq_true.mp hs m hm
      cases m with
      | ack => cases hack
      | _ => cases hn

end Steps

end SubstratePoc.Protocol
