import SubstratePoc.Broker.Wake
import SubstratePoc.Pair.Sessions

namespace SubstratePoc.Broker
open Lib Tunnel

/-- A frame to the sidecar that holds what the stream `P` holds at its offset. -/
def Carries (P : Bytes) : Msg → Prop
  | .data _ offset p => Agrees P offset p
  | _ => True

theorem Carries.mono {P P' : Bytes} {m : Msg} (hP : P <+: P') (h : Carries P m) : Carries P' m := by
  cases m with
  | data sid offset p => exact Agrees.mono hP h
  | _ => trivial

/-- The bytes of a read that have not been appended yet. -/
def Act.chunk : Act → Bytes
  | .produce p _ => p
  | _ => []

/-- What the broker is about to send is part of the stream, and what it is about to trim has been
delivered. -/
def Act.Sound (P : Bytes) (d : ℕ) : Act → Prop
  | .onDownstreamAck offset => offset ≤ d
  | .send m | .write _ m => Carries P m
  | _ => True

theorem Act.Sound.mono {P P' : Bytes} {d d' : ℕ} {a : Act} (hP : P <+: P') (hd : d ≤ d')
    (h : a.Sound P d) : a.Sound P' d' := by
  cases a with
  | onDownstreamAck offset => exact le_trans h hd
  | send m => exact Carries.mono hP h
  | write tc m => exact Carries.mono hP h
  | _ => trivial

def Act.aside : Act → Bool
  | .onDownstreamAck _ | .send (.data _ _ _) | .write _ (.data _ _ _) | .produce _ _ => false
  | _ => true

theorem Act.sound_of_aside {P : Bytes} {d : ℕ} {a : Act} (h : a.aside = true) :
    a.Sound P d ∧ a.chunk = [] := by
  cases a with
  | onDownstreamAck => cases h
  | produce => cases h
  | send m | write tc m =>
    cases m with
    | data => cases h
    | _ => exact ⟨trivial, rfl⟩
  | _ => exact ⟨trivial, rfl⟩

theorem carries_onSidecarAttach {s : Session} {P : Bytes} (hP : s.downBuf.Retains P) (d : ℕ) :
    ∀ m ∈ s.onSidecarAttach d, Carries P m := by
  -- the replay of `onSidecarAttach` is part of the stream, whatever the offset
  intro m hm
  simp only [Session.onSidecarAttach, List.mem_append, List.mem_singleton] at hm
  rcases hm with (rfl | hm) | hm
  · trivial
  · split at hm
    · rename_i r hr
      split_ifs at hm
      · rw [List.mem_singleton] at hm
        subst hm
        exact (hP.agrees_of_fromOffset hr).1
      · cases hm
    · cases hm
  · split_ifs at hm
    · rw [List.mem_singleton] at hm
      subst hm
      trivial
    · cases hm

theorem agrees_append (P Q : Bytes) : Agrees (P ++ Q) P.length Q := by
  unfold Agrees
  rw [List.drop_left]

/-- What an action has to keep about the stream `P` when it appends `Q` to it. -/
structure Streams (P Q : Bytes) (d : ℕ) (s : Session) (a : Act) (c : Choice) (r : Result) : Prop where
  retains : r.s.downBuf.Retains (P ++ Q)
  base_le : r.s.downBuf.base ≤ d
  push : ∀ b ∈ r.push, b.Sound (P ++ Q) d
  frames : ∀ tc m, .frame tc m ∈ r.eff → Carries (P ++ Q) m
  chunk : Q <+: a.chunk ++ Pair.readBytes a c
  rest : ∀ b ∈ r.push, b.reading = true → a.chunk ++ Pair.readBytes a c = Q ++ b.chunk

theorem streams_produce {s : Session} {p : Bytes} {after : After} {c : Choice} {r : Result}
    {P : Bytes} {b : ReplayBuffer} {d n : ℕ} (hP : s.downBuf.Retains P) (hb : s.downBuf.base ≤ d)
    (happ : s.downBuf.append (p.take n) = some b) (hbuf : r.s.downBuf = b)
    (hpush : r.push = [.produce (p.drop n) after])
    (hframes : ∀ tc m, .frame tc m ∈ r.eff → Carries (P ++ p.take n) m) :
    Streams P (p.take n) d s (.produce p after) c r := by
  refine ⟨?_, ?_, ?_, hframes, ?_, ?_⟩
  · rw [hbuf]
    exact hP.append happ
  · rwa [hbuf, (ReplayBuffer.append_eq_some happ).1]
  · simp [hpush, Act.Sound]
  · simpa [Act.chunk, Pair.readBytes] using List.take_prefix _ _
  · simp [hpush, Act.chunk, Pair.readBytes]

theorem streams_aside {s : Session} {a : Act} {c : Choice} {r : Result} {P : Bytes} {d : ℕ}
    (hP : s.downBuf.Retains P) (hb : s.downBuf.base ≤ d) (hbuf : r.s.downBuf = s.downBuf)
    (ha : a.chunk ++ Pair.readBytes a c = []) (hpush : r.push.all Act.aside = true)
    (heff : r.eff.all (·.msg.isNone) = true) : Streams P [] d s a c r := by
  rw [List.all_eq_true] at hpush heff
  refine ⟨?_, ?_, ?_, ?_, List.nil_prefix, ?_⟩
  · rwa [List.append_nil, hbuf]
  · rwa [hbuf]
  · exact fun b hb => (Act.sound_of_aside (hpush b hb)).1
  · intro tc m hm
    cases heff _ hm
  · intro b hb _
    rw [ha, (Act.sound_of_aside (P := P) (d := d) (hpush b hb)).2]
    rfl

theorem Does.streams {s : Session} {a : Act} {c : Choice} {r : Result} {P : Bytes} {d : ℕ}
    (h : Does s a c r) (hP : s.downBuf.Retains P) (hb : s.downBuf.base ≤ d) (ha : a.Sound P d) :
    ∃ Q, Streams P Q d s a c r := by
  have hnil : s.downBuf.Retains (P ++ []) := by rwa [List.append_nil]
  have htrim : ∀ offset ≤ d, (s.downBuf.trimTo offset).Retains (P ++ []) ∧
      (s.downBuf.trimTo offset).base ≤ d := by
    intro offset ho
    refine ⟨hnil.trimTo offset, ?_⟩
    rw [ReplayBuffer.base_trimTo]
    omega
  cases h with
  | produceDetached p after _ b _ _ _ happ =>
    refine ⟨_, streams_produce hP hb happ rfl rfl ?_⟩
    intro tc m hm
    split_ifs at hm <;> simp at hm
  | produceLost p after n text b tc _ _ _ happ =>
    refine ⟨_, streams_produce hP hb happ rfl rfl ?_⟩
    intro tc m hm
    split_ifs at hm <;> simp at hm
  | produceSent p after b tc _ _ _ happ =>
    refine ⟨_, streams_produce hP hb happ rfl rfl ?_⟩
    intro tc m hm
    simp only [List.mem_singleton, Effect.frame.injEq] at hm
    rw [hm.2, hP.endOffset_eq]
    exact agrees_append _ _
  | ackDrained offset _ _ =>
    exact ⟨[], (htrim offset ha).1, (htrim offset ha).2, by simp, by simp, by simp, by simp⟩
  | ackKept offset _ _ =>
    exact ⟨[], (htrim offset ha).1, (htrim offset ha).2, by simp, by simp, by simp, by simp⟩
  | attach offset c =>
    -- a lookup that fails sends nothing, one that succeeds a piece of the stream
    refine ⟨[], hnil, hb, ?_, by simp, List.nil_prefix, ?_⟩
    · intro b hmem
      obtain ⟨m, hm, rfl⟩ := List.mem_map.mp hmem
      exact carries_onSidecarAttach hnil offset m hm
    · intro b hmem hr
      obtain ⟨m, -, rfl⟩ := List.mem_map.mp hmem
      cases hr
  | read p err =>
    refine ⟨[], hnil, hb, ?_, by simp, List.nil_prefix, ?_⟩
    · intro b hmem
      rw [List.mem_singleton.mp hmem]
      trivial
    · intro b hmem _
      rw [List.mem_singleton.mp hmem]
      rfl
  | produceDone after => cases after <;> exact ⟨[], streams_aside hP hb rfl rfl rfl rfl⟩
  | sendSome m c tc ht =>
    refine ⟨[], hnil, hb, ?_, by simp, List.nil_prefix, by simp [Act.reading]⟩
    intro b hmem
    rw [List.mem_singleton.mp hmem, List.append_nil]
    exact ha
  | writeOk tc m hm =>
    refine ⟨[], hnil, hb, by simp, ?_, List.nil_prefix, by simp⟩
    intro tc' m' h'
    simp only [List.mem_singleton, Effect.frame.injEq] at h'
    rw [h'.2, List.append_nil]
    exact ha
  | produceDead p after c hp hd =>
    refine ⟨[], hnil, hb, ?_, by simp, List.nil_prefix, by simp [Act.reading]⟩
    intro b hmem
    rw [List.mem_singleton.mp hmem]
    trivial
  | _ => exact ⟨[], streams_aside hP hb rfl rfl rfl rfl⟩

theorem Does.length_reading {s : Session} {a : Act} {c : Choice} {r : Result} (h : Does s a c r) :
    (r.push.filter Act.reading).length ≤ if a.reading then 1 else 0 := by
  obtain ⟨hlast, hnone⟩ := h.reading
  split_ifs with ha
  · rcases List.eq_nil_or_concat' r.push with hp | ⟨l, b, hp⟩
    · simp [hp]
    · rw [ReaderLast, hp, List.dropLast_concat] at hlast
      rw [hp, List.filter_append, filter_eq_nil_of_false hlast]
      exact List.length_filter_le _ [b]
  · rw [filter_eq_nil_of_false (hnone (by simpa using ha))]
    exact le_rfl

end SubstratePoc.Broker

namespace SubstratePoc.Pair
open Lib Tunnel Broker Sidecar

/-! ## The sidecar's half -/

/-- What the sidecar is about to deliver is part of the stream, and what it is about to confirm
has been delivered. -/
def SAct.Sound (P : Bytes) (d : ℕ) : SAct → Prop
  | .deliverDown offset p => Agrees P offset p
  | .send m | .write _ m => m.AcksUpTo d
  | _ => True

theorem SAct.Sound.mono {P P' : Bytes} {d d' : ℕ} {a : SAct} (hP : P <+: P') (hd : d ≤ d')
    (h : a.Sound P d) : a.Sound P' d' := by
  cases a with
  | deliverDown offset p => exact Agrees.mono hP h
  | send m => exact Msg.AcksUpTo.mono hd h
  | write k m => exact Msg.AcksUpTo.mono hd h
  | _ => trivial

def SAct.aside : SAct → Bool
  | .deliverDown _ _ | .send (.ack _ _) | .write _ (.ack _ _) => false
  | _ => true

theorem SAct.sound_of_aside {P : Bytes} {d : ℕ} {a : SAct} (h : a.aside = true) : a.Sound P d := by
  cases a with
  | deliverDown => cases h
  | send m | write k m =>
    cases m with
    | ack => cases h
    | _ => trivial
  | _ => trivial

/-- A `deliverDown` call that has decided what to write and has not returned. -/
def SAct.delivering : SAct → Bool
  | .agentWrite _ | .delivered _ | .closeAll => true
  | _ => false

/-- The actions of the goroutine that copies the agent's bytes. -/
def SAct.copying : SAct → Bool
  | .openSession | .readAgent | .writeUp _ _ | .closeUp _ | .send _ | .write _ _ => true
  | _ => false

structure Idle (P : Bytes) (w : Core) : Prop where
  isPrefix : w.agent <+: P
  exact_of_ok : w.agentOK = true → w.agent = P.take w.cs.downDelivered
  dead_of_failed : w.agentOK = false → w.cs.dead = true

/-- What the agent has been given, by what the sidecar's tunnel goroutine does next. -/
def Phase (P : Bytes) (w : Core) : Option SAct → Prop
  | some (.agentWrite q) => w.agentOK = true ∧ w.agent = P.take w.cs.downDelivered ∧
      Agrees P w.cs.downDelivered q
  | some (.delivered n) => w.agentOK = true ∧ w.agent = P.take (w.cs.downDelivered + n) ∧
      w.cs.downDelivered + n ≤ P.length
  | some .closeAll => w.agent <+: P ∧ (w.agentOK = true → w.agent = P.take w.cs.downDelivered)
  | _ => Idle P w

theorem phase_of_idle {P : Bytes} {w : Core} (h : Idle P w) {o : Option SAct}
    (ho : ∀ a, o = some a → a.delivering = true → a = .closeAll) : Phase P w o := by
  cases o with
  | none => exact h
  | some a =>
    cases a with
    | closeAll => exact ⟨h.isPrefix, h.exact_of_ok⟩
    | agentWrite q => cases ho _ rfl rfl
    | delivered n => cases ho _ rfl rfl
    | _ => exact h

theorem Phase.idle {P : Bytes} {w : Core} {a : SAct} (h : Phase P w (some a))
    (ha : a.delivering = false) : Idle P w := by
  cases a with
  | agentWrite | delivered | closeAll => cases ha
  | _ => exact h

theorem deliverDown_agrees {cs : ClientSession} {P p q : Bytes} {offset : ℕ}
    (h : cs.deliverDown offset p = some q) (hp : Agrees P offset p) :
    cs.dead = false ∧ Agrees P cs.downDelivered q := by
  unfold ClientSession.deliverDown at h
  split_ifs at h with hd h1 h2 h3
  · obtain rfl := Option.some.inj h
    exact ⟨by simpa using hd, hp.drop_to h1.le⟩
  · obtain rfl := Option.some.inj h
    refine ⟨by simpa using hd, ?_⟩
    rwa [show cs.downDelivered = offset by omega]

theorem dispatch_sound {P : Bytes} {d : ℕ} {m : Msg} (hm : Carries P m) :
    ∀ b ∈ dispatch m, b.Sound P d := by
  intro b hb
  cases m with
  | data sid offset p =>
    rw [List.mem_singleton.mp hb]
    exact hm
  | attachOK | ack | close =>
    rw [List.mem_singleton.mp hb]
    trivial
  | opn | attach => cases hb

theorem SDoes.sound {w w' : Core} {a : SAct} {push : List SAct} {spawn : List (List BAct)}
    {P : Bytes} (h : SDoes w a w' push spawn) (ha : a.Sound P w.cs.downDelivered)
    (hdown : ∀ k, ∀ m ∈ (w.links k).down, Carries P m) :
    ∀ b ∈ push, b.Sound P w'.cs.downDelivered := by
  -- a sidecar action confirms only what has been delivered, and hands on only what has arrived
  have haside : ∀ {d} {l : List SAct}, l.all SAct.aside = true → ∀ b ∈ l, b.Sound P d :=
    fun hl b hb => SAct.sound_of_aside (List.all_eq_true.mp hl b hb)
  cases h with
  | connect =>
    split_ifs <;> exact haside rfl
  | readFrame k m down hd =>
    have hm : Carries P m := hdown k m (hd ▸ List.mem_cons_self ..)
    intro b hb
    rw [List.mem_append] at hb
    rcases hb with hb | hb
    · split_ifs at hb
      · exact dispatch_sound hm b hb
      · cases hb
    · exact haside rfl b hb
  | onAttachOK offset =>
    intro b hb
    obtain ⟨m, hm, rfl⟩ := List.mem_map.mp hb
    obtain ⟨p, rfl⟩ := ClientSession.eq_data_of_mem_onAttachOK hm
    trivial
  | delivered n =>
    intro b hb
    rw [List.mem_singleton.mp hb]
    exact le_rfl
  | sendSome m k hc =>
    intro b hb
    rw [List.mem_singleton.mp hb]
    exact ha
  | writeUpDead p err push hp =>
    intro b hb
    obtain ⟨reason, rfl⟩ := hp b hb
    trivial
  | writeUpDone err => cases err <;> exact haside rfl
  | _ => exact haside rfl

theorem SDoes.copying {w w' : Core} {a : SAct} {push : List SAct} {spawn : List (List BAct)}
    (h : SDoes w a w' push spawn) (ha : a.copying = true) : ∀ b ∈ push, b.copying = true := by
  cases h with
  | writeUpDead p err push hp =>
    intro b hb
    obtain ⟨reason, rfl⟩ := hp b hb
    rfl
  | writeUpDone err => cases err <;> simp [afterWriteUp, SAct.copying]
  | _ => simp_all [SAct.copying]

theorem SDoes.quiet {w w' : Core} {a : SAct} {push : List SAct} {spawn : List (List BAct)}
    (h : SDoes w a w' push spawn) (ha : a.delivering = false)
    (hd : ∀ offset p, a ≠ .deliverDown offset p) :
    w'.agent = w.agent ∧ w'.agentOK = w.agentOK ∧ w'.cs.downDelivered = w.cs.downDelivered ∧
      w'.cs.dead = w.cs.dead ∧
      ((∀ b ∈ push, b.delivering = false) ∨ push = [.closeAll]) := by
  cases h with
  | connect =>
    refine ⟨rfl, rfl, rfl, rfl, .inl ?_⟩
    split_ifs <;> exact forall_false_of_all rfl
  | readFrame k m down hm =>
    refine ⟨rfl, rfl, rfl, rfl, .inl ?_⟩
    split_ifs
    · cases m <;> exact forall_false_of_all rfl
    · exact forall_false_of_all rfl
  | onAttachOK offset =>
    refine ⟨rfl, rfl, rfl, rfl, .inl fun b hb => ?_⟩
    obtain ⟨m, -, rfl⟩ := List.mem_map.mp hb
    rfl
  | writeOk k m =>
    rw [Core.toBroker_eq]
    exact ⟨rfl, rfl, rfl, rfl, .inl (forall_false_of_all rfl)⟩
  | writeUpDead p err push hp =>
    refine ⟨rfl, rfl, rfl, rfl, .inl fun b hb => ?_⟩
    obtain ⟨reason, rfl⟩ := hp b hb
    rfl
  | writeUpDone err => cases err <;> exact ⟨rfl, rfl, rfl, rfl, .inl (forall_false_of_all rfl)⟩
  | onCloseAll => exact ⟨rfl, rfl, rfl, rfl, .inr rfl⟩
  | deliverSkip offset p | deliverDown offset p => exact absurd rfl (hd offset p)
  | agentWriteOk | agentWriteFail | delivered | closeAllAgain | closeAll => cases ha
  | _ => exact ⟨rfl, rfl, rfl, rfl, .inl (forall_false_of_all rfl)⟩

theorem SDoes.tail {w w' : Core} {a : SAct} {push : List SAct} {spawn : List (List BAct)}
    (h : SDoes w a w' push spawn) : ∀ b ∈ push.tail, b.delivering = false := by
  by_cases hq : a.delivering = false ∧ ∀ offset p, a ≠ .deliverDown offset p
  · rcases (h.quiet hq.1 hq.2).2.2.2.2 with hp | rfl
    · exact fun b hb => hp b (List.mem_of_mem_tail hb)
    · simp
  · cases h with
    | deliverSkip | deliverDown | agentWriteOk | agentWriteFail | delivered | closeAllAgain
    | closeAll => simp
    | _ => exact absurd ⟨rfl, by simp⟩ hq

theorem Idle.congr {P : Bytes} {w w' : Core} (h : Idle P w) (hagent : w'.agent = w.agent)
    (hok : w'.agentOK = w.agentOK) (hdel : w'.cs.downDelivered = w.cs.downDelivered)
    (hdead : w'.cs.dead = w.cs.dead) : Idle P w' := by
  obtain ⟨h1, h2, h3⟩ := h
  exact ⟨by rwa [hagent], by rwa [hagent, hok, hdel], by rwa [hok, hdead]⟩

theorem Phase.congr {P : Bytes} {w w' : Core} {o : Option SAct} (h : Phase P w o)
    (hagent : w'.agent = w.agent) (hok : w'.agentOK = w.agentOK)
    (hdel : w'.cs.downDelivered = w.cs.downDelivered) (hdead : w'.cs.dead = w.cs.dead) :
    Phase P w' o := by
  cases o with
  | none => exact Idle.congr h hagent hok hdel hdead
  | some a =>
    cases a with
    | agentWrite q => simpa only [Phase, hagent, hok, hdel] using h
    | delivered n => simpa only [Phase, hagent, hok, hdel] using h
    | closeAll => simpa only [Phase, hagent, hok, hdel] using h
    | _ => exact Idle.congr h hagent hok hdel hdead

theorem Phase.append {P : Bytes} {w : Core} {o : Option SAct} (h : Phase P w o) (Q : Bytes)
    (hlen : w.cs.downDelivered ≤ P.length) : Phase (P ++ Q) w o := by
  -- the stream grows behind what has been delivered
  have htake : (P ++ Q).take w.cs.downDelivered = P.take w.cs.downDelivered :=
    List.take_append_of_le_length hlen
  have hidle : Idle P w → Idle (P ++ Q) w := fun hi =>
    ⟨hi.isPrefix.trans (List.prefix_append _ _), fun hok => by rw [htake, hi.exact_of_ok hok],
      hi.dead_of_failed⟩
  cases o with
  | none => exact hidle h
  | some a =>
    cases a with
    | agentWrite q =>
      obtain ⟨hok, hagent, hagrees⟩ := h
      exact ⟨hok, by rw [htake, hagent], hagrees.mono (List.prefix_append _ _)⟩
    | delivered n =>
      obtain ⟨hok, hagent, hle⟩ := h
      refine ⟨hok, ?_, ?_⟩
      · rw [List.take_append_of_le_length hle, hagent]
      · rw [List.length_append]
        omega
    | closeAll =>
      obtain ⟨hpre, hok⟩ := h
      exact ⟨hpre.trans (List.prefix_append _ _), fun h => by rw [htake, hok h]⟩
    | _ => exact hidle h

theorem SDoes.phase {w w' : Core} {a : SAct} {push rest : List SAct} {spawn : List (List BAct)}
    {P : Bytes} (h : SDoes w a w' push spawn) (ha : a.Sound P w.cs.downDelivered)
    (hlen : w.cs.downDelivered ≤ P.length) (hrest : ∀ b ∈ rest, b.delivering = false)
    (hphase : Phase P w (some a)) :
    w'.cs.downDelivered ≤ P.length ∧ Phase P w' (push ++ rest).head? := by
  -- the tunnel goroutine takes an action, and `rest` is what it has still to do
  have hidle : ∀ {w'}, Idle P w' → Phase P w' rest.head? := fun hi =>
    phase_of_idle hi fun b hb hd => by
      rw [hrest b (List.mem_of_mem_head? hb)] at hd
      cases hd
  by_cases hq : a.delivering = false ∧ ∀ offset p, a ≠ .deliverDown offset p
  · obtain ⟨hagent, hok, hdel, hdead, hpush⟩ := h.quiet hq.1 hq.2
    refine ⟨hdel ▸ hlen, phase_of_idle ((hphase.idle hq.1).congr hagent hok hdel hdead) ?_⟩
    intro b hb hd
    have hmem : b ∈ push ++ rest := List.mem_of_mem_head? hb
    rcases List.mem_append.mp hmem with hb | hb
    · rcases hpush with hpush | rfl
      · rw [hpush b hb] at hd
        cases hd
      · exact List.mem_singleton.mp hb
    · rw [hrest b hb] at hd
      cases hd
  cases h with
  | deliverSkip offset p => exact ⟨hlen, hidle hphase⟩
  | deliverDown offset p q hdel =>
    obtain ⟨hdead, hagrees⟩ := deliverDown_agrees hdel ha
    -- a session whose agent write has failed is dead and decides nothing any more
    have hok : w.agentOK = true := by
      by_contra hok
      have := hphase.dead_of_failed (by simpa using hok)
      rw [hdead] at this
      cases this
    exact ⟨hlen, hok, hphase.exact_of_ok hok, hagrees⟩
  | agentWriteOk q =>
    obtain ⟨hok, hagent, hagrees⟩ := hphase
    refine ⟨hlen, hok, ?_, hagrees.length_le hlen⟩
    show w.agent ++ q = _
    rw [hagent, hagrees.take_append]
  | agentWriteFail q n =>
    obtain ⟨hok, hagent, hagrees⟩ := hphase
    refine ⟨hlen, ?_, fun hf => by cases hf⟩
    show w.agent ++ q.take n <+: P
    have hpre : P.take w.cs.downDelivered ++ q <+: P := by
      rw [hagrees.take_append]
      exact List.take_prefix _ _
    rw [hagent]
    exact ((List.prefix_append_right_inj _).mpr (List.take_prefix n q)).trans hpre
  | delivered n =>
    obtain ⟨hok, hagent, hle⟩ := hphase
    refine ⟨hle, ?_, fun _ => hagent, fun hf => ?_⟩
    · show w.agent <+: P
      rw [hagent]
      exact List.take_prefix _ _
    · rw [hok] at hf
      cases hf
  | closeAllAgain hdead =>
    exact ⟨hlen, hidle ⟨hphase.1, hphase.2, fun _ => hdead⟩⟩
  | closeAll => exact ⟨hlen, hphase.1, hphase.2, fun _ => rfl⟩
  | _ => exact absurd ⟨rfl, by simp⟩ hq

/-! ## The broker's half -/

namespace BAct

def Sound (P : Bytes) (d : ℕ) : BAct → Prop
  | handleFrame _ m => m.AcksUpTo d
  | act _ a => a.Sound P d
  | reply _ m => Carries P m
  | _ => True

theorem Sound.mono {P P' : Bytes} {d d' : ℕ} {b : BAct} (hP : P <+: P') (hd : d ≤ d')
    (h : b.Sound P d) : b.Sound P' d' := by
  cases b with
  | handleFrame k m => exact Msg.AcksUpTo.mono hd h
  | act o a => exact Act.Sound.mono hP hd h
  | reply k m => exact Carries.mono hP h
  | _ => trivial

def reading : BAct → Bool
  | startDial _ => true
  | act _ a => a.reading
  | _ => false

def chunk : BAct → Bytes
  | act _ a => a.chunk
  | _ => []

end BAct

/-- The one goroutine that reads the destination holds what has been read and not appended. -/
structure Reader (P : Bytes) (buf : ReplayBuffer) (read : Bytes) (created : ℕ)
    (pending : List BAct) : Prop where
  retains : buf.Retains P
  isPrefix : P <+: read
  reading : ∀ b ∈ pending, b.reading = true → read = P ++ b.chunk
  once : (pending.filter BAct.reading).length ≤ created
  unborn : created = 0 → read = []

section Reader
variable {P : Bytes} {buf : ReplayBuffer} {read : Bytes} {created : ℕ} {pending : List BAct}
  {X Y : List BAct} {a : BAct}

theorem Reader.spawn (new : List BAct) (h : Reader P buf read created pending)
    (hnew : ∀ b ∈ new, b.reading = false) :
    Reader P buf read created (pending ++ new) := by
  refine ⟨h.retains, h.isPrefix, ?_, ?_, h.unborn⟩
  · intro b hb hr
    rcases List.mem_append.mp hb with hb | hb
    · exact h.reading b hb hr
    · rw [hnew b hb] at hr
      cases hr
  · rw [List.filter_append, filter_eq_nil_of_false hnew, List.append_nil]
    exact h.once

theorem Reader.replace (push new : List BAct) (h : Reader P buf read created (X ++ a :: Y))
    (hnew : ∀ b ∈ push ++ new, b.reading = true → a.reading = true ∧ b.chunk = a.chunk)
    (hcount : ((push ++ new).filter BAct.reading).length ≤ if a.reading then 1 else 0) :
    Reader P buf read created (X ++ (push ++ Y) ++ new) := by
  -- a goroutine goes on without a change to the stream
  refine ⟨h.retains, h.isPrefix, ?_, ?_, h.unborn⟩
  · intro b hb hr
    by_cases hmem : b ∈ push ++ new
    · obtain ⟨ha, hc⟩ := hnew b hmem hr
      rw [hc]
      exact h.reading a (by simp) ha
    · apply h.reading b _ hr
      simp only [List.mem_append, List.mem_cons] at hb hmem ⊢
      tauto
  · have honce := h.once
    simp only [List.filter_append, List.filter_cons, List.length_append] at honce hcount ⊢
    split_ifs at honce hcount
    · rw [List.length_cons] at honce
      omega
    · omega

theorem Reader.append {push : List BAct} {Q rb : Bytes} {buf' : ReplayBuffer}
    (h : Reader P buf read created (X ++ a :: Y)) (hone : created ≤ 1)
    (hborn : created ≠ 0) (hbuf : buf'.Retains (P ++ Q)) (hQ : Q <+: a.chunk ++ rb)
    (hquiet : a.reading = false → rb = [] ∧ a.chunk = [])
    (hpush : ∀ b ∈ push, b.reading = true → a.reading = true ∧ a.chunk ++ rb = Q ++ b.chunk)
    (hcount : (push.filter BAct.reading).length ≤ if a.reading then 1 else 0) :
    Reader (P ++ Q) buf' (read ++ rb) created (X ++ (push ++ Y)) := by
  -- the session's own goroutines go on, and `Q` is appended to the stream
  by_cases ha : a.reading = true
  · have hread := h.reading a (by simp) ha
    -- no other goroutine reads, so nothing else refers to the old end of the stream
    have hrest := forall_false_of_once (h.once.trans hone) ha
    rw [List.forall_mem_append] at hrest
    refine ⟨hbuf, ?_, ?_, ?_, fun h0 => absurd h0 hborn⟩
    · rw [hread, List.append_assoc]
      exact (List.prefix_append_right_inj P).mpr hQ
    · intro b hb hr
      rw [List.mem_append, List.mem_append] at hb
      rcases hb with hb | hb | hb
      · exact absurd hr (by simp [hrest.1 b hb])
      · rw [hread, List.append_assoc, List.append_assoc, (hpush b hb hr).2]
      · exact absurd hr (by simp [hrest.2 b hb])
    · rw [if_pos ha] at hcount
      rw [List.filter_append, List.filter_append, filter_eq_nil_of_false hrest.1,
        filter_eq_nil_of_false hrest.2, List.nil_append, List.append_nil]
      omega
  · obtain ⟨rfl, hc⟩ := hquiet (by simpa using ha)
    rw [hc, List.append_nil, List.prefix_nil] at hQ
    subst hQ
    rw [List.append_nil] at hbuf
    rw [List.append_nil, List.append_nil]
    have hnone : ∀ b ∈ push, b.reading = false := by
      intro b hb
      by_contra hr
      exact ha (hpush b hb (by simpa using hr)).1
    have hr := Reader.replace push [] ⟨hbuf, h.isPrefix, h.reading, h.once, h.unborn⟩
      (fun b hb hr => by simp [hnone b (by simpa using hb)] at hr) (by simpa using hcount)
    rwa [List.append_nil] at hr

end Reader

namespace BAct

def aside : BAct → Bool
  | handleFrame _ (.ack _ _) | reply _ (.data _ _ _) | startDial _ => false
  | act _ a => a.aside && !a.reading
  | _ => true

theorem sound_of_aside {P : Bytes} {d : ℕ} {b : BAct} (h : b.aside = true) :
    b.Sound P d ∧ b.reading = false := by
  cases b with
  | startDial => cases h
  | handleFrame k m | reply k m => cases m <;> first | exact ⟨trivial, rfl⟩ | cases h
  | act o a =>
    simp only [aside, Bool.and_eq_true, Bool.not_eq_true'] at h
    exact ⟨(Act.sound_of_aside h.1).1, h.2⟩
  | _ => exact ⟨trivial, rfl⟩

end BAct

theorem handle_sound {P : Bytes} {d : ℕ} {k : ConnId} {m : Msg} (hm : m.AcksUpTo d)
    (s : Option ℕ) : ∀ x ∈ handle k m s, x.Sound P d ∧ x.reading = false := by
  intro x hx
  cases m with
  | ack sid offset =>
    cases s with
    | none => cases hx
    | some o =>
      rw [List.mem_singleton.mp hx]
      exact ⟨hm, rfl⟩
  | opn | attach =>
    rw [List.mem_singleton.mp hx]
    exact ⟨trivial, rfl⟩
  | attachOK => cases hx
  | data | close =>
    cases s with
    | none => cases hx
    | some o =>
      rw [List.mem_singleton.mp hx]
      exact ⟨trivial, rfl⟩

theorem BDoes.sound {cfg : Config} {w w' : Core} {a : BAct} {push : List BAct}
    {spawn : List (List BAct)} {P : Bytes} {d : ℕ} (h : BDoes cfg w a w' push spawn)
    (ha : ∀ o b, a ≠ .act o b) (hs : a.Sound P d) (hup : ∀ k, ∀ m ∈ (w.links k).up, m.AcksUpTo d) :
    (∀ x ∈ push ++ spawn.flatten, x.Sound P d) ∧
      (w'.created = w.created → (∀ x ∈ push ++ spawn.flatten, x.reading = false) ∨
        ∃ o, a = .startDial o ∧ push ++ spawn.flatten = [.act o .dial]) := by
  -- what a broker action that does not work on a session hands on; only `openSession` starts a
  -- reader
  have haside : ∀ {l : List BAct}, l.all BAct.aside = true →
      ∀ x ∈ l, x.Sound P d ∧ x.reading = false :=
    fun hl x hx => BAct.sound_of_aside (List.all_eq_true.mp hl x hx)
  have hboth : ∀ {l : List BAct} {p q : Prop}, (∀ x ∈ l, x.Sound P d ∧ x.reading = false) →
      (∀ x ∈ l, x.Sound P d) ∧ (p → (∀ x ∈ l, x.reading = false) ∨ q) :=
    fun hl => ⟨fun x hx => (hl x hx).1, fun _ => .inl fun x hx => (hl x hx).2⟩
  cases h with
  | act o b => exact absurd rfl (ha o b)
  | readFrame k m up hm =>
    apply hboth
    intro x hx
    have hmem : m.AcksUpTo d := hup k m (hm ▸ List.mem_cons_self ..)
    simp only [List.flatten_nil, List.append_nil, List.mem_cons, List.not_mem_nil, or_false] at hx
    rcases hx with rfl | rfl
    · exact ⟨hmem, rfl⟩
    · exact ⟨trivial, rfl⟩
  | handleFrame k m =>
    apply hboth
    rw [List.flatten_nil, List.append_nil]
    exact handle_sound hs _
  | openSession k target =>
    refine ⟨?_, fun hc => absurd hc (Nat.succ_ne_self _)⟩
    intro x hx
    simp only [List.flatten_nil, List.append_nil, List.mem_cons, List.not_mem_nil, or_false] at hx
    rcases hx with rfl | rfl <;> trivial
  | startDial o =>
    refine ⟨?_, fun _ => .inr ⟨o, rfl, rfl⟩⟩
    intro x hx
    rw [List.mem_singleton.mp hx]
    trivial
  | _ => exact hboth (haside rfl)

/-! ## Both halves -/

/-- How the two halves, the frames in flight and the goroutines stand to the stream `P` that the
broker has appended. -/
structure Delivering (P : Bytes) (w : System) : Prop where
  reader : Reader P (w.core.objs 0).s.downBuf (w.core.objs 0).read w.core.created w.pending
  base_le : (w.core.objs 0).s.downBuf.base ≤ w.core.cs.downDelivered
  le_length : w.core.cs.downDelivered ≤ P.length
  down : ∀ k, ∀ m ∈ (w.core.links k).down, Carries P m
  up : ∀ k, ∀ m ∈ (w.core.links k).up, m.AcksUpTo w.core.cs.downDelivered
  tunnel : ∀ a ∈ w.tunnel, a.Sound P w.core.cs.downDelivered
  proxy : ∀ a ∈ w.proxy, a.Sound P w.core.cs.downDelivered
  broker : ∀ b ∈ w.pending, b.Sound P w.core.cs.downDelivered
  tail : ∀ a ∈ w.tunnel.tail, a.delivering = false
  copying : ∀ a ∈ w.proxy, a.copying = true
  phase : Phase P w.core w.tunnel.head?

theorem delivering_start (cfg : Config) : Delivering [] (start cfg) where
  reader := ⟨.new _, List.prefix_rfl, by simp [start, System.pending],
    by simp [start, System.pending], fun _ => rfl⟩
  base_le := le_rfl
  le_length := le_rfl
  down k m hm := by cases hm
  up k m hm := by cases hm
  tunnel := by simp [start, SAct.Sound]
  proxy := by simp [start, SAct.Sound]
  broker := by simp [start, System.pending]
  tail := by simp [start]
  copying := by simp [start, SAct.copying]
  phase := ⟨List.prefix_rfl, fun _ => rfl, fun h => by cases h⟩

section Step
variable {cfg : Config} {P : Bytes} {w w' : System}

theorem SAct.not_delivering_of_copying {a : SAct} (h : a.copying = true) :
    a.delivering = false ∧ ∀ offset p, a ≠ .deliverDown offset p := by
  cases a <;> simp_all [SAct.copying, SAct.delivering]

theorem Delivering.of_sidecar (hI : Delivering P w) {a : SAct} {push : List SAct}
    {spawn : List (List BAct)} (h : SDoes w.core a w'.core push spawn)
    (ha : a.Sound P w.core.cs.downDelivered) (hp : w'.pending = w.pending ++ spawn.flatten)
    (htunnel : ∀ b ∈ w'.tunnel, b ∈ w.tunnel ∨ b ∈ push)
    (hproxy : ∀ b ∈ w'.proxy, b ∈ w.proxy ∨ b ∈ push)
    (hlen : w'.core.cs.downDelivered ≤ P.length)
    (htail : ∀ b ∈ w'.tunnel.tail, b.delivering = false)
    (hcopying : ∀ b ∈ w'.proxy, b.copying = true)
    (hphase : Phase P w'.core w'.tunnel.head?) : Delivering P w' := by
  have hf := h.frame
  have hle := hf.le_delivered
  have hsound := h.sound ha hI.down
  refine ⟨?_, ?_, hlen, ?_, ?_, ?_, ?_, ?_, htail, hcopying, hphase⟩
  · rw [hf.objs, hf.created, hp]
    apply hI.reader.spawn spawn.flatten
    intro b hb
    obtain ⟨k, rfl, -⟩ := hf.spawn b hb
    rfl
  · rw [hf.objs]
    exact hI.base_le.trans hle
  · intro k m hm
    exact ((hf.links k).down m hm).elim (hI.down k m) False.elim
  · intro k m hm
    rcases (hf.links k).up m hm with hm | rfl
    · exact (hI.up k m hm).mono hle
    · exact Msg.AcksUpTo.mono hle ha
  · intro b hb
    exact (htunnel b hb).elim (fun hb => (hI.tunnel b hb).mono List.prefix_rfl hle) (hsound b)
  · intro b hb
    exact (hproxy b hb).elim (fun hb => (hI.proxy b hb).mono List.prefix_rfl hle) (hsound b)
  · intro b hb
    rw [hp, List.mem_append] at hb
    rcases hb with hb | hb
    · exact (hI.broker b hb).mono List.prefix_rfl hle
    · obtain ⟨k, rfl, -⟩ := hf.spawn b hb
      trivial

theorem Delivering.of_broker (hI : Delivering P w) {Q : Bytes} (hcs : w'.core.cs = w.core.cs)
    (hagent : w'.core.agent = w.core.agent) (hok : w'.core.agentOK = w.core.agentOK)
    (htunnel : w'.tunnel = w.tunnel) (hproxy : w'.proxy = w.proxy)
    (hreader : Reader (P ++ Q) (w'.core.objs 0).s.downBuf (w'.core.objs 0).read w'.core.created
      w'.pending)
    (hbase : (w'.core.objs 0).s.downBuf.base ≤ w.core.cs.downDelivered)
    (hdown : ∀ k, ∀ m ∈ (w'.core.links k).down, m ∈ (w.core.links k).down ∨ Carries (P ++ Q) m)
    (hup : ∀ k, ∀ m ∈ (w'.core.links k).up, m ∈ (w.core.links k).up)
    (hbroker : ∀ b ∈ w'.pending, b ∈ w.pending ∨ b.Sound (P ++ Q) w.core.cs.downDelivered) :
    Delivering (P ++ Q) w' := by
  -- a step of the broker, which leaves the sidecar alone
  have hPQ : P <+: P ++ Q := List.prefix_append P Q
  refine ⟨hreader, ?_, ?_, ?_, ?_, ?_, ?_, ?_, ?_, ?_, ?_⟩
  · rwa [hcs]
  · rw [hcs, List.length_append]
    exact hI.le_length.trans (Nat.le_add_right _ _)
  · intro k m hm
    exact (hdown k m hm).elim (fun hm => (hI.down k m hm).mono hPQ) id
  · intro k m hm
    rw [hcs]
    exact hI.up k m (hup k m hm)
  · intro a ha
    rw [htunnel] at ha
    rw [hcs]
    exact (hI.tunnel a ha).mono hPQ le_rfl
  · intro a ha
    rw [hproxy] at ha
    rw [hcs]
    exact (hI.proxy a ha).mono hPQ le_rfl
  · intro b hb
    rw [hcs]
    exact (hbroker b hb).elim (fun hb => (hI.broker b hb).mono hPQ le_rfl) id
  · rw [htunnel]
    exact hI.tail
  · rw [hproxy]
    exact hI.copying
  · rw [htunnel]
    exact (hI.phase.append Q hI.le_length).congr hagent hok (by rw [hcs]) (by rw [hcs])

theorem Delivering.of_act (hI : Delivering P w) (hone : w.core.created ≤ 1) {o : ℕ} {a : Act}
    {c : Choice} {r : Result} {X Y : List BAct} (ho : o < w.core.created)
    (h : Does (w.core.objs o).s a c r) (hcore : w'.core = w.core.objAct o a c r)
    (htunnel : w'.tunnel = w.tunnel) (hproxy : w'.proxy = w.proxy)
    (hp : w.pending = X ++ .act o a :: Y) (hp' : w'.pending = X ++ (r.push.map (.act o) ++ Y)) :
    ∃ Q, Delivering (P ++ Q) w' := by
  obtain rfl : o = 0 := by omega
  have hreader := hI.reader
  have ha : a.Sound P w.core.cs.downDelivered := hI.broker (.act 0 a) (by simp [hp])
  obtain ⟨Q, hQ⟩ := h.streams hreader.retains hI.base_le ha
  have haff := w.core.objAct_affects 0 a c r
  rw [← hcore] at haff
  have hobj : w'.core.objs 0 = (w.core.objs 0).after a c r := by simp [haff.objs]
  have hcreated : w'.core.created = w.core.created := haff.created
  refine ⟨Q, hI.of_broker haff.cs haff.agent haff.agentOK htunnel hproxy ?_ ?_ ?_ ?_ ?_⟩
  · rw [hobj, hcreated, hp']
    rw [hp] at hreader
    refine hreader.append hone (by omega) hQ.retains hQ.chunk ?_ ?_ ?_
    · intro hr
      cases a <;> simp_all [BAct.reading, Act.reading, BAct.chunk, Act.chunk, readBytes]
    · intro x hx hr
      obtain ⟨b, hb, rfl⟩ := List.mem_map.mp hx
      refine ⟨?_, hQ.rest b hb hr⟩
      by_contra hna
      have hb' : b.reading = false := h.reading.2 (by simpa [BAct.reading] using hna) b hb
      rw [show (BAct.act 0 b).reading = b.reading from rfl, hb'] at hr
      cases hr
    · have hlen := h.length_reading
      rw [List.filter_map, List.length_map]
      exact hlen
  · rw [hobj]
    exact hQ.base_le
  · intro k m hm
    exact ((haff.links k).down m hm).imp id (hQ.frames k m)
  · intro k m hm
    exact ((haff.links k).up m hm).elim id False.elim
  · intro x hx
    rw [hp', List.mem_append, List.mem_append] at hx
    rw [hp, List.mem_append, List.mem_cons]
    rcases hx with hx | hx | hx
    · exact .inl (.inl hx)
    · obtain ⟨b, hb, rfl⟩ := List.mem_map.mp hx
      exact .inr (hQ.push b hb)
    · exact .inl (.inr (.inr hx))

theorem Delivering.of_openSession (hI : Delivering P w) (h0 : w.core.created = 0) {k : ConnId}
    {target : Bytes} {b : BAct} {X Y : List BAct}
    (hcore : w'.core = { w.core with
      created := w.core.created + 1,
      objs := Function.update w.core.objs w.core.created (cfg.newObj target),
      sessions := some w.core.created })
    (htunnel : w'.tunnel = w.tunnel) (hproxy : w'.proxy = w.proxy) (hp : w.pending = X ++ b :: Y)
    (hp' : w'.pending =
      X ++ ([.act w.core.created (.bind k), .startDial w.core.created] ++ Y)) :
    Delivering P w' := by
  -- nothing has been read before the first session is made
  have hread := hI.reader.unborn h0
  have hP : P = [] := List.prefix_nil.mp (hread ▸ hI.reader.isPrefix)
  subst hP
  have hobj : w'.core.objs 0 = cfg.newObj target := by simp [hcore, h0]
  have honce := hI.reader.once
  rw [h0, hp, List.filter_append, List.filter_cons, List.length_append] at honce
  have hX : X.filter BAct.reading = [] := List.length_eq_zero_iff.mp (by omega)
  have hY : Y.filter BAct.reading = [] := by
    split_ifs at honce
    · rw [List.length_cons] at honce
      omega
    · exact List.length_eq_zero_iff.mp (by omega)
  refine hI.of_broker (Q := []) (by rw [hcore]) (by rw [hcore]) (by rw [hcore]) htunnel hproxy
    ?_ ?_ ?_ ?_ ?_
  · rw [hobj, hcore, hp']
    refine ⟨.new _, List.prefix_rfl, ?_, ?_, fun h => absurd h (Nat.succ_ne_zero _)⟩
    · intro x hx hr
      simp only [List.mem_append, List.mem_cons, List.not_mem_nil, or_false] at hx
      rcases hx with hx | (rfl | rfl) | hx
      · exact absurd hr (by simpa using List.filter_eq_nil_iff.mp hX x hx)
      · cases hr
      · rfl
      · exact absurd hr (by simpa using List.filter_eq_nil_iff.mp hY x hx)
    · rw [List.filter_append, List.filter_append, hX, hY]
      exact Nat.le_add_left 1 _
  · rw [hobj]
    exact Nat.zero_le _
  · intro j m hm
    rw [hcore] at hm
    exact .inl hm
  · intro j m hm
    rwa [hcore] at hm
  · intro x hx
    rw [hp'] at hx
    rw [hp]
    simp only [List.mem_append, List.mem_cons, List.not_mem_nil, or_false] at hx ⊢
    rcases hx with hx | (rfl | rfl) | hx
    · exact .inl (.inl hx)
    · exact .inr trivial
    · exact .inr trivial
    · exact .inl (.inr (.inr hx))

theorem Delivering.of_frame (hI : Delivering P w) {a : BAct} {X Y push : List BAct}
    {spawn : List (List BAct)} (h : BDoes cfg w.core a w'.core push spawn)
    (hf : BDoes.Frame w.core w'.core a (push ++ spawn.flatten)) (htunnel : w'.tunnel = w.tunnel)
    (hproxy : w'.proxy = w.proxy) (hp : w.pending = X ++ a :: Y)
    (hp' : w'.pending = X ++ (push ++ Y) ++ spawn.flatten) : Delivering P w' := by
  have ha := hI.broker a (by simp [hp])
  obtain ⟨hsound, hread⟩ := h.sound hf.other ha hI.up
  have hreader := hI.reader
  rw [hp] at hreader
  rw [← List.append_nil P] at ⊢ hsound
  refine hI.of_broker hf.cs hf.agent hf.agentOK htunnel hproxy ?_ ?_ ?_ ?_ ?_
  · rw [hf.objs, hf.created, hp', List.append_nil]
    apply hreader.replace push spawn.flatten
    · intro x hx hr
      rcases hread hf.created with hnone | ⟨o, rfl, hnew⟩
      · rw [hnone x hx] at hr
        cases hr
      · rw [hnew] at hx
        rw [List.mem_singleton.mp hx]
        exact ⟨rfl, rfl⟩
    · rcases hread hf.created with hnone | ⟨o, rfl, hnew⟩
      · rw [filter_eq_nil_of_false hnone]
        exact Nat.zero_le _
      · rw [hnew]
        exact List.length_filter_le _ _
  · rw [hf.objs]
    exact hI.base_le
  · intro k m hm
    refine ((hf.links k).down m hm).imp id fun hreply => ?_
    rw [hreply] at ha
    rw [List.append_nil]
    exact ha
  · exact fun k m hm => ((hf.links k).up m hm).elim id False.elim
  · exact fun x hx => (mem_pending_of_replace hp hp' x hx).imp id (hsound x)

theorem Delivering.of_tunnel (hI : Delivering P w) {a : SAct} {rest push : List SAct}
    {spawn : List (List BAct)} (h : SDoes w.core a w'.core push spawn) (ht : w.tunnel = a :: rest)
    (ht' : w'.tunnel = push ++ rest) (hproxy : w'.proxy = w.proxy)
    (hp : w'.pending = w.pending ++ spawn.flatten) : Delivering P w' := by
  have ha : a.Sound P w.core.cs.downDelivered := hI.tunnel a (by simp [ht])
  have hrest : ∀ b ∈ rest, b.delivering = false := fun b hb => hI.tail b (by simpa [ht] using hb)
  have hphase := hI.phase
  rw [ht, List.head?_cons] at hphase
  obtain ⟨hlen, hphase'⟩ := h.phase ha hI.le_length hrest hphase
  rw [← ht'] at hphase'
  refine hI.of_sidecar h ha hp ?_ (fun b hb => .inl (hproxy ▸ hb)) hlen ?_
    (fun b hb => hI.copying b (hproxy ▸ hb)) hphase'
  · intro b hb
    rw [ht', List.mem_append] at hb
    rw [ht, List.mem_cons]
    exact hb.elim .inr fun hb => .inl (.inr hb)
  · intro b hb
    rw [ht'] at hb
    have htail := h.tail
    cases push with
    | nil => exact hrest b (List.mem_of_mem_tail hb)
    | cons x push => exact (List.mem_append.mp hb).elim (htail b) (hrest b)

theorem Delivering.of_proxy (hI : Delivering P w) {a : SAct} {rest push : List SAct}
    {spawn : List (List BAct)} (h : SDoes w.core a w'.core push spawn) (ht : w.proxy = a :: rest)
    (ht' : w'.proxy = push ++ rest) (htunnel : w'.tunnel = w.tunnel)
    (hp : w'.pending = w.pending ++ spawn.flatten) : Delivering P w' := by
  have ha : a.Sound P w.core.cs.downDelivered := hI.proxy a (by simp [ht])
  have hcopy : a.copying = true := hI.copying a (by simp [ht])
  obtain ⟨hnd, hne⟩ := SAct.not_delivering_of_copying hcopy
  obtain ⟨hagent, hok, hdel, hdead, -⟩ := h.quiet hnd hne
  refine hI.of_sidecar h ha hp (fun b hb => .inl (htunnel ▸ hb)) ?_ (hdel ▸ hI.le_length)
    (htunnel ▸ hI.tail) ?_ (htunnel ▸ hI.phase.congr hagent hok hdel hdead)
  · intro b hb
    rw [ht', List.mem_append] at hb
    rw [ht, List.mem_cons]
    exact hb.elim .inr fun hb => .inl (.inr hb)
  · intro b hb
    rw [ht', List.mem_append] at hb
    rcases hb with hb | hb
    · exact h.copying hcopy b hb
    · exact hI.copying b (by simp [ht, hb])

theorem Delivering.of_quiet (hI : Delivering P w) (h : Quiet w w') : Delivering (P ++ []) w' := by
  obtain ⟨b, hb⟩ := h.objs 0
  obtain ⟨ws, hp, hws⟩ := h.pending
  refine hI.of_broker h.cs h.agent h.agentOK h.tunnel h.proxy ?_ ?_ ?_ ?_ ?_
  · rw [hb, h.created, hp, List.append_nil]
    apply hI.reader.spawn ws
    intro x hx
    obtain ⟨o, -, rfl⟩ := hws x hx
    rfl
  · rw [hb]
    exact hI.base_le
  · exact fun k m hm => ((h.links k).down m hm).imp id False.elim
  · exact fun k m hm => ((h.links k).up m hm).elim id False.elim
  · intro x hx
    rw [hp, List.mem_append] at hx
    refine hx.imp id fun hx => ?_
    obtain ⟨o, -, rfl⟩ := hws x hx
    trivial

theorem Delivering.step {e : Event} (hI : Delivering P w) (hK : Keyed w) (hw : w.Alive)
    (h : step cfg w e = some w') : ∃ Q, Delivering (P ++ Q) w' := by
  have hone := hK.created_le_one hw
  have hkeep : ∀ {w'}, Delivering P w' → ∃ Q, Delivering (P ++ Q) w' :=
    fun h => ⟨[], by rwa [List.append_nil]⟩
  cases step_moves h with
  | sidecar _ a push spawn hs hrun hp =>
    rcases hrun with ⟨⟨rest, ht, ht'⟩, hproxy⟩ | ⟨⟨rest, hproxy, hproxy'⟩, ht⟩
    · exact hkeep (hI.of_tunnel hs ht ht' hproxy hp)
    · exact hkeep (hI.of_proxy hs hproxy hproxy' ht hp)
  | quiet _ hq => exact ⟨[], hI.of_quiet hq⟩
  | broker i c a X Y push spawn hn hb ht hproxy hp hp' =>
    rcases hb.cases_session with ⟨k, target, rfl, hs, hcore, rfl, rfl⟩ |
      ⟨o, b, c, r, rfl, hr, hcore, rfl, rfl⟩ | hf
    · rw [List.flatten_nil, List.append_nil] at hp'
      exact hkeep (hI.of_openSession (hK.created_eq_zero hw hs) hcore ht hproxy hp hp')
    · have ho := hK.named (.act o b) (by simp [hp]) o rfl
      rw [List.flatten_nil, List.append_nil] at hp'
      exact hI.of_act hone ho hr hcore ht hproxy hp hp'
    · exact hkeep (hI.of_frame hb hf ht hproxy hp hp')

end Step

theorem delivering_run {cfg : Config} {es : List Event} {w : System}
    (hrun : run (step cfg) (start cfg) es = some w) (hw : w.Alive) : ∃ P, Delivering P w := by
  have hI : Keyed w ∧ (w.Alive → ∃ P, Delivering P w) := by
    refine run_preserves (I := fun w => Keyed w ∧ (w.Alive → ∃ P, Delivering P w)) ?_ ?_ hrun
    · intro w e w' hI hs
      -- a session that is alive now was alive all along
      refine ⟨hI.1.step hs, fun hw' => ?_⟩
      have hw := hw'.of_step hs
      obtain ⟨P, hP⟩ := hI.2 hw
      obtain ⟨Q, hQ⟩ := hP.step hI.1 hw hs
      exact ⟨P ++ Q, hQ⟩
    · exact ⟨keyed_start cfg, fun _ => ⟨[], delivering_start cfg⟩⟩
  exact hI.2 hw

theorem Phase.isPrefix {P : Bytes} {w : Core} {o : Option SAct} (h : Phase P w o) :
    w.agent <+: P ∧ (w.agentOK = true → (∀ n, o ≠ some (.delivered n)) →
      w.agent = P.take w.cs.downDelivered) := by
  have hidle : Idle P w → _ := fun hi =>
    And.intro hi.isPrefix fun hok (_ : ∀ n, o ≠ some (.delivered n)) => hi.exact_of_ok hok
  cases o with
  | none => exact hidle h
  | some a =>
    cases a with
    | agentWrite q => exact ⟨h.2.1 ▸ List.take_prefix _ _, fun _ _ => h.2.1⟩
    | delivered n => exact ⟨h.2.1 ▸ List.take_prefix _ _, fun _ hn => absurd rfl (hn n)⟩
    | closeAll => exact ⟨h.1, fun hok _ => h.2 hok⟩
    | _ => exact hidle h

/-- While no session of the key has been destroyed, the agent has been given a prefix of what the
destination has sent, and the broker can replay the rest. -/
theorem agent_isPrefix_of_alive {cfg : Config} {es : List Event} {w : System}
    (hrun : run (step cfg) (start cfg) es = some w) (hw : w.Alive) :
    w.core.created ≤ 1 ∧ w.core.agent <+: (w.core.objs 0).read ∧
      (w.core.agentOK = true → (∀ n, .delivered n ∉ w.tunnel) →
        w.core.agent = (w.core.objs 0).read.take w.core.cs.downDelivered) ∧
      (w.core.objs 0).s.downBuf.base ≤ w.core.cs.downDelivered ∧
      w.core.cs.downDelivered ≤ (w.core.objs 0).s.downBuf.endOffset ∧
      ∃ r, (w.core.objs 0).s.downBuf.fromOffset w.core.cs.downDelivered = .ok r := by
  obtain ⟨P, hI⟩ := delivering_run hrun hw
  have hreader := hI.reader
  obtain ⟨hpre, hexact⟩ := hI.phase.isPrefix
  have hlen := hI.le_length
  refine ⟨(keyed_run hrun).created_le_one hw, hpre.trans hreader.isPrefix, ?_, hI.base_le, ?_,
    _, hreader.retains.fromOffset hI.base_le hlen⟩
  · intro hok hn
    rw [hexact hok fun n h => hn n (List.mem_of_mem_head? h)]
    obtain ⟨t, ht⟩ := hreader.isPrefix
    rw [← ht, List.take_append_of_le_length hlen]
  · rwa [hreader.retains.endOffset_eq]

def suspendResume : List Event := List.flatten
  -- two bytes of a response are sent, the tunnel is cut before they arrive, and the sidecar
  -- reconnects and gets them from the replay
  [[.tunnel .ok, .proxy .ok, .proxy .ok, .proxy .ok], brokerSteps 0 6, brokerSteps 1 2,
    [.broker 1 (.read [1, 2] none), .broker 1 .ok, .cut 0 0 0, .tunnel (.fail 0 [])],
    tunnelSteps 5, brokerSteps 2 10, tunnelSteps 8, brokerSteps 2 3]

theorem agent_isPrefix_suspendResume : ∃ w, run (step small) (start small) suspendResume = some w ∧
    w.Alive ∧ w.core.agent = [1, 2] ∧ w.core.agent <+: (w.core.objs 0).read := by
  have hrun := (rfl : run (step small) (start small) suspendResume = some _)
  exact ⟨_, hrun, by decide, by decide, (agent_isPrefix_of_alive hrun (by decide)).2.1⟩

end SubstratePoc.Pair
