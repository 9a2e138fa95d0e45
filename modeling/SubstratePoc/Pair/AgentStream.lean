import SubstratePoc.Pair.Delivery
import SubstratePoc.Pair.HalfClose
import SubstratePoc.Pair.Lines

namespace SubstratePoc.Pair
open Lib Tunnel Broker Sidecar

/-- The chunk that an action of the sidecar appends. -/
def Core.appended (w : Core) : SAct → Bytes
  | .writeUp p _ => if w.cs.dead then [] else (w.cs.nextChunk p).1
  | _ => []

/-- The bytes that a step appends to the agent's stream. -/
def produced (w : System) : Event → Bytes
  | .tunnel _ => w.tunnel.head?.elim [] w.core.appended
  | .proxy _ => w.proxy.head?.elim [] w.core.appended
  | _ => []

/-! ## The sidecar -/

/-- What an action sends is a piece of the stream. -/
def SAct.Copies (S : Bytes) : SAct → Prop
  | .send m | .write _ m => Carries S m
  | _ => True

theorem SAct.Copies.mono {S S' : Bytes} {a : SAct} (hS : S <+: S') (h : a.Copies S) :
    a.Copies S' := by
  cases a with
  | send m => exact Carries.mono hS h
  | write k m => exact Carries.mono hS h
  | _ => trivial

theorem carries_onAttachOK {cs : ClientSession} {S : Bytes} (h : cs.upBuf.Retains S) (offset : ℕ) :
    ∀ m ∈ (cs.onAttachOK offset).2, Carries S m := by
  intro m hm
  unfold ClientSession.onAttachOK at hm
  dsimp only at hm
  split at hm
  · cases hm
  · rename_i replay hr
    split_ifs at hm
    · rw [List.mem_singleton.mp hm]
      exact ((h.trimTo offset).agrees_of_fromOffset hr).1
    · cases hm

theorem sexec_writeUp {w w' : Core} {p : Bytes} {err : Option Cause} {c : Choice}
    {push : List SAct} {spawn : List (List BAct)} {S : Bytes}
    (h : sexec w (.writeUp p err) c = some (w', push, spawn)) (hS : w.cs.upBuf.Retains S) :
    w'.cs.upBuf.Retains (S ++ w.appended (.writeUp p err)) ∧
      ∀ b ∈ push, b.Copies (S ++ w.appended (.writeUp p err)) := by
  simp only [sexec] at h
  split_ifs at h with hp hd hf
  · have hnil : w.appended (.writeUp p err) = [] := by
      simp [Core.appended, ClientSession.nextChunk, hp]
    rw [hnil, List.append_nil]
    cases err <;> obtain ⟨rfl, rfl, -⟩ := by
      simpa only [Option.some.injEq, Prod.mk.injEq] using h
    all_goals exact ⟨hS, by simp [SAct.Copies]⟩
  · rw [Core.appended, if_pos hd, List.append_nil]
    cases c with
    | read => cases h
    | _ =>
      obtain ⟨rfl, rfl, -⟩ := by simpa only [Option.some.injEq, Prod.mk.injEq] using h
      exact ⟨hS, by simp [SAct.Copies]⟩
  · rw [Core.appended, if_neg hd]
    obtain ⟨b, hb⟩ := w.cs.upBuf.append_take_free p
    have hb' : w.cs.upBuf.append (w.cs.nextChunk p).1 = some b := hb
    rw [ClientSession.writeUp, hb'] at h
    obtain ⟨rfl, rfl, -⟩ := by
      simpa only [Option.map_some, Option.some.injEq, Prod.mk.injEq] using h
    refine ⟨hS.append hb', ?_⟩
    have hend : (w.cs.nextChunk p).2 = S.length := hS.endOffset_eq
    simp only [List.mem_cons, List.not_mem_nil, or_false, forall_eq_or_imp, forall_eq, SAct.Copies,
      Carries, hend, and_true]
    exact agrees_append S _

def SAct.driving : SAct → Bool
  | .openSession | .readAgent | .writeUp _ _ | .closeUp _ => true
  | _ => false

theorem SAct.of_not_copying {a : SAct} (h : a.copying = false) (S : Bytes) :
    a.Copies S ∧ a.driving = false ∧ a.halfCloses = false := by
  cases a <;> first | exact ⟨trivial, rfl, rfl⟩ | cases h

theorem dispatch_copying (m : Msg) : ∀ b ∈ dispatch m, b.copying = false := by
  cases m <;> simp [dispatch, SAct.copying]

theorem SDoes.not_copying {w w' : Core} {a : SAct} {push : List SAct} {spawn : List (List BAct)}
    (h : SDoes w a w' push spawn) (ha : a.copying = false) : (∀ b ∈ push, b.copying = false) ∨
      (∃ offset, a = .onAttachOK offset ∧ push = (w.cs.onAttachOK offset).2.map .send) ∨
      (∃ k, push = [.write k w.cs.attachFrame]) ∨ ∃ sid n, push = [.send (.ack sid n)] := by
  -- the actions of `readLoop` and `connectOnce` that send nothing themselves
  cases h with
  | connect =>
    left
    intro b hb
    cases hl : w.listed <;> rw [hl] at hb <;> simp at hb
    · rw [hb]; rfl
    · rcases hb with rfl | rfl <;> rfl
  | readFrame k m down hd =>
    left
    intro b hb
    rw [List.mem_append, List.mem_singleton] at hb
    rcases hb with hb | rfl
    · split_ifs at hb
      · exact dispatch_copying m b hb
      · cases hb
    · rfl
  | attachFrame k => exact .inr (.inr (.inl ⟨k, rfl⟩))
  | onAttachOK offset => exact .inr (.inl ⟨offset, rfl, rfl⟩)
  | delivered n => exact .inr (.inr (.inr ⟨_, _, rfl⟩))
  | sendNone | sendSome | writeOk | writeFail | openSession | readAgent | writeUpDone | writeUpDead
    | writeUp | closeUpAgain | closeUp => cases ha
  | _ => exact .inl (by simp [SAct.copying])

theorem SDoes.copies {w w' : Core} {a : SAct} {push : List SAct} {spawn : List (List BAct)}
    {S : Bytes} (h : SDoes w a w' push spawn) (hw : ∀ p err, a ≠ .writeUp p err)
    (hS : w.cs.upBuf.Retains S) (ha : a.Copies S) :
    w'.cs.upBuf.Retains S ∧ ∀ b ∈ push, b.Copies S := by
  -- whatever the sidecar does but `writeUp`, its buffer keeps the stream and what it sends is
  -- a piece of it
  constructor
  · cases h with
    | onAttachOK offset | onUpstreamAck offset => exact hS.trimTo offset
    | writeOk k m =>
      rw [Core.toBroker_eq]
      exact hS
    | writeUp p err => exact absurd rfl (hw p err)
    | _ => exact hS
  · by_cases hc : a.copying = true
    · cases h with
      | writeUpDone | writeUpDead | writeUp => exact absurd rfl (hw _ _)
      | sendSome m k hk => exact fun b hb => List.mem_singleton.mp hb ▸ ha
      | _ => first | (simp [SAct.Copies, Carries]; done) | cases hc
    · intro b hb
      obtain hp | ⟨offset, -, rfl⟩ | ⟨k, rfl⟩ | ⟨sid, n, rfl⟩ := h.not_copying (by simpa using hc)
      · exact (SAct.of_not_copying (hp b hb) S).1
      · obtain ⟨m, hm, rfl⟩ := List.mem_map.mp hb
        exact carries_onAttachOK hS offset m hm
      · rw [List.mem_singleton.mp hb]
        trivial
      · rw [List.mem_singleton.mp hb]
        trivial

theorem sexec_copies {w w' : Core} {a : SAct} {c : Choice} {push : List SAct}
    {spawn : List (List BAct)} {S : Bytes} (h : sexec w a c = some (w', push, spawn))
    (hS : w.cs.upBuf.Retains S) (ha : a.Copies S) :
    w'.cs.upBuf.Retains (S ++ w.appended a) ∧ ∀ b ∈ push, b.Copies (S ++ w.appended a) := by
  by_cases hw : ∃ p err, a = .writeUp p err
  · obtain ⟨p, err, rfl⟩ := hw
    exact sexec_writeUp h hS
  · push Not at hw
    have hnil : w.appended a = [] := by
      cases a with
      | writeUp p err => exact absurd rfl (hw p err)
      | _ => rfl
    rw [hnil, List.append_nil]
    exact (sexec_does h).copies hw hS ha

/-- How an action leads on to `closeUp`: one that does is followed by one that does, until `closeUp`
is done, and only `closeUp` sends the half-close. -/
structure Drives (w w' : Core) (a : SAct) (push : List SAct) : Prop where
  driving : push.countP SAct.driving ≤ if a.driving then 1 else 0
  upClosed : w'.cs.upClosed = w.cs.upClosed ∨
    w'.cs.upClosed = true ∧ a.driving = true ∧ push.countP SAct.driving = 0
  closing : ∀ b ∈ push, b.halfCloses = true → a.halfCloses = true ∨ w'.cs.upClosed = true

theorem SDoes.drives {w w' : Core} {a : SAct} {push : List SAct} {spawn : List (List BAct)}
    (h : SDoes w a w' push spawn) (hw : ∀ p err, a ≠ .writeUp p err) : Drives w w' a push := by
  by_cases hc : a.copying = true
  · cases h with
    | writeUpDone | writeUpDead | writeUp => exact absurd rfl (hw _ _)
    | writeOk k m =>
      rw [Core.toBroker_eq]
      exact ⟨by simp, .inl rfl, by simp⟩
    | sendSome m k hk =>
      refine ⟨by simp [SAct.driving], .inl rfl, fun b hb hh => .inl ?_⟩
      rw [List.mem_singleton.mp hb] at hh
      exact hh
    | closeUp reason => exact ⟨by simp [SAct.driving], .inr ⟨rfl, rfl, rfl⟩, fun _ _ _ => .inr rfl⟩
    | sendNone | writeFail | closeUpAgain => exact ⟨by simp, .inl rfl, by simp⟩
    | openSession | readAgent =>
      exact ⟨by simp [SAct.driving], .inl rfl, by simp [SAct.halfCloses, halfCloses]⟩
    | _ => cases hc
  · have hsame : w'.cs.upClosed = w.cs.upClosed := by
      cases h with
      | writeOk | closeUp => exact absurd rfl hc
      | _ => rfl
    have hpush : ∀ b ∈ push, b.driving = false ∧ b.halfCloses = false := by
      intro b hb
      obtain hp | ⟨offset, -, rfl⟩ | ⟨k, rfl⟩ | ⟨sid, n, rfl⟩ := h.not_copying (by simpa using hc)
      · exact (SAct.of_not_copying (hp b hb) []).2
      · obtain ⟨m, hm, rfl⟩ := List.mem_map.mp hb
        obtain ⟨p, rfl⟩ := ClientSession.eq_data_of_mem_onAttachOK hm
        exact ⟨rfl, rfl⟩
      · rw [List.mem_singleton.mp hb]
        exact ⟨rfl, rfl⟩
      · rw [List.mem_singleton.mp hb]
        exact ⟨rfl, rfl⟩
    have hcount : push.countP SAct.driving = 0 := by
      rw [List.countP_eq_zero]
      exact fun b hb => by simp [(hpush b hb).1]
    exact ⟨by rw [hcount]; exact Nat.zero_le _, .inl hsame,
      fun b hb hh => by rw [(hpush b hb).2] at hh; cases hh⟩

theorem sexec_drives {w w' : Core} {a : SAct} {c : Choice} {push : List SAct}
    {spawn : List (List BAct)} (h : sexec w a c = some (w', push, spawn)) :
    Drives w w' a push := by
  by_cases hw : ∃ p err, a = .writeUp p err
  · obtain ⟨p, err, rfl⟩ := hw
    have hplain : ∀ {b : SAct}, push = [b] → b.halfCloses = false →
        w'.cs.upClosed = w.cs.upClosed → Drives w w' (.writeUp p err) push := by
      rintro b rfl hb hu
      refine ⟨List.countP_le_length, .inl hu, fun x hx hh => ?_⟩
      rw [List.mem_singleton.mp hx, hb] at hh
      cases hh
    simp only [sexec] at h
    split_ifs at h with hp hd hf
    · cases err <;> cases h <;> exact hplain rfl rfl rfl
    · cases c with
      | ok =>
        cases h
        exact ⟨by simp, .inl rfl, by simp⟩
      | fail n text =>
        cases h
        exact hplain rfl rfl rfl
      | read => cases h
    · rcases hb : w.cs.writeUp p with _ | cs
      · rw [hb] at h
        cases h
        exact ⟨by simp, .inl rfl, by simp⟩
      · have hu : cs.upClosed = w.cs.upClosed := by
          obtain ⟨b, -, rfl⟩ := Option.map_eq_some_iff.mp hb
          rfl
        rw [hb] at h
        cases h
        exact ⟨by simp [SAct.driving], .inl hu, by simp [SAct.halfCloses, halfCloses]⟩
  · push Not at hw
    exact (sexec_does h).drives hw

/-! ## Both halves -/

/-- A segment of a line is a piece of the stream, and a mark comes from a closed half. -/
def Piece (S : Bytes) (closed : Bool) : Option (ℕ × Bytes) → Prop
  | some s => Agrees S s.1 s.2
  | none => closed = true

theorem Piece.mono {S S' : Bytes} {closed closed' : Bool} {x : Option (ℕ × Bytes)}
    (h : Piece S closed x) (hS : S <+: S') (hc : closed = true → closed' = true) :
    Piece S' closed' x := by
  cases x with
  | none => exact hc h
  | some s => exact Agrees.mono hS h

theorem piece_of_item {S : Bytes} {closed : Bool} {m : Msg} (hm : Carries S m)
    (hc : halfCloses m = true → closed = true) : ∀ x ∈ item dirUp m, Piece S closed x := by
  intro x hx
  cases m with
  | data sid offset p =>
    rw [List.mem_singleton.mp hx]
    exact hm
  | close sid dir reason =>
    simp only [item] at hx
    split_ifs at hx with hd
    · rw [List.mem_singleton.mp hx]
      exact hc (by simp [halfCloses, hd])
    · cases hx
  | _ => cases hx

/-- The stream `S` that `writeUp` has appended, on its way to the destination. -/
structure Streamed (S : Bytes) (w : System) : Prop where
  loops : Loops w
  retains : w.core.cs.upBuf.Retains S
  sends : ∀ a ∈ w.tunnel ++ w.proxy, a.Copies S
  tunnel : w.tunnel.countP SAct.driving = 0
  proxy : w.proxy.countP SAct.driving ≤ if w.core.cs.upClosed then 0 else 1
  closing : ∀ a ∈ w.tunnel ++ w.proxy, a.halfCloses = true → w.core.cs.upClosed = true
  lines : ∀ t ∈ w.threads, ∀ x ∈ line w.core t, Piece S w.core.cs.upClosed x
  applied : ∀ o, .act o .closeWrite ∈ w.pending → w.core.cs.upClosed = true

theorem streamed_start (cfg : Config) : Streamed [] (start cfg) where
  loops := loops_start cfg
  retains := .new _
  sends := by simp [start, SAct.Copies]
  tunnel := rfl
  proxy := by simp [start, newClientSession, SAct.driving]
  closing := by simp [start, SAct.halfCloses]
  lines t ht := by cases ht
  applied o ho := by cases ho

section Step
variable {cfg : Config} {S : Bytes} {w w' : System} {e : Event}

theorem System.mem_of_writes {k : ConnId} {m : Msg} (h : w.writes k m e) :
    .write k m ∈ w.tunnel ++ w.proxy := by
  cases e with
  | tunnel c => exact List.mem_append_left _ (List.mem_of_mem_head? h.1)
  | proxy c => exact List.mem_append_right _ (List.mem_of_mem_head? h.1)
  | _ => cases h

theorem Streamed.of_advance (hI : Streamed S w) {l : List (Option (ℕ × Bytes))}
    (h : Advance w e l) : ∀ x ∈ l, Piece S w.core.cs.upClosed x := by
  cases h with
  | empty h => simp [h]
  | kept t ht h => exact fun x hx => hI.lines t ht x (h.subset hx)
  | written t ht k hk m he h =>
    have hmem := System.mem_of_writes he
    intro x hx
    rw [h, List.mem_append] at hx
    exact hx.elim (hI.lines t ht x) (piece_of_item (hI.sends _ hmem) (hI.closing _ hmem) x)
  | taken t ht x he h =>
    intro y hy
    exact hI.lines t ht y (h ▸ List.mem_cons_of_mem x hy)

theorem Does.closeWrite_mem {s : Session} {a : Act} {c : Choice} {r : Result} (h : Does s a c r)
    (hm : .closeWrite ∈ r.push) : a = .onSidecarClose dirUp ∧ s.upstream = true := by
  cases h with
  | closeUp c hu => exact ⟨rfl, hu⟩
  | produceDone after => cases after <;> simp [After.acts] at hm
  | _ => simp at hm

theorem BDoes.closeWrite {cw cw' : Core} {a : BAct} {push : List BAct} {spawn : List (List BAct)}
    (h : BDoes cfg cw a cw' push spawn) {o : ℕ}
    (hm : .act o .closeWrite ∈ push ++ spawn.flatten) :
    a = .act o (.onSidecarClose dirUp) ∧ (cw.objs o).s.upstream = true := by
  cases h with
  | act j b c r hr =>
    simp only [List.flatten_nil, List.append_nil, List.mem_map, BAct.act.injEq] at hm
    obtain ⟨x, hx, rfl, rfl⟩ := hm
    obtain ⟨rfl, hu⟩ := Does.closeWrite_mem hr hx
    exact ⟨rfl, hu⟩
  | handleFrame k m => cases m <;> cases hs : cw.sessions <;> simp [handle, hs] at hm
  | _ => simp at hm

theorem closeWrite_step (h : step cfg w e = some w') {o : ℕ}
    (ho : .act o .closeWrite ∈ w'.pending) : .act o .closeWrite ∈ w.pending ∨
      ∃ i c, e = .broker i c ∧ w.next i = some (.act o (.onSidecarClose dirUp)) ∧
        (w.core.objs o).s.upstream = true := by
  cases step_moves h with
  | sidecar _ a push spawn hs hrun hp =>
    rw [hp, List.mem_append] at ho
    refine ho.imp id fun ho => ?_
    obtain ⟨k, hk, -⟩ := hs.frame.spawn _ ho
    cases hk
  | quiet _ hq =>
    obtain ⟨ws, hp, hws⟩ := hq.pending
    rw [hp, List.mem_append] at ho
    refine ho.imp id fun ho => ?_
    obtain ⟨j, -, hj⟩ := hws _ ho
    cases hj
  | broker i c a X Y push spawn hn hb ht hproxy hp hp' =>
    refine (mem_pending_of_replace hp hp' _ ho).imp id fun ho => ?_
    obtain ⟨rfl, hu⟩ := hb.closeWrite ho
    exact ⟨i, c, rfl, hn, hu⟩

theorem System.line_of_next {i o : ℕ} (hn : w.next i = some (.act o (.onSidecarClose dirUp))) :
    ∃ t ∈ w.threads, ∃ l, line w.core t = none :: l := by
  obtain ⟨t, ht, hhead⟩ := Option.bind_eq_some_iff.mp hn
  obtain ⟨rest, rfl⟩ := List.head?_eq_some_iff.mp hhead
  exact ⟨_, List.mem_of_getElem? ht, line w.core rest, rfl⟩

theorem Streamed.upClosed_of_closeWrite (hI : Streamed S w) (h : Pair.step cfg w e = some w') {o : ℕ}
    (ho : .act o .closeWrite ∈ w'.pending) : w.core.cs.upClosed = true := by
  obtain ho | ⟨i, c, -, hn, -⟩ := closeWrite_step h ho
  · exact hI.applied o ho
  · obtain ⟨t, ht, l, hl⟩ := System.line_of_next hn
    exact hI.lines t ht none (by rw [hl]; exact List.mem_cons_self ..)

theorem Streamed.of_sidecar {a : SAct} {c : Choice} {push : List SAct} {spawn : List (List BAct)}
    (hI : Streamed S w) (hstep : step cfg w e = some w')
    (h : sexec w.core a c = some (w'.core, push, spawn))
    (hrun : Runs w.tunnel w'.tunnel a push ∧ w'.proxy = w.proxy ∨
      Runs w.proxy w'.proxy a push ∧ w'.tunnel = w.tunnel) :
    Streamed (S ++ w.core.appended a) w' := by
  obtain ⟨hmem, hside⟩ := side_of_runs hrun
  obtain ⟨hret, hpush⟩ := sexec_copies h hI.retains (hI.sends a hmem)
  have hd := sexec_drives h
  have hpre : S <+: S ++ w.core.appended a := List.prefix_append _ _
  have hmono : w.core.cs.upClosed = true → w'.core.cs.upClosed = true := by
    intro hu
    rcases hd.upClosed with heq | ⟨heq, -⟩
    · exact heq.trans hu
    · exact heq
  have hcount : w'.tunnel.countP SAct.driving = 0 ∧
      w'.proxy.countP SAct.driving ≤ if w'.core.cs.upClosed then 0 else 1 := by
    have ht := hI.tunnel
    have hp := hI.proxy
    have hb := hd.driving
    rcases hrun with ⟨⟨rest, hw, hw'⟩, hproxy⟩ | ⟨⟨rest, hw, hw'⟩, htunnel⟩
    · rw [hw, List.countP_cons] at ht
      rw [hw', hproxy, List.countP_append]
      have hna : ¬a.driving = true := by
        intro h
        rw [if_pos h] at ht
        omega
      rw [if_neg hna] at ht hb
      obtain hu | ⟨-, hdr, -⟩ := hd.upClosed
      · rw [hu]
        exact ⟨by omega, hp⟩
      · exact absurd hdr hna
    · rw [hw, List.countP_cons] at hp
      rw [hw', htunnel, List.countP_append]
      refine ⟨ht, ?_⟩
      obtain hu | ⟨hu, hdr, hnone⟩ := hd.upClosed
      · rw [hu]
        omega
      · rw [if_pos hdr] at hp
        rw [if_pos hu]
        split_ifs at hp <;> omega
  refine ⟨hI.loops.step hstep, hret, ?_, hcount.1, hcount.2, ?_, ?_, ?_⟩
  · exact fun b hb => (hside b hb).elim (fun hb => (hI.sends b hb).mono hpre) (hpush b)
  · intro b hb hh
    rcases hside b hb with hb | hb
    · exact hmono (hI.closing b hb hh)
    · exact (hd.closing b hb hh).elim (fun ha => hmono (hI.closing a hmem ha)) id
  · intro t ht x hx
    exact (hI.of_advance (hI.loops.advance hstep ht) x hx).mono hpre hmono
  · exact fun o ho => hmono (hI.upClosed_of_closeWrite hstep ho)

theorem Streamed.of_cs (hI : Streamed S w) (hstep : step cfg w e = some w')
    (hcs : w'.core.cs = w.core.cs) (ht : w'.tunnel = w.tunnel) (hp : w'.proxy = w.proxy) :
    Streamed (S ++ []) w' := by
  rw [List.append_nil]
  refine ⟨hI.loops.step hstep, ?_, ?_, ?_, ?_, ?_, ?_, ?_⟩
  · rw [hcs]
    exact hI.retains
  · rw [ht, hp]
    exact hI.sends
  · rw [ht]
    exact hI.tunnel
  · rw [hp, hcs]
    exact hI.proxy
  · rw [ht, hp, hcs]
    exact hI.closing
  · rw [hcs]
    exact fun t ht => hI.of_advance (hI.loops.advance hstep ht)
  · rw [hcs]
    exact fun o ho => hI.upClosed_of_closeWrite hstep ho

theorem Streamed.step (hI : Streamed S w) (h : Pair.step cfg w e = some w') :
    Streamed (S ++ produced w e) w' := by
  cases e with
  | tunnel c =>
    obtain ⟨a, rest, push, spawn, ht, hr, ht', hp, hts⟩ := step_tunnel h
    have hS := hI.of_sidecar h hr (.inl ⟨⟨rest, ht, ht'⟩, hp⟩)
    rwa [produced, ht]
  | proxy c =>
    obtain ⟨a, rest, push, spawn, hp, hr, hp', ht, hts⟩ := step_proxy h
    have hS := hI.of_sidecar h hr (.inr ⟨⟨rest, hp, hp'⟩, ht⟩)
    rwa [produced, hp]
  | broker i c =>
    obtain ⟨a, -, -, push, spawn, -, hr, -, -, ht, hp⟩ := step_bexec h
    exact hI.of_cs h (bexec_does hr).sidecar_eq.1 ht hp
  | fire o =>
    have hq := step_fire h
    exact hI.of_cs h hq.cs hq.tunnel hq.proxy
  | cut k m n =>
    have hq := step_cut h
    exact hI.of_cs h hq.cs hq.tunnel hq.proxy

theorem Streamed.produced_eq_nil (hI : Streamed S w) (hu : w.core.cs.upClosed = true) (e : Event) :
    produced w e = [] := by
  have happ : ∀ t : List SAct, t.countP SAct.driving = 0 → t.head?.elim [] w.core.appended = [] := by
    intro t ht
    cases t with
    | nil => rfl
    | cons a rest =>
      cases a with
      | writeUp p err => simp [SAct.driving] at ht
      | _ => rfl
  have hproxy := hI.proxy
  rw [if_pos hu, Nat.le_zero] at hproxy
  cases e with
  | tunnel c => exact happ _ hI.tunnel
  | proxy c => exact happ _ hproxy
  | _ => rfl

end Step

end SubstratePoc.Pair
