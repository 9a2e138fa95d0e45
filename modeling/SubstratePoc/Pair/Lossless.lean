import SubstratePoc.Pair.Protocol

namespace SubstratePoc.Protocol
open Lib Tunnel Broker Sidecar
open Pair (Config)

def isOpen : Msg → Bool
  | .opn _ _ => true
  | _ => false

def answers : Msg → Bool
  | .attachOK _ _ => true
  | _ => false

def Within (n : ℕ) : Msg → Prop
  | .data _ offset p => offset + p.length ≤ n
  | _ => True

/-- What a frame of the sidecar says of the bytes it has delivered. -/
def Reports (n : ℕ) : Msg → Prop
  | .ack _ offset => offset ≤ n
  | .attach _ offset _ => offset = n
  | _ => True

/-- What a frame of the broker says of the bytes it has written. -/
def Confirms (n : ℕ) : Msg → Prop
  | .ack _ offset | .attachOK _ offset => offset ≤ n
  | _ => True

theorem Within.mono {n n' : ℕ} (hn : n ≤ n') {m : Msg} (h : Within n m) : Within n' m := by
  cases m with
  | data sid offset p => exact le_trans (b := n) h hn
  | _ => trivial

theorem Confirms.mono {n n' : ℕ} (hn : n ≤ n') {m : Msg} (h : Confirms n m) : Confirms n' m := by
  cases m with
  | ack sid offset => exact le_trans (b := n) h hn
  | attachOK sid offset => exact le_trans (b := n) h hn
  | _ => trivial

theorem Reports.mono {n n' : ℕ} (hn : n ≤ n') {m : Msg} (hm : m.asks = false) (h : Reports n m) :
    Reports n' m := by
  cases m with
  | ack sid offset => exact le_trans (b := n) h hn
  | attach sid offset target => cases hm
  | _ => trivial

theorem spliceAll_segments_le {w n : ℕ} {ms : List Msg} (hw : w ≤ n) (hms : ∀ m ∈ ms, Within n m) :
    spliceAll w (segments ms) ≤ n := by
  apply spliceAll_le hw
  intro x hx
  obtain ⟨sid, hmem⟩ := mem_segments.mp hx
  exact hms _ hmem

theorem segments_eq_nil {ms : List Msg} (h : ∀ m ∈ ms, m.segment = none) : segments ms = [] :=
  List.filterMap_eq_nil_iff.mpr h

/-! ## Downstream -/

/-- The sidecar has delivered `n` bytes, `b` is the broker's buffer.  Once the broker has handled
the ATTACH, the frames in flight lead to the end of the buffer. -/
structure Downstream (handled : Bool) (up down : List Msg) (n : ℕ) (b : ReplayBuffer) : Prop where
  base_le : b.base ≤ n
  le_end : n ≤ b.endOffset
  within : ∀ m ∈ down, Within b.endOffset m
  reports : ∀ m ∈ up, Reports n m
  complete : handled = true → spliceAll n (segments down) = b.endOffset

namespace Downstream

variable {handled : Bool} {up up' down ms : List Msg} {m : Msg} {n : ℕ} {b b' : ReplayBuffer}

theorem deliver {sid : UInt64} {offset : ℕ} {p : Bytes}
    (h : Downstream true up (.data sid offset p :: down) n b)
    (hup : ∀ m ∈ up', Reports (splice n offset p) m) :
    Downstream true up' down (splice n offset p) b := by
  have hc : spliceAll (splice n offset p) (segments down) = b.endOffset := h.complete rfl
  refine ⟨h.base_le.trans (le_splice _ _ _), ?_, (List.forall_mem_cons.mp h.within).2, hup,
    fun _ => hc⟩
  exact hc ▸ le_spliceAll _ _

theorem pop (h : Downstream handled up (m :: down) n b) (hm : m.segment = none) :
    Downstream handled up down n b := by
  refine ⟨h.base_le, h.le_end, (List.forall_mem_cons.mp h.within).2, h.reports, fun hh => ?_⟩
  rw [← h.complete hh]
  simp [segments, hm]

theorem append (h : Downstream handled up down n b) (hms : ∀ m ∈ ms, m.segment = none) :
    Downstream handled up (down ++ ms) n b := by
  refine ⟨h.base_le, h.le_end, ?_, h.reports, fun hh => ?_⟩
  · rw [List.forall_mem_append]
    refine ⟨h.within, fun m hm => ?_⟩
    cases m with
    | data sid offset p => exact absurd (hms _ hm) (by simp [Msg.segment])
    | _ => trivial
  · rw [segments_append, segments_eq_nil hms, List.append_nil, h.complete hh]

theorem produce {p : Bytes} (h : Downstream handled up down n b) (hb : b.append p = some b')
    (sid : UInt64) : Downstream handled up
      (if handled then down ++ [.data sid b.endOffset p] else down) n b' := by
  have hend := ReplayBuffer.endOffset_append hb
  have hwithin : ∀ m ∈ down, Within b'.endOffset m := fun m hm =>
    (h.within m hm).mono (by omega)
  refine ⟨(ReplayBuffer.append_eq_some hb).1 ▸ h.base_le, by have := h.le_end; omega, ?_,
    h.reports, fun hh => ?_⟩
  · split_ifs
    · rw [List.forall_mem_append, List.forall_mem_singleton]
      exact ⟨hwithin, hend.ge⟩
    · exact hwithin
  · rw [if_pos hh, segments_append, spliceAll_append, h.complete hh, hend]
    exact splice_self _ _

theorem trim {sid : UInt64} {offset : ℕ} (h : Downstream handled (.ack sid offset :: up) down n b) :
    Downstream handled up down n (b.trimTo offset) := by
  obtain ⟨hle, hup⟩ := List.forall_mem_cons.mp h.reports
  have hle : offset ≤ n := hle
  have hbase := h.base_le
  refine ⟨?_, ?_, ?_, hup, ?_⟩
  · rw [ReplayBuffer.base_trimTo]
    omega
  · rw [ReplayBuffer.endOffset_trimTo]
    exact h.le_end
  · rw [ReplayBuffer.endOffset_trimTo]
    exact h.within
  · rw [ReplayBuffer.endOffset_trimTo]
    exact h.complete

theorem cut (h : Downstream handled up down n b) : Downstream false [] [] n b :=
  ⟨h.base_le, h.le_end, by simp, by simp, by simp⟩

end Downstream

/-! ## Upstream -/

/-- The agent bytes the broker holds and those in flight are all there are: its answer to the
ATTACH has been handled, or its OPEN is still on the way. -/
def synced (handled : Bool) (up down : List Msg) : Bool :=
  (handled && !down.any answers) || up.head?.any isOpen

/-- The broker has taken `t` bytes and written `n` of them, `b` is the sidecar's buffer. -/
structure Upstream (handled : Bool) (up down : List Msg) (t n : ℕ) (b : ReplayBuffer) : Prop where
  base_le : b.base ≤ n
  written_le : n ≤ t
  taken_le : t ≤ b.endOffset
  within : ∀ m ∈ up, Within b.endOffset m
  confirms : ∀ m ∈ down, Confirms n m
  /-- an ATTACH_OK is the first frame of its connection, so no ACK has trimmed what it asks for -/
  base_le_head : ∀ sid offset, down.head? = some (.attachOK sid offset) → b.base ≤ offset
  answers_tail : ∀ m ∈ down.tail, answers m = false
  isOpen_tail : ∀ m ∈ up.tail, isOpen m = false
  complete : synced handled up down = true → spliceAll t (segments up) = b.endOffset

theorem mem_tail_append {α : Type*} {l l' : List α} {x : α} (h : x ∈ (l ++ l').tail) :
    x ∈ l.tail ∨ x ∈ l' := by
  cases l with
  | nil => exact .inr (List.mem_of_mem_tail h)
  | cons a l => exact List.mem_append.mp h

theorem any_isOpen_eq_false {ms : List Msg} (hms : ∀ m ∈ ms, isOpen m = false) :
    ms.head?.any isOpen = false := by
  cases ms with
  | nil => rfl
  | cons m ms => exact hms m (List.mem_cons_self ..)

theorem any_isOpen_append {up ms : List Msg} (hms : ∀ m ∈ ms, isOpen m = false) :
    (up ++ ms).head?.any isOpen = up.head?.any isOpen := by
  cases up with
  | nil => exact any_isOpen_eq_false hms
  | cons m up => rfl

theorem any_answers_append {down ms : List Msg} (hms : ∀ m ∈ ms, answers m = false) :
    (down ++ ms).any answers = down.any answers := by
  have hany : ms.any answers = false := List.any_eq_false.mpr (by simpa using hms)
  rw [List.any_append, hany, Bool.or_false]

namespace Upstream

variable {handled : Bool} {up down ms : List Msg} {m : Msg} {t n : ℕ} {b b' : ReplayBuffer}

theorem isOpen_append (h : Upstream handled up down t n b) (hms : ∀ m ∈ ms, isOpen m = false) :
    ∀ m ∈ (up ++ ms).tail, isOpen m = false := by
  intro m hm
  obtain hm | hm := mem_tail_append hm
  · exact h.isOpen_tail m hm
  · exact hms m hm

theorem spliceAll_le_end (h : Upstream handled up down t n b) :
    spliceAll t (segments up) ≤ b.endOffset := spliceAll_segments_le h.taken_le h.within

theorem write {p : Bytes} (h : Upstream handled up down t n b) (hb : b.append p = some b')
    (sid : UInt64) : Upstream handled (up ++ [.data sid b.endOffset p]) down t n b' := by
  have hend := ReplayBuffer.endOffset_append hb
  have hbase := (ReplayBuffer.append_eq_some hb).1
  refine ⟨hbase ▸ h.base_le, h.written_le, by have := h.taken_le; omega, ?_, h.confirms,
    fun sid o ho => hbase ▸ h.base_le_head sid o ho, h.answers_tail, h.isOpen_append (by simp [isOpen]),
    fun hs => ?_⟩
  · rw [List.forall_mem_append, List.forall_mem_singleton]
    exact ⟨fun m hm => (h.within m hm).mono (by omega), hend.ge⟩
  · have hs' : synced handled up down = true := by
      rwa [synced, any_isOpen_append (by simp [isOpen])] at hs
    rw [segments_append, spliceAll_append, h.complete hs', hend]
    exact splice_self _ _

theorem buffer {p : Bytes} (h : Upstream handled up down t n b) (hb : b.append p = some b')
    (hs : synced handled up down = false) : Upstream handled up down t n b' := by
  have hend := ReplayBuffer.endOffset_append hb
  have hbase := (ReplayBuffer.append_eq_some hb).1
  refine ⟨hbase ▸ h.base_le, h.written_le, by have := h.taken_le; omega, fun m hm => ?_, h.confirms,
    fun sid o ho => hbase ▸ h.base_le_head sid o ho, h.answers_tail, h.isOpen_tail, fun hs' => ?_⟩
  · exact (h.within m hm).mono (by omega)
  · rw [hs] at hs'
    cases hs'

theorem append (h : Upstream handled up down t n b)
    (hms : ∀ m ∈ ms, m.segment = none ∧ isOpen m = false) :
    Upstream handled (up ++ ms) down t n b := by
  have hopen : ∀ m ∈ ms, isOpen m = false := fun m hm => (hms m hm).2
  refine { h with within := ?_, isOpen_tail := h.isOpen_append hopen, complete := fun hs => ?_ }
  · rw [List.forall_mem_append]
    refine ⟨h.within, fun m hm => ?_⟩
    cases m with
    | data sid offset p => exact absurd (hms _ hm).1 (by simp [Msg.segment])
    | _ => trivial
  · rw [synced, any_isOpen_append hopen] at hs
    rw [segments_append, segments_eq_nil fun m hm => (hms m hm).1, List.append_nil, h.complete hs]

theorem confirm (h : Upstream handled up down t n b)
    (hms : ∀ m ∈ ms, Confirms n m ∧ answers m = false) :
    Upstream handled up (down ++ ms) t n b := by
  have hanswers : ∀ m ∈ ms, answers m = false := fun m hm => (hms m hm).2
  refine { h with confirms := ?_, base_le_head := ?_, answers_tail := ?_, complete := fun hs => ?_ }
  · rw [List.forall_mem_append]
    exact ⟨h.confirms, fun m hm => (hms m hm).1⟩
  · intro sid offset hhead
    cases hd : down with
    | nil =>
      rw [hd, List.nil_append] at hhead
      have := hanswers _ (List.mem_of_mem_head? hhead)
      cases this
    | cons m down =>
      rw [hd] at hhead
      exact h.base_le_head sid offset (hd ▸ hhead)
  · intro m hm
    obtain hm | hm := mem_tail_append hm
    · exact h.answers_tail m hm
    · exact hanswers m hm
  · rw [synced, any_answers_append hanswers] at hs
    exact h.complete hs

theorem flush {n' : ℕ} (h : Upstream handled up down t n b) (hn : n ≤ n') (ht : n' ≤ t) :
    Upstream handled up down t n' b :=
  { h with
    base_le := h.base_le.trans hn
    written_le := ht
    confirms := fun m hm => (h.confirms m hm).mono hn }

theorem take {n' : ℕ} {sid : UInt64} {offset : ℕ} {p : Bytes}
    (h : Upstream handled (.data sid offset p :: up) down t n b) (hn : n ≤ n')
    (ht : n' ≤ splice t offset p) : Upstream handled up down (splice t offset p) n' b := by
  have hle := h.spliceAll_le_end
  refine { h with
    base_le := h.base_le.trans hn
    written_le := ht
    taken_le := (le_spliceAll _ _).trans hle
    within := (List.forall_mem_cons.mp h.within).2
    confirms := fun m hm => (h.confirms m hm).mono hn
    isOpen_tail := fun m hm => h.isOpen_tail m (List.mem_of_mem_tail hm)
    complete := fun hs => ?_ }
  apply h.complete
  -- an OPEN would have been the first frame
  have hopen : up.head?.any isOpen = false := any_isOpen_eq_false h.isOpen_tail
  rwa [synced, hopen] at hs

theorem pop (h : Upstream handled (m :: up) down t n b)
    (hm : synced handled (m :: up) down = true → m.segment = none) :
    Upstream handled up down t n b := by
  refine { h with
    within := (List.forall_mem_cons.mp h.within).2
    isOpen_tail := fun m hm => h.isOpen_tail m (List.mem_of_mem_tail hm)
    complete := fun hs => ?_ }
  have hopen : up.head?.any isOpen = false := any_isOpen_eq_false h.isOpen_tail
  have hs' : synced handled (m :: up) down = true := by
    rw [synced, hopen, Bool.or_false] at hs
    rw [synced, hs, Bool.true_or]
  rw [← h.complete hs']
  simp [segments, hm hs']

theorem skip (h : Upstream handled up (m :: down) t n b) (hm : answers m = false) :
    Upstream handled up down t n b := by
  have hany : down.any answers = false := List.any_eq_false.mpr (by simpa using h.answers_tail)
  refine { h with
    confirms := (List.forall_mem_cons.mp h.confirms).2
    base_le_head := fun sid offset hhead => ?_
    answers_tail := fun m hm => h.answers_tail m (List.mem_of_mem_tail hm)
    complete := fun hs => h.complete ?_ }
  · have := h.answers_tail _ (List.mem_of_mem_head? hhead)
    cases this
  · simpa [synced, hm] using hs

theorem trimmed {offset : ℕ} (h : Upstream handled up down t n b) (hle : offset ≤ n)
    (hdown : ∀ m ∈ down, answers m = false) : Upstream handled up down t n (b.trimTo offset) := by
  have hbase := h.base_le
  have hend := ReplayBuffer.endOffset_trimTo b offset
  refine { h with
    base_le := ?_
    taken_le := hend ▸ h.taken_le
    within := hend ▸ h.within
    base_le_head := fun sid o hhead => ?_
    complete := hend ▸ h.complete }
  · rw [ReplayBuffer.base_trimTo]
    omega
  · have := hdown _ (List.mem_of_mem_head? hhead)
    cases this

theorem trim {sid : UInt64} {offset : ℕ} (h : Upstream handled up (.ack sid offset :: down) t n b) :
    Upstream handled up down t n (b.trimTo offset) := by
  apply (h.skip rfl).trimmed _ h.answers_tail
  exact (List.forall_mem_cons.mp h.confirms).1

theorem replay {sid sid' : UInt64} {offset : ℕ}
    (h : Upstream true up (.attachOK sid offset :: down) t n b) :
    Upstream true (up ++ if offset < b.endOffset then
      [.data sid' offset (b.buf.drop (offset - b.base))] else []) down t n (b.trimTo offset) := by
  -- the sidecar handles an ATTACH_OK and sends again what follows its offset
  have hbase : b.base ≤ offset := h.base_le_head sid offset rfl
  have hle : offset ≤ n := (List.forall_mem_cons.mp h.confirms).1
  have hlen : offset < b.endOffset →
      offset + (b.buf.drop (offset - b.base)).length = b.endOffset := by
    intro hlt
    rw [ReplayBuffer.length_drop_base hbase, Nat.add_sub_cancel' hlt.le]
  -- what was in flight leads to some point between the offset and the end, the replay to the end
  have hpos := le_spliceAll t (segments up)
  have hlast := h.spliceAll_le_end
  have hn := h.written_le
  apply trimmed _ hle h.answers_tail
  refine ⟨h.base_le, h.written_le, h.taken_le, ?_, (List.forall_mem_cons.mp h.confirms).2,
    fun sid o hhead => ?_, fun m hm => h.answers_tail m (List.mem_of_mem_tail hm),
    h.isOpen_append ?_, fun _ => ?_⟩
  · rw [List.forall_mem_append]
    refine ⟨h.within, ?_⟩
    split_ifs with hlt
    · rw [List.forall_mem_singleton]
      exact (hlen hlt).le
    · simp
  · have := h.answers_tail _ (List.mem_of_mem_head? hhead)
    cases this
  · split_ifs <;> simp [isOpen]
  · rw [segments_append, spliceAll_append]
    split_ifs with hlt
    · have h1 := hlen hlt
      show splice (spliceAll t (segments up)) offset (b.buf.drop (offset - b.base)) = _
      rw [splice_cover (by omega) (by omega), h1]
    · show spliceAll t (segments up) = _
      omega

theorem cut (h : Upstream handled up down t n b) : Upstream false [] [] t n b := by
  refine ⟨h.base_le, h.written_le, h.taken_le, by simp, by simp, by simp, by simp, by simp,
    fun hs => ?_⟩
  cases hs

theorem opened {sid : UInt64} {target : Bytes} (h : Upstream false (.opn sid target :: up) [] t n b) :
    Upstream true up [] t n b := by
  refine { h with
    within := (List.forall_mem_cons.mp h.within).2
    isOpen_tail := fun m hm => h.isOpen_tail m (List.mem_of_mem_tail hm)
    complete := fun _ => h.complete rfl }

end Upstream

/-! ## The answer to an ATTACH -/

theorem sendable_onSidecarAttach {s : Session} {d : ℕ} (h1 : s.downBuf.base ≤ d)
    (h2 : d ≤ s.downBuf.endOffset) (hfit : s.downBuf.endOffset - d ≤ maxPayload) :
    ∀ m ∈ s.onSidecarAttach d, m.Sendable := by
  have hlen : (s.downBuf.buf.drop (d - s.downBuf.base)).length ≤ maxPayload := by
    rwa [ReplayBuffer.length_drop_base h1]
  rw [onSidecarAttach_eq h1 h2]
  simp only [List.forall_mem_append, List.forall_mem_singleton]
  refine ⟨⟨rfl, ?_⟩, ?_⟩
  · split_ifs
    · rw [List.forall_mem_singleton]
      exact Msg.sendable_data.mpr hlen
    · simp
  · split_ifs
    · rw [List.forall_mem_singleton]
      rfl
    · simp

theorem Downstream.attached {up : List Msg} {s : Session} {d n : ℕ} {sid : UInt64} {target : Bytes}
    (h : Downstream false (.attach sid d target :: up) [] n s.downBuf) :
    Downstream true up (s.onSidecarAttach d) n s.downBuf := by
  -- the broker answers with the rest of its buffer
  obtain ⟨hd, hup⟩ := List.forall_mem_cons.mp h.reports
  obtain rfl : d = n := hd
  have hle := h.le_end
  have hlen : d + (s.downBuf.buf.drop (d - s.downBuf.base)).length = s.downBuf.endOffset := by
    rw [ReplayBuffer.length_drop_base h.base_le, Nat.add_sub_cancel' hle]
  rw [onSidecarAttach_eq h.base_le h.le_end]
  refine ⟨h.base_le, hle, ?_, hup, fun _ => ?_⟩
  · simp only [List.forall_mem_append, List.forall_mem_singleton]
    refine ⟨⟨trivial, ?_⟩, ?_⟩
    · split_ifs
      · rw [List.forall_mem_singleton]
        exact hlen.le
      · simp
    · split_ifs <;> simp [Within]
  · have hclose : segments (if s.downClosed then [.close s.sessionID dirDown upstreamEOF] else []) =
        [] := by
      split_ifs <;> rfl
    rw [segments_append, segments_append, hclose, List.append_nil]
    split_ifs with hlt
    · exact (splice_self _ _).trans hlen
    · show d = _
      omega

theorem Upstream.attached {up : List Msg} {s : Session} {d t n : ℕ} {sid : UInt64} {target : Bytes}
    {b : ReplayBuffer} (h : Upstream false (.attach sid d target :: up) [] t n b)
    (hs : s.upstreamWritten = n) : Upstream true up (s.onSidecarAttach d) t n b := by
  obtain ⟨ms, hms, hrest⟩ := s.onSidecarAttach_cons d
  have hall : ∀ m ∈ ms, answers m = false ∧ Confirms n m := by
    intro m hm
    obtain ⟨p, rfl⟩ | rfl := hrest m hm
    · exact ⟨rfl, trivial⟩
    · exact ⟨rfl, trivial⟩
  rw [hms, hs]
  refine { h with
    within := (List.forall_mem_cons.mp h.within).2
    confirms := List.forall_mem_cons.mpr ⟨le_rfl, fun m hm => (hall m hm).2⟩
    base_le_head := fun sid o hhead => ?_
    answers_tail := fun m hm => (hall m hm).1
    isOpen_tail := fun m hm => h.isOpen_tail m (List.mem_of_mem_tail hm)
    complete := fun hc => ?_ }
  · cases hhead
    exact h.base_le
  · have hopen : up.head?.any isOpen = false := any_isOpen_eq_false h.isOpen_tail
    rw [synced, hopen] at hc
    cases hc

/-! ## The connection -/

/-- A connection carries at most one OPEN or ATTACH, and nothing downstream before it has been
handled. -/
structure Shape (cfg : Config) (w : Net) : Prop where
  conn_lt : ∀ k, w.conn = some k → k < w.conns
  idle : w.conn = none → w.up = [] ∧ w.attach = false ∧ w.handled = false
  once : (w.up.filter Msg.asks).length + w.attach.toNat + w.handled.toNat ≤ 1
  quiet : w.handled = false → w.down = []
  unopened : w.cs = none → w.up = [] ∧ w.attach = false ∧ w.broker = none
  opn : ∀ sid target, .opn sid target ∈ w.up → target = cfg.target ∧ w.broker = none
  attach : ∀ sid offset target, .attach sid offset target ∈ w.up → target = cfg.target

/-- A session bound to `tconn` sends on the current connection exactly when its ATTACH or OPEN has
been handled there. -/
structure Bound (conn : Option ConnId) (conns : ℕ) (handled : Bool) (tconn : Option ConnId) :
    Prop where
  lt : ∀ k, tconn = some k → k < conns
  eq_conn : handled = true → tconn = conn
  ne_conn : handled = false → ∀ k, conn = some k → tconn ≠ some k

namespace Shape

variable {cfg : Config} {w : Net}

theorem isSome_of_handled (h : Shape cfg w) (hh : w.handled = true) : w.conn.isSome = true := by
  by_contra hc
  have := (h.idle (by simpa using hc)).2.2
  rw [hh] at this
  cases this

theorem asks_eq_false (h : Shape cfg w) (hh : w.handled = true) : ∀ m ∈ w.up, m.asks = false := by
  have hl := h.once
  rw [hh, Bool.toNat_true] at hl
  have hnil := List.length_eq_zero_iff.mp (show (w.up.filter Msg.asks).length = 0 by omega)
  simpa using List.filter_eq_nil_iff.mp hnil

theorem of_asks {m : Msg} {up : List Msg} (h : Shape cfg w) (hup : w.up = m :: up)
    (hm : m.asks = true) :
    w.attach = false ∧ w.handled = false ∧ ∀ m ∈ up, m.asks = false := by
  have hl := h.once
  rw [hup, List.filter_cons_of_pos hm, List.length_cons] at hl
  have hnil := List.length_eq_zero_iff.mp (show (up.filter Msg.asks).length = 0 by omega)
  refine ⟨?_, ?_, by simpa using List.filter_eq_nil_iff.mp hnil⟩
  · by_contra hc
    rw [Bool.not_eq_false] at hc
    rw [hc, Bool.toNat_true] at hl
    omega
  · by_contra hc
    rw [Bool.not_eq_false] at hc
    rw [hc, Bool.toNat_true] at hl
    omega

end Shape

theorem Bound.attached_iff {cfg : Config} {w : Net} {tconn : Option ConnId}
    (h : Bound w.conn w.conns w.handled tconn) (hs : Shape cfg w) :
    (tconn.isSome = true ∧ w.conn = tconn) ↔ w.handled = true := by
  constructor
  · rintro ⟨hsome, hconn⟩
    by_contra hc
    obtain ⟨k, hk⟩ := Option.isSome_iff_exists.mp hsome
    exact h.ne_conn (by simpa using hc) k (hconn.trans hk) hk
  · intro hh
    rw [h.eq_conn hh]
    exact ⟨hs.isSome_of_handled hh, rfl⟩

/-! ## The invariant -/

/-- The session as the sidecar has it; before `OpenSession`, as it will begin. -/
def Net.client (cfg : Config) (w : Net) : ClientSession :=
  w.cs.getD (newClientSession cfg.sessionBuffer cfg.sessionID cfg.target)

/-- The session as the broker has it; before OPEN or ATTACH, as it will begin. -/
def Net.session (cfg : Config) (w : Net) : Session :=
  w.broker.getD (newSession cfg.sessionBufferBytes cfg.actorID cfg.sessionID cfg.target)

structure Holds (cfg : Config) (w : Net) (cs : ClientSession) (s : Session) : Prop where
  shape : Shape cfg w
  bound : Bound w.conn w.conns w.handled s.tconn
  down : Downstream w.handled w.up w.down cs.downDelivered s.downBuf
  up : Upstream w.handled w.up w.down (taken s) s.upstreamWritten cs.upBuf
  client : cs.dead = false ∧ cs.target = cfg.target
  dead : s.dead = false
  preConn : s.connected = true → s.preConn = []

def Inv (cfg : Config) (w : Net) : Prop := Holds cfg w (w.client cfg) (w.session cfg)

theorem inv_start (cfg : Config) : Inv cfg start := by
  have hshape : Shape cfg start := by
    constructor <;> simp [start]
  refine ⟨hshape, ⟨by simp [start, Net.session, newSession], by simp [start], by simp [start]⟩,
    ⟨le_rfl, le_rfl, by simp [start], by simp [start], by simp [start]⟩,
    ⟨le_rfl, le_rfl, le_rfl, by simp [start], by simp [start], by simp [start], by simp [start],
      by simp [start], by simp [start, synced]⟩, ⟨rfl, rfl⟩, rfl, fun _ => rfl⟩

section Steps

variable {cfg : Config} {w : Net} {cs cs' : ClientSession} {s s' : Session} {ms : List Msg}

theorem Inv.of_cs (h : Inv cfg w) (hcs : w.cs = some cs) : Holds cfg w cs (w.session cfg) := by
  have hc : w.client cfg = cs := by rw [Net.client, hcs, Option.getD_some]
  exact hc ▸ h

theorem Inv.of_broker (h : Inv cfg w) (hs : w.broker = some s) : Holds cfg w (w.client cfg) s := by
  have hc : w.session cfg = s := by rw [Net.session, hs, Option.getD_some]
  exact hc ▸ h

theorem Shape.sidecar (h : Shape cfg w) (hms : ∀ m ∈ ms, m.asks = false) (cs' : ClientSession)
    (down : List Msg) (hdown : w.down = [] → down = []) :
    Shape cfg { w with
      cs := some cs', up := if w.conn.isSome then w.up ++ ms else w.up, down } := by
  -- the sidecar handles something and sends `ms`, which do not ask
  have hup : ∀ m ∈ (if w.conn.isSome then w.up ++ ms else w.up), m.asks = true → m ∈ w.up := by
    intro m hm hask
    split_ifs at hm
    · obtain hm | hm := List.mem_append.mp hm
      · exact hm
      · rw [hms m hm] at hask
        cases hask
    · exact hm
  refine ⟨h.conn_lt, fun hc => ?_, ?_, fun hh => hdown (h.quiet hh), by simp,
    fun sid t hm => h.opn sid t (hup _ hm rfl), fun sid o t hm => h.attach sid o t (hup _ hm rfl)⟩
  · have := h.idle hc
    simp only [show w.conn = none from hc]
    exact this
  · have hnil : ms.filter Msg.asks = [] := filter_eq_nil_of_false hms
    have := h.once
    dsimp only
    split_ifs
    · rwa [List.filter_append, hnil, List.append_nil]
    · exact this

theorem Shape.broker (h : Shape cfg w) (hs : w.broker = some s) (s' : Session) (ms : List Msg) :
    Shape cfg { w with
      broker := some s', down := if w.handled then w.down ++ ms else w.down } := by
  refine { h with
    quiet := fun hh => ?_
    unopened := fun hcs => ?_
    opn := fun sid t hm => ?_ }
  · have hh : w.handled = false := hh
    rw [hh]
    exact h.quiet hh
  · have := (h.unopened hcs).2.2
    rw [hs] at this
    cases this
  · have := (h.opn sid t hm).2
    rw [hs] at this
    cases this

theorem Shape.pop {m : Msg} {up : List Msg} (h : Shape cfg w) (hup : w.up = m :: up) :
    Shape cfg { w with up } := by
  have hsub : ∀ x ∈ up, x ∈ w.up := fun x hx => hup ▸ List.mem_cons_of_mem m hx
  refine ⟨h.conn_lt, fun hc => ?_, ?_, h.quiet, fun hcs => ?_, fun sid t hm => h.opn sid t (hsub _ hm),
    fun sid o t hm => h.attach sid o t (hsub _ hm)⟩
  · have := (h.idle hc).1
    rw [hup] at this
    cases this
  · have hle : (up.filter Msg.asks).length ≤ (w.up.filter Msg.asks).length := by
      rw [hup]
      exact ((List.sublist_cons_self m up).filter Msg.asks).length_le
    have := h.once
    dsimp only
    omega
  · have := (h.unopened hcs).1
    rw [hup] at this
    cases this

theorem Shape.asked {m : Msg} {up : List Msg} {k : ConnId} (h : Shape cfg w) (hk : w.conn = some k)
    (hup : w.up = m :: up) (hm : m.asks = true) :
    Shape cfg { w with up, handled := true, down := ms, broker := some s' } := by
  obtain ⟨hattach, -, hnone⟩ := h.of_asks hup hm
  have hnil : up.filter Msg.asks = [] := filter_eq_nil_of_false hnone
  refine ⟨h.conn_lt, fun hc => ?_, ?_, by simp, fun hcs => ?_, fun sid t hm => ?_,
    fun sid o t hm => ?_⟩
  · have hc : w.conn = none := hc
    rw [hk] at hc
    cases hc
  · simp [hnil, hattach]
  · have := (h.unopened hcs).1
    rw [hup] at this
    cases this
  · have := hnone _ hm
    cases this
  · have := hnone _ hm
    cases this

/-! ### The sidecar's steps -/

theorem send_singleton (w : Net) (m : Msg) : w.send [m] = w ∨
    w.conn.isSome = true ∧ w.send [m] = { w with up := w.up ++ [m] } := by
  unfold Net.send
  by_cases hm : m.Sendable
  · split_ifs with hc
    · right
      exact ⟨hc, by simp [hm]⟩
    · exact .inl rfl
  · left
    split_ifs <;> simp [hm]

theorem Shape.ask {m : Msg} (h : Shape cfg w) (hm : m.asks = true)
    (hfree : (w.up.filter Msg.asks).length + w.handled.toNat = 0) (hc : w.conn.isSome = true)
    (hcs : w.cs.isSome = true)
    (hopn : ∀ sid target, m = .opn sid target → target = cfg.target ∧ w.broker = none)
    (hattach : ∀ sid offset target, m = .attach sid offset target → target = cfg.target) :
    Shape cfg { w with attach := false, up := w.up ++ [m] } := by
  -- the sidecar asks on a connection that carries no request yet
  refine ⟨h.conn_lt, fun hnone => ?_, ?_, h.quiet, fun hnone => ?_, fun sid t hmem => ?_,
    fun sid o t hmem => ?_⟩
  · rw [show w.conn = none from hnone] at hc
    cases hc
  · simp only [List.filter_append, List.length_append, List.filter_cons_of_pos hm, List.filter_nil,
      List.length_singleton, Bool.toNat_false]
    omega
  · rw [show w.cs = none from hnone] at hcs
    cases hcs
  · obtain hmem | hmem := List.mem_append.mp hmem
    · exact h.opn sid t hmem
    · exact hopn sid t (List.mem_singleton.mp hmem).symm
  · obtain hmem | hmem := List.mem_append.mp hmem
    · exact h.attach sid o t hmem
    · exact hattach sid o t (List.mem_singleton.mp hmem).symm

theorem Inv.not_handled (h : Inv cfg w) (hb : w.broker = none) : w.handled = false := by
  by_contra hc
  rw [Bool.not_eq_false] at hc
  have hconn := h.bound.eq_conn hc
  rw [Net.session, hb] at hconn
  have hsome := h.shape.isSome_of_handled hc
  rw [← hconn] at hsome
  cases hsome

theorem session_of_none (hb : w.broker = none) : w.session cfg =
    newSession cfg.sessionBufferBytes cfg.actorID cfg.sessionID cfg.target := by
  rw [Net.session, hb, Option.getD_none]

theorem Inv.register (h : Inv cfg w) (hcs : w.cs = none) : Inv cfg { w with
    cs := some (newClientSession cfg.sessionBuffer cfg.sessionID cfg.target) } := by
  have hcl : w.client cfg = newClientSession cfg.sessionBuffer cfg.sessionID cfg.target := by
    rw [Net.client, hcs, Option.getD_none]
  have h : Holds cfg w (newClientSession cfg.sessionBuffer cfg.sessionID cfg.target)
    (w.session cfg) := hcl ▸ h
  exact ⟨{ h.shape with unopened := by simp }, h.bound, h.down, h.up, h.client, h.dead, h.preConn⟩

theorem Inv.openSession (h : Inv cfg w) (hcs : w.cs = none) :
    Inv cfg ({ w with
      cs := some (newClientSession cfg.sessionBuffer cfg.sessionID cfg.target) }.send
        [.opn cfg.sessionID cfg.target]) := by
  obtain ⟨hup, hattach, hbroker⟩ := h.shape.unopened hcs
  have hh := h.not_handled hbroker
  have h := h.register hcs
  obtain heq | ⟨hc, heq⟩ := send_singleton { w with
      cs := some (newClientSession cfg.sessionBuffer cfg.sessionID cfg.target) }
        (.opn cfg.sessionID cfg.target)
  · rwa [heq]
  · have hshape := h.shape.ask (m := .opn cfg.sessionID cfg.target) rfl (by simp [hup, hh]) hc rfl
      (fun sid t ht => ⟨(Msg.opn.inj ht).2.symm, hbroker⟩) (by simp)
    rw [heq]
    refine ⟨?_, h.bound, { h.down with reports := ?_ }, ?_, h.client, h.dead, h.preConn⟩
    · rwa [← hattach] at hshape
    · simp [hup, Reports]
    · -- neither half holds a byte
      have hu := h.up
      refine { hu with within := ?_, isOpen_tail := ?_, complete := fun _ => ?_ }
      · simp [hup, Within]
      · simp [hup]
      · show spliceAll (taken (w.session cfg)) (segments (w.up ++ [_])) = 0
        rw [hup, session_of_none hbroker]
        rfl

theorem Inv.connect (h : Inv cfg w) (hc : w.conn = none) :
    Inv cfg { w with conn := some w.conns, conns := w.conns + 1, attach := w.cs.isSome } := by
  obtain ⟨hup, hattach, hh⟩ := h.shape.idle hc
  refine ⟨⟨by simp, by simp, ?_, h.shape.quiet, fun hcs => ?_, h.shape.opn, h.shape.attach⟩,
    ⟨fun k hk => ?_, fun hh' => ?_, fun _ k hk hs => ?_⟩, h.down, h.up, h.client, h.dead, h.preConn⟩
  · simp [hup, hh, Bool.toNat_le]
  · obtain ⟨-, -, hbroker⟩ := h.shape.unopened hcs
    exact ⟨hup, by simp [show w.cs = none from hcs], hbroker⟩
  · exact (h.bound.lt k hk).trans (Nat.lt_succ_self _)
  · rw [hh] at hh'
    cases hh'
  · -- the session is bound to an older connection, if to any
    obtain rfl : w.conns = k := Option.some.inj hk
    exact absurd (h.bound.lt _ hs) (lt_irrefl _)

theorem Inv.attach (h : Inv cfg w) (hcs : w.cs = some cs) (ha : w.attach = true) :
    Inv cfg ({ w with attach := false }.send [cs.attachFrame]) := by
  have hcl : w.client cfg = cs := by rw [Net.client, hcs, Option.getD_some]
  have hfree : (w.up.filter Msg.asks).length + w.handled.toNat = 0 := by
    have := h.shape.once
    rw [ha, Bool.toNat_true] at this
    omega
  obtain heq | ⟨hc, heq⟩ := send_singleton { w with attach := false } cs.attachFrame
  · rw [heq]
    refine ⟨{ h.shape with
      idle := fun hc => ?_
      once := ?_
      unopened := fun hnone => ?_ }, h.bound, h.down, h.up, h.client, h.dead, h.preConn⟩
    · obtain ⟨hup, -, hh⟩ := h.shape.idle hc
      exact ⟨hup, rfl, hh⟩
    · simp only [Bool.toNat_false]
      omega
    · rw [hcs] at hnone
      cases hnone
  · rw [heq]
    refine ⟨h.shape.ask rfl hfree hc (by rw [hcs]; rfl) (by simp [ClientSession.attachFrame]) ?_,
      h.bound, { h.down with reports := ?_ }, ?_, h.client, h.dead, h.preConn⟩
    · intro sid o t ht
      rw [← (Msg.attach.inj ht).2.2, ← hcl]
      exact h.client.2
    · rw [List.forall_mem_append, List.forall_mem_singleton]
      exact ⟨h.down.reports, by rw [← hcl]; rfl⟩
    · exact h.up.append (by simp [ClientSession.attachFrame, Msg.segment, isOpen])

theorem Shape.not_synced (h : Shape cfg w) (hc : w.conn = none) :
    synced w.handled w.up w.down = false := by
  obtain ⟨hup, -, hh⟩ := h.idle hc
  rw [hup, hh]
  rfl

theorem Inv.writeUp {p : Bytes} (h : Inv cfg w) (hcs : w.cs = some cs) (hp : p.length ≤ readSize)
    (hw : cs.writeUp p = some cs') : Inv cfg ({ w with cs := some cs' }.send
      [.data cs.sessionID (cs.nextChunk p).2 (cs.nextChunk p).1]) := by
  have h := h.of_cs hcs
  obtain ⟨b, hb, rfl⟩ := Option.map_eq_some_iff.mp hw
  have hlen : (cs.nextChunk p).1.length ≤ maxPayload := by
    have : readSize ≤ maxPayload := by decide
    simp only [ClientSession.nextChunk, List.length_take]
    omega
  rw [send_eq (by simpa using Msg.sendable_data.mpr hlen)]
  refine ⟨h.shape.sidecar (by simp [Msg.asks]) _ w.down id, h.bound, ?_, ?_, h.client, h.dead, h.preConn⟩
  · refine { h.down with reports := ?_ }
    dsimp only
    split_ifs
    · rw [List.forall_mem_append]
      exact ⟨h.down.reports, by simp [Reports]⟩
    · exact h.down.reports
  · dsimp only
    split_ifs with hc
    · exact h.up.write hb cs.sessionID
    · exact h.up.buffer hb (h.shape.not_synced (by simpa using hc))

theorem Shape.handled_of_down {m : Msg} {down : List Msg} (h : Shape cfg w)
    (hd : w.down = m :: down) : w.handled = true := by
  by_contra hc
  rw [h.quiet (by simpa using hc)] at hd
  cases hd

theorem deliverDown_fst (hd : cs.dead = false) (offset : ℕ) (p : Bytes) :
    (deliverDown cs offset p).1 =
      { cs with downDelivered := splice cs.downDelivered offset p } := by
  rw [← ClientSession.downDelivered_deliver hd]
  unfold deliverDown ClientSession.deliver
  cases cs.deliverDown offset p <;> rfl

theorem deliverDown_snd (hd : cs.dead = false) (offset : ℕ) (p : Bytes) :
    ∀ m ∈ (deliverDown cs offset p).2, m = .ack cs.sessionID (splice cs.downDelivered offset p) := by
  rw [← ClientSession.downDelivered_deliver hd]
  unfold deliverDown ClientSession.deliver
  cases cs.deliverDown offset p with
  | none => simp
  | some q =>
    rw [List.forall_mem_singleton]
    rfl

theorem Inv.received {m : Msg} {down : List Msg} (h : Inv cfg w) (hd : w.down = m :: down)
    (hms : ∀ m ∈ ms, m.Sendable ∧ m.asks = false)
    (hdown : Downstream true (w.up ++ ms) down cs'.downDelivered (w.session cfg).downBuf)
    (hup : Upstream true (w.up ++ ms) down (taken (w.session cfg))
      (w.session cfg).upstreamWritten cs'.upBuf)
    (hcs : cs'.dead = false ∧ cs'.target = cfg.target) :
    Inv cfg ({ w with down, cs := some cs' }.send ms) := by
  have hh := h.shape.handled_of_down hd
  have hc := h.shape.isSome_of_handled hh
  have hshape := h.shape.sidecar (fun m hm => (hms m hm).2) cs' down (by simp [hd])
  rw [send_eq fun m hm => (hms m hm).1]
  refine ⟨hshape, h.bound, ?_, ?_, hcs, h.dead, h.preConn⟩
  · simp only [hh, hc, if_true]
    exact hdown
  · simp only [hh, hc, if_true]
    exact hup

theorem Inv.onAttachOK {sid : UInt64} {offset : ℕ} {down : List Msg} (h : Inv cfg w)
    (hcs : w.cs = some cs) (hd : w.down = .attachOK sid offset :: down)
    (hfit : cs.upBuf.endOffset - offset ≤ maxPayload) :
    Inv cfg ({ w with down, cs := some (cs.onAttachOK offset).1 }.send (cs.onAttachOK offset).2) := by
  have hI := h.of_cs hcs
  have hup := hI.up
  have hdown := hI.down
  rw [hd, hI.shape.handled_of_down hd] at hup hdown
  have hbase : cs.upBuf.base ≤ offset := hup.base_le_head sid offset rfl
  have hle : offset ≤ cs.upBuf.endOffset := by
    have h1 : offset ≤ (w.session cfg).upstreamWritten := (List.forall_mem_cons.mp hup.confirms).1
    exact h1.trans (hup.written_le.trans hup.taken_le)
  rw [ClientSession.onAttachOK_fst, ClientSession.onAttachOK_eq hbase hle]
  refine h.received hd ?_ ?_ hup.replay hI.client
  · split_ifs
    · rw [List.forall_mem_singleton, Msg.sendable_data, ReplayBuffer.length_drop_base hbase]
      exact ⟨hfit, rfl⟩
    · simp
  · refine { hdown.pop rfl with reports := ?_ }
    rw [List.forall_mem_append]
    exact ⟨hdown.reports, by split_ifs <;> simp [Reports]⟩

theorem Inv.deliverDown {sid : UInt64} {offset : ℕ} {p : Bytes} {down : List Msg} (h : Inv cfg w)
    (hcs : w.cs = some cs) (hd : w.down = .data sid offset p :: down) :
    Inv cfg ({ w with down, cs := some (deliverDown cs offset p).1 }.send
      (deliverDown cs offset p).2) := by
  have hI := h.of_cs hcs
  have hup := hI.up
  have hdown := hI.down
  have hh := hI.shape.handled_of_down hd
  rw [hd, hh] at hup hdown
  have hms := deliverDown_snd hI.client.1 offset p
  rw [deliverDown_fst hI.client.1]
  refine h.received hd (fun m hm => ?_) (hdown.deliver ?_) ?_ hI.client
  · rw [hms m hm]
    exact ⟨rfl, rfl⟩
  · rw [List.forall_mem_append]
    refine ⟨fun m hm => ?_, fun m hm => ?_⟩
    · -- an ATTACH in flight would name the old offset, but there is none
      exact (hdown.reports m hm).mono (le_splice _ _ _) (hI.shape.asks_eq_false hh m hm)
    · rw [hms m hm]
      exact le_rfl
  · refine (hup.skip rfl).append fun m hm => ?_
    rw [hms m hm]
    exact ⟨rfl, rfl⟩

theorem Inv.quiet {m : Msg} {down : List Msg} (h : Inv cfg w) (hd : w.down = m :: down)
    (hm : m.segment = none) (hcs : cs'.dead = false ∧ cs'.target = cfg.target)
    (hn : cs'.downDelivered = (w.client cfg).downDelivered)
    (hup : Upstream true w.up down (taken (w.session cfg)) (w.session cfg).upstreamWritten
      cs'.upBuf) : Inv cfg { w with down, cs := some cs' } := by
  have hdown := h.down
  rw [hd, h.shape.handled_of_down hd, ← hn] at hdown
  have hI : Inv cfg ({ w with down, cs := some cs' }.send []) :=
    h.received hd (by simp) (by simpa using hdown.pop hm) (by simpa using hup) hcs
  rw [send_eq (by simp)] at hI
  simpa using hI

theorem Inv.recvDown {m : Msg} {down : List Msg} (h : Inv cfg w) (hcs : w.cs = some cs)
    (hd : w.down = m :: down) (hfit : fits w .recvDown = true) :
    Inv cfg (readFrame cs { w with down } m) := by
  have hI := h.of_cs hcs
  have hup := hI.up
  have hn : cs.downDelivered = (w.client cfg).downDelivered := by
    rw [Net.client, hcs, Option.getD_some]
  rw [hd, hI.shape.handled_of_down hd] at hup
  have hsame (hm : m.segment = none) (ha : answers m = false) : Inv cfg { w with down } := by
    have := h.quiet hd hm hI.client hn (hup.skip ha)
    rwa [← hcs] at this
  cases m with
  | attachOK sid offset =>
    apply h.onAttachOK hcs hd
    simpa [fits, hd, hcs] using hfit
  | data sid offset p => exact h.deliverDown hcs hd
  | ack sid offset => exact h.quiet hd rfl hI.client hn hup.trim
  | close sid dir reason =>
    show Inv cfg (if dir = dirDown then _ else _)
    split_ifs
    · exact h.quiet hd rfl hI.client hn (hup.skip rfl)
    · exact hsame rfl rfl
  | opn sid target => exact hsame rfl rfl
  | attach sid offset target => exact hsame rfl rfl

/-! ### The broker's steps -/

theorem sendToSidecar_attached (hs : Shape cfg w) (hb : Bound w.conn w.conns w.handled s.tconn)
    (hms : ∀ m ∈ ms, m.Sendable) : w.sendToSidecar s ms =
      { w with broker := some s, down := if w.handled then w.down ++ ms else w.down } := by
  rw [sendToSidecar_eq hms]
  simp only [hb.attached_iff hs]

theorem inv_of_takes {n : ℕ} (hshape : Shape cfg w) (hs : w.broker = some s)
    (hb : Bound w.conn w.conns w.handled s.tconn)
    (hdown : Downstream w.handled w.up w.down (w.client cfg).downDelivered s.downBuf)
    (hup : Upstream w.handled w.up w.down n s'.upstreamWritten (w.client cfg).upBuf)
    (hcs : (w.client cfg).dead = false ∧ (w.client cfg).target = cfg.target)
    (ht : Takes n s s' ms) : Inv cfg (w.sendToSidecar s' ms) := by
  -- the upstream handlers leave a session that has taken `n` bytes
  have hack : ∀ m ∈ ms, m.Sendable ∧ m.segment = none ∧ Confirms s'.upstreamWritten m ∧
      answers m = false := by
    intro m hm
    obtain ⟨sid, rfl⟩ := ht.acks m hm
    exact ⟨rfl, rfl, le_rfl, rfl⟩
  rw [← ht.tconn] at hb
  rw [← ht.downBuf] at hdown
  rw [← ht.taken_eq] at hup
  rw [sendToSidecar_attached hshape hb fun m hm => (hack m hm).1]
  refine ⟨hshape.broker hs s' ms, hb, ?_, ?_, hcs, ht.dead, ht.preConn⟩
  · dsimp only
    split_ifs
    · exact hdown.append fun m hm => (hack m hm).2.1
    · exact hdown
  · dsimp only
    split_ifs
    · exact hup.confirm fun m hm => (hack m hm).2.2
    · exact hup

theorem written_le_taken (s : Session) : s.upstreamWritten ≤ taken s := Nat.le_add_right _ _

theorem Inv.dialed {r : Session × List Msg} (h : Inv cfg w) (hs : w.broker = some s)
    (hr : dialUpstream s = some r) : Inv cfg (w.sendToSidecar r.1 r.2) := by
  have hI := h.of_broker hs
  have ht := dialUpstream_takes hI.dead hr
  refine inv_of_takes hI.shape hs hI.bound hI.down (hI.up.flush ht.le_written ?_) hI.client ht
  rw [← ht.taken_eq]
  exact written_le_taken r.1

theorem Inv.produce {p : Bytes} (h : Inv cfg w) (hs : w.broker = some s) (hp : p.length ≤ readSize)
    (hw : s.produce p = some s') : Inv cfg (w.sendToSidecar s'
      [.data s.sessionID (s.nextChunk p).2 (s.nextChunk p).1]) := by
  have hI := h.of_broker hs
  obtain ⟨b, hb, rfl⟩ := Option.map_eq_some_iff.mp hw
  have hlen : (s.nextChunk p).1.length ≤ maxPayload := by
    have : readSize ≤ maxPayload := by decide
    simp only [Session.nextChunk, List.length_take]
    omega
  rw [sendToSidecar_attached (s := { s with downBuf := b }) hI.shape hI.bound
    (by simpa using Msg.sendable_data.mpr hlen)]
  refine ⟨hI.shape.broker hs _ _, hI.bound, hI.down.produce hb s.sessionID, ?_, hI.client, hI.dead,
    hI.preConn⟩
  dsimp only
  split_ifs
  · exact hI.up.confirm (by simp [Confirms, answers])
  · exact hI.up

theorem Inv.detach {k : ConnId} (h : Inv cfg w) (hk : w.conn ≠ some k) :
    Inv cfg { w with broker := w.broker.map fun s => (s.detach k).1 } := by
  cases hs : w.broker with
  | none =>
    rw [Option.map_none, ← hs]
    exact h
  | some s =>
    have hI := h.of_broker hs
    have hshape : Shape cfg { w with broker := some (s.detach k).1 } := by
      have := hI.shape.broker hs (s.detach k).1 []
      simpa using this
    by_cases ht : s.tconn = some k
    · have heq : (s.detach k).1 = { s with tconn := none } := by
        rw [Session.detach, if_neg (by simpa using ht)]
      rw [heq] at hshape
      rw [Option.map_some, heq]
      -- the session was bound to a connection that is not the current one
      refine ⟨hshape, ⟨by simp [Net.session], fun hh => ?_, by simp [Net.session]⟩, hI.down, hI.up,
        hI.client, hI.dead, hI.preConn⟩
      exact absurd ((hI.bound.eq_conn hh).symm.trans ht) hk
    · have heq : (s.detach k).1 = s := by rw [Session.detach, if_pos ht]
      rw [heq] at hshape
      rw [Option.map_some, heq]
      exact ⟨hshape, hI.bound, hI.down, hI.up, hI.client, hI.dead, hI.preConn⟩

theorem Inv.cut (h : Inv cfg w) : Inv cfg { w with
    conn := none, attach := false, handled := false, up := [], down := [] } := by
  refine ⟨⟨by simp, by simp, by simp, by simp, fun hcs => ⟨rfl, rfl, (h.shape.unopened hcs).2.2⟩,
    by simp, by simp⟩, ⟨h.bound.lt, by simp, by simp⟩, h.down.cut, h.up.cut, h.client, h.dead,
    h.preConn⟩

theorem Inv.ignore {m : Msg} {up : List Msg} (h : Inv cfg w) (hup : w.up = m :: up)
    (hm : synced w.handled w.up w.down = true → m.segment = none) : Inv cfg { w with up } := by
  have hu := h.up
  rw [hup] at hm hu
  refine ⟨h.shape.pop hup, h.bound, { h.down with reports := fun m hm => ?_ }, hu.pop hm, h.client,
    h.dead, h.preConn⟩
  exact h.down.reports m (hup ▸ List.mem_cons_of_mem _ hm)

theorem Inv.onData {sid : UInt64} {offset : ℕ} {p : Bytes} {up : List Msg} (h : Inv cfg w)
    (hup : w.up = .data sid offset p :: up) (hs : w.broker = some s) :
    Inv cfg (Net.sendToSidecar { w with up } (onData s offset p).1 (onData s offset p).2) := by
  have hI := h.of_broker hs
  have ht := onData_takes hI.dead hI.preConn offset p
  have hu := hI.up
  rw [hup] at hu
  refine inv_of_takes (hI.shape.pop hup) hs hI.bound { hI.down with reports := fun m hm => ?_ }
    (hu.take ht.le_written ?_) hI.client ht
  · exact hI.down.reports m (hup ▸ List.mem_cons_of_mem _ hm)
  · rw [← ht.taken_eq]
    exact written_le_taken _

theorem Inv.onDownstreamAck {sid : UInt64} {offset : ℕ} {up : List Msg} (h : Inv cfg w)
    (hup : w.up = .ack sid offset :: up) :
    Inv cfg { w with up, broker := w.broker.map (·.onDownstreamAck offset) } := by
  cases hs : w.broker with
  | none =>
    rw [Option.map_none, ← hs]
    exact h.ignore hup fun _ => rfl
  | some s =>
    have hI := h.of_broker hs
    have hd := hI.down
    have hu := hI.up
    rw [hup] at hd hu
    have hr := s.onDownstreamAck_eq offset
    have hshape := (hI.shape.pop hup).broker hs (s.onDownstreamAck offset) []
    simp only [List.append_nil, ite_self, hr] at hshape
    rw [Option.map_some, hr]
    exact ⟨hshape, hI.bound, hd.trim, hu.pop fun _ => rfl, hI.client, hI.dead, hI.preConn⟩

theorem Inv.asked {m : Msg} {up : List Msg} {k : ConnId} (h : Inv cfg w) (hk : w.conn = some k)
    (hup : w.up = m :: up) (hm : m.asks = true)
    (hdown : Downstream true up ms (w.client cfg).downDelivered (w.session cfg).downBuf)
    (hu : Upstream true up ms (taken (w.session cfg)) (w.session cfg).upstreamWritten
      (w.client cfg).upBuf) :
    Inv cfg { w with
      up, handled := true, down := ms, broker := some ((w.session cfg).bind k) } := by
  refine ⟨h.shape.asked hk hup hm, ⟨fun j hj => ?_, fun _ => hk.symm, by simp⟩, hdown, hu, h.client,
    h.dead, h.preConn⟩
  exact h.shape.conn_lt j (hk.trans hj)

theorem openSession_eq {k : ConnId} (hallow : cfg.allowTarget cfg.target = true)
    (hb : w.broker = none) : Protocol.openSession cfg k cfg.target w =
      { w with broker := some ((w.session cfg).bind k) } := by
  unfold Protocol.openSession
  rw [if_neg (by simp [hallow]), session_of_none hb]
  simp only [hb]

theorem Inv.opened {sid : UInt64} {target : Bytes} {up : List Msg} {k : ConnId} (h : Inv cfg w)
    (hallow : cfg.allowTarget cfg.target = true) (hk : w.conn = some k)
    (hup : w.up = .opn sid target :: up) :
    Inv cfg { Protocol.openSession cfg k target { w with up } with handled := true } := by
  obtain ⟨-, hh, -⟩ := h.shape.of_asks hup rfl
  obtain ⟨rfl, hb⟩ := h.shape.opn sid target (hup ▸ List.mem_cons_self ..)
  have hd := h.down
  have hu := h.up
  have hquiet := h.shape.quiet hh
  rw [hup, hquiet, hh] at hd hu
  have hI : Inv cfg { w with
      up, handled := true, down := [], broker := some ((w.session cfg).bind k) } := by
    refine h.asked hk hup rfl ⟨hd.base_le, hd.le_end, by simp,
      (List.forall_mem_cons.mp hd.reports).2, fun _ => ?_⟩ hu.opened
    have hle := hd.le_end
    rw [session_of_none hb] at hle ⊢
    exact Nat.le_antisymm hle (Nat.zero_le _)
  rw [openSession_eq (w := { w with up }) hallow hb]
  rwa [← hquiet] at hI

theorem sendToSidecar_bind {k : ConnId} (hk : w.conn = some k) (hms : ∀ m ∈ ms, m.Sendable) :
    w.sendToSidecar (s.bind k) ms =
      { w with broker := some (s.bind k), down := w.down ++ ms } := by
  rw [sendToSidecar_eq hms, if_pos ⟨rfl, hk⟩]

theorem attachSession_eq {k : ConnId} {offset : ℕ} (hallow : cfg.allowTarget cfg.target = true)
    (htarget : cfg.target ≠ []) (hk : w.conn = some k) (hoff : w.broker = none → offset = 0)
    (hms : ∀ m ∈ (w.session cfg).onSidecarAttach offset, m.Sendable) :
    attachSession cfg k offset cfg.target w = { w with
      broker := some ((w.session cfg).bind k)
      down := w.down ++ (w.session cfg).onSidecarAttach offset } := by
  unfold attachSession
  cases hb : w.broker with
  | some s =>
    have hs : w.session cfg = s := by rw [Net.session, hb, Option.getD_some]
    rw [hs] at hms ⊢
    exact sendToSidecar_bind hk hms
  | none =>
    simp only [openSession_eq hallow hb]
    rw [if_pos ⟨hoff hb, htarget⟩]
    exact sendToSidecar_bind (w := { w with broker := some ((w.session cfg).bind k) }) hk hms

theorem Inv.offset_eq_zero {sid : UInt64} {offset : ℕ} {target : Bytes} (h : Inv cfg w)
    (hmem : .attach sid offset target ∈ w.up) (hb : w.broker = none) : offset = 0 := by
  have hoff : offset = (w.client cfg).downDelivered := h.down.reports _ hmem
  have hle := h.down.le_end
  rw [session_of_none hb] at hle
  rw [hoff]
  exact Nat.le_zero.mp hle

theorem Inv.attached {sid : UInt64} {offset : ℕ} {target : Bytes} {up : List Msg} {k : ConnId}
    (h : Inv cfg w) (hallow : cfg.allowTarget cfg.target = true) (htarget : cfg.target ≠ [])
    (hk : w.conn = some k) (hup : w.up = .attach sid offset target :: up)
    (hfit : fits w .recvUp = true) :
    Inv cfg { attachSession cfg k offset target { w with up } with handled := true } := by
  obtain ⟨-, hh, -⟩ := h.shape.of_asks hup rfl
  obtain rfl := h.shape.attach sid offset target (hup ▸ List.mem_cons_self ..)
  have hd := h.down
  have hu := h.up
  have hquiet := h.shape.quiet hh
  rw [hup, hquiet, hh] at hd hu
  obtain rfl : offset = (w.client cfg).downDelivered := (List.forall_mem_cons.mp hd.reports).1
  have hfit : (w.session cfg).downBuf.endOffset - (w.client cfg).downDelivered ≤ maxPayload := by
    cases hb : w.broker with
    | none =>
      rw [session_of_none hb]
      exact (Nat.sub_le _ _).trans (Nat.zero_le _)
    | some s =>
      rw [Net.session, hb]
      simpa [fits, hup, hb] using hfit
  have hI := h.asked hk hup rfl hd.attached (hu.attached rfl)
  rw [attachSession_eq (w := { w with up }) hallow htarget hk]
  · rwa [show w.down = [] from hquiet, List.nil_append]
  · exact h.offset_eq_zero (hup ▸ List.mem_cons_self ..)
  · exact sendable_onSidecarAttach hd.base_le hd.le_end hfit

theorem Inv.recvUp {m : Msg} {up : List Msg} {k : ConnId} (h : Inv cfg w)
    (hallow : cfg.allowTarget cfg.target = true) (htarget : cfg.target ≠ []) (hk : w.conn = some k)
    (hup : w.up = m :: up) (hfit : fits w .recvUp = true) :
    Inv cfg (handleFrame cfg k { w with up } m) := by
  cases m with
  | opn sid target => exact h.opened hallow hk hup
  | attach sid offset target => exact h.attached hallow htarget hk hup hfit
  | data sid offset p =>
    unfold handleFrame
    cases hb : w.broker with
    | none =>
      have hI : Inv cfg { w with up } := h.ignore hup fun hs => ?_
      · simpa [hb] using hI
      · -- a frame for a session the broker does not have: no OPEN precedes it
        simp [synced, h.not_handled hb, hup, isOpen] at hs
    | some s =>
      have hI := h.onData hup hb
      simpa [hb] using hI
  | ack sid offset => exact h.onDownstreamAck hup
  | attachOK sid offset => exact h.ignore hup fun _ => rfl
  | close sid dir reason => exact h.ignore hup fun _ => rfl

/-! ### Runs -/

theorem Inv.step {e : Event} {w' : Net} (hallow : cfg.allowTarget cfg.target = true)
    (htarget : cfg.target ≠ []) (h : Inv cfg w) (hfit : fits w e = true)
    (hstep : Protocol.step cfg w e = some w') : Inv cfg w' := by
  unfold Protocol.step at hstep
  cases e with
  | openSession =>
    cases hcs : w.cs with
    | some cs => simp [hcs] at hstep
    | none =>
      simp only [hcs, Option.some.injEq] at hstep
      exact hstep ▸ h.openSession hcs
  | connect =>
    dsimp only at hstep
    split_ifs at hstep with hc
    obtain rfl := Option.some.inj hstep
    exact h.connect (by simpa using hc)
  | attach =>
    cases hcs : w.cs with
    | none => simp [hcs] at hstep
    | some cs =>
      simp only [hcs] at hstep
      split_ifs at hstep with ha
      obtain rfl := Option.some.inj hstep
      have := h.attach hcs ha
      rwa [hcs] at this
  | writeUp p =>
    cases hcs : w.cs with
    | none => simp [hcs] at hstep
    | some cs =>
      simp only [hcs] at hstep
      split_ifs at hstep with hp
      obtain ⟨cs', hw, rfl⟩ := Option.map_eq_some_iff.mp hstep
      exact h.writeUp hcs (by omega) hw
  | recvDown =>
    cases hd : w.down with
    | nil => simp [hd] at hstep
    | cons m down =>
      have hh := h.shape.handled_of_down hd
      cases hcs : w.cs with
      | none =>
        rw [h.not_handled (h.shape.unopened hcs).2.2] at hh
        cases hh
      | some cs =>
        simp only [hd, hcs, Option.some.injEq] at hstep
        have := h.recvDown hcs hd hfit
        rw [hcs] at this
        exact hstep ▸ this
  | recvUp =>
    cases hk : w.conn with
    | none => simp [hk] at hstep
    | some k =>
      cases hup : w.up with
      | nil => simp [hk, hup] at hstep
      | cons m up =>
        simp only [hk, hup, Option.some.injEq] at hstep
        have := h.recvUp hallow htarget hk hup hfit
        rw [hk] at this
        exact hstep ▸ this
  | dialed =>
    cases hs : w.broker with
    | none => simp [hs] at hstep
    | some s =>
      simp only [hs] at hstep
      obtain ⟨r, hr, rfl⟩ := Option.map_eq_some_iff.mp hstep
      exact h.dialed hs hr
  | produce p =>
    cases hs : w.broker with
    | none => simp [hs] at hstep
    | some s =>
      simp only [hs] at hstep
      split_ifs at hstep with hp
      obtain ⟨s', hw, rfl⟩ := Option.map_eq_some_iff.mp hstep
      exact h.produce hs (by omega) hw
  | detach k =>
    dsimp only at hstep
    split_ifs at hstep with hk
    obtain rfl := Option.some.inj hstep
    exact h.detach fun hc => hk (.inl hc)
  | cut =>
    dsimp only at hstep
    split_ifs at hstep
    obtain rfl := Option.some.inj hstep
    exact h.cut

end Steps

/-- When the sidecar's connection is up, its ATTACH or OPEN has been handled and nothing is in
flight, each half has everything the other has taken in. -/
theorem delivered_eq_endOffset_of_quiet {cfg : Config} {w : Net} {es : List Event}
    (htarget : cfg.target ≠ []) (hallow : cfg.allowTarget cfg.target = true)
    (hrun : run (step cfg) start es = some w)
    (hfits : Along (step cfg) (fun w e => fits w e = true) start es)
    (hhandled : w.handled = true) (hup : w.up = []) (hdown : w.down = []) :
    ∃ cs s, w.cs = some cs ∧ w.broker = some s ∧ cs.downDelivered = s.downBuf.endOffset ∧
      s.upstreamWritten + s.preConn.length = cs.upBuf.endOffset := by
  have h : Inv cfg w := run_invariant (fun w e w' h hfit hstep => h.step hallow htarget hfit hstep)
    (inv_start cfg) hfits hrun
  obtain ⟨s, hs⟩ : ∃ s, w.broker = some s := by
    cases hb : w.broker with
    | some s => exact ⟨s, rfl⟩
    | none =>
      rw [h.not_handled hb] at hhandled
      cases hhandled
  obtain ⟨cs, hcs⟩ : ∃ cs, w.cs = some cs := by
    cases hc : w.cs with
    | some cs => exact ⟨cs, rfl⟩
    | none =>
      have := (h.shape.unopened hc).2.2
      rw [hs] at this
      cases this
  have hd := h.down.complete hhandled
  have hu := h.up.complete (by simp [synced, hhandled, hdown])
  rw [Net.client, hcs, Net.session, hs, hdown] at hd
  rw [Net.client, hcs, Net.session, hs, hup] at hu
  exact ⟨cs, s, hcs, hs, hd, hu⟩

def threeCuts : List Event :=
  -- the OPEN is lost with the first connection, the replay of the request with the second and
  -- a response byte with the third; the dial completes while the actor is suspended
  [.connect, .openSession, .writeUp [1], .cut,
    .connect, .attach, .writeUp [2], .recvUp, .recvUp, .recvDown, .cut,
    .writeUp [3], .dialed, .connect, .detach 1, .attach, .recvUp, .recvDown, .recvUp, .produce [4],
    .cut,
    .produce [5], .connect, .writeUp [6], .attach, .recvUp, .recvUp, .recvDown, .recvDown, .recvUp]

theorem delivered_eq_endOffset_threeCuts :
    ∃ w, run (step Pair.small) start threeCuts = some w ∧ w.handled = true ∧ w.up = [] ∧
      w.down = [] ∧ ∃ cs s, w.cs = some cs ∧ w.broker = some s ∧
        cs.downDelivered = s.downBuf.endOffset ∧
        s.upstreamWritten + s.preConn.length = cs.upBuf.endOffset := by
  have hrun := (rfl : run (step Pair.small) start threeCuts = some _)
  have hfits : Along (step Pair.small) (fun w e => fits w e = true) start threeCuts := by decide
  exact ⟨_, hrun, rfl, rfl, rfl,
    delivered_eq_endOffset_of_quiet (by decide) rfl hrun hfits rfl rfl rfl⟩

end SubstratePoc.Protocol
