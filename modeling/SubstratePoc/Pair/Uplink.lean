import SubstratePoc.Pair.HalfClose
import SubstratePoc.Pair.Protocol

namespace SubstratePoc.Pair
open Lib Tunnel Broker Sidecar

/-- The goroutines of the sidecar are `readLoop` and then the ones that copy the agent's bytes;
`attached` says that `readLoop` has read an ATTACH_OK. -/
structure Uplink where
  core : Core
  threads : List (List SAct)
  attached : Bool

/-- A DATA frame handled by broker session `o`, with a destination that takes everything. -/
def Core.onData (w : Core) (o : ℕ) (offset : ℕ) (p : Bytes) : Core :=
  let ob := w.objs o
  { w with objs := Function.update w.objs o { ob with
      s := (Protocol.onData ob.s offset p).1
      dest := ob.dest ++ (ob.s.onData offset p).2.getD [] } }

/-- The piece of the agent's stream that an action is about to send on connection `k`. -/
def SAct.unsent (k : ConnId) : SAct → Option (ℕ × Bytes)
  | .send m => m.segment
  | .write j m => if j = k then m.segment else none
  | _ => none

/-- What the sidecar's goroutines do here: `n` is the end of what the session has taken from the
agent and `d` what the broker has written of it. -/
def SAct.Uploads (n d : ℕ) : SAct → Prop
  | .writeUp _ _ | .readAgent | .closeUp _ | .onUpstreamAck _ => True
  | .send m | .write _ m => ∀ s ∈ m.segment, s.1 + s.2.length ≤ n
  | .onAttachOK offset => offset ≤ d
  | _ => False

theorem SAct.Uploads.mono {n n' d d' : ℕ} {a : SAct} (h : a.Uploads n d) (hn : n ≤ n')
    (hd : d ≤ d') : a.Uploads n' d' := by
  cases a with
  | send m => exact fun s hs => (h s hs).trans hn
  | write k m => exact fun s hs => (h s hs).trans hn
  | onAttachOK offset => exact Nat.le_trans h hd
  | _ => exact h

namespace Uplink

inductive Event
  /-- bytes of the agent for one more goroutine, which calls `writeUp` -/
  | call (p : Bytes) (err : Option Cause)
  /-- `readLoop` reads a frame of the broker -/
  | frame (m : Msg)
  /-- the `i`-th goroutine moves -/
  | run (i : ℕ) (c : Choice)
  /-- the broker handles the next frame of the connection -/
  | recv
  /-- the broker handles a DATA frame that was sent on an earlier connection -/
  | late (offset : ℕ) (p : Bytes)
  deriving DecidableEq

def pending (w : Uplink) : List SAct := w.threads.flatten

def next (w : Uplink) (i : ℕ) : Option SAct := w.threads[i]?.bind List.head?

def confirmed : Msg → Option ℕ
  | .ack _ offset | .attachOK _ offset => some offset
  | _ => none

/-- Connection `k` and broker session `o`.  An ACK or ATTACH_OK carries what `upstreamWritten` was
when the broker put it together. -/
def step (k : ConnId) (o : ℕ) (w : Uplink) : Event → Option Uplink
  | .call p err => some { w with threads := w.threads ++ [[.writeUp p err]] }
  | .frame m => match w.threads, confirmed m with
    | [] :: ts, some offset =>
      if offset ≤ (w.core.objs o).s.upstreamWritten then
        some { w with
          threads := dispatch m :: ts
          attached := match m with | .attachOK _ _ => true | _ => w.attached }
      else none
    | _, _ => none
  | .run i c => match w.threads[i]? with
    | some (a :: rest) => (sexec w.core a c).map fun r =>
      { w with core := r.1, threads := w.threads.set i (r.2.1 ++ rest) }
    | _ => none
  | .recv => match (w.core.links k).up with
    | [] => none
    | m :: up =>
      let core := w.core.setLink k { w.core.links k with up }
      some { w with core := match m with
        | .data _ offset p => core.onData o offset p
        | _ => core }
  | .late offset p =>
    if offset + p.length ≤ w.core.cs.upBuf.endOffset then
      some { w with core := w.core.onData o offset p }
    else none

def unsent (k : ConnId) (w : Uplink) : List (ℕ × Bytes) := w.pending.filterMap (SAct.unsent k)

/-- What the broker will have written once it has handled what is in flight. -/
def position (k : ConnId) (o : ℕ) (w : Uplink) : ℕ :=
  spliceAll (w.core.objs o).s.upstreamWritten (segments (w.core.links k).up)

/-- The broker's session has been dialed and flushed, and has written no more than the agent has
produced. -/
structure Ready (o : ℕ) (w : Core) : Prop where
  alive : (w.objs o).s.dead = false
  connected : (w.objs o).s.connected = true
  flushed : (w.objs o).s.preConn = []
  within : (w.objs o).s.upstreamWritten ≤ w.cs.upBuf.endOffset

/-- The new connection is published and carries nothing yet.  Goroutines that copy the agent's
bytes may be anywhere in `writeUp`: waiting for space, or about to send. -/
structure Reconnected (k : ConnId) (o : ℕ) (w : Uplink) : Prop where
  ready : Ready o w.core
  conn : w.core.conn = some k
  link : w.core.links k = newLink
  attached : w.attached = false
  uploads : ∀ a ∈ w.pending, a.Uploads w.core.cs.upBuf.endOffset (w.core.objs o).s.upstreamWritten

/-- The ATTACH_OK has been handled, the broker has handled all frames, and the goroutines wait for
the agent or for space. -/
structure AtRest (k : ConnId) (w : Uplink) : Prop where
  attached : w.attached = true
  up : (w.core.links k).up = []
  waiting : ∀ a ∈ w.pending, a.waiting w.core = true

/-- A frame is not written while an earlier piece of the stream is still to be sent, unless that
piece also holds what is in the frame; the ATTACH_OK is not older than an ACK that has been
handled; and no write to the connection fails. -/
def ordered (k : ConnId) (w : Uplink) : Event → Bool
  | .run i c => match w.next i with
    | some (.onAttachOK offset) => w.core.cs.upBuf.base ≤ offset
    | some (.write j m) => j ≠ k || (c = .ok && m.segment.all fun s =>
        (w.unsent k).all fun t => !(t.1 < s.1) || s.1 + s.2.length ≤ t.1 + t.2.length)
    | _ => true
  | _ => true

/-! ## The broker's side -/

theorem connected_onData (s : Session) (offset : ℕ) (p : Bytes) :
    (Protocol.onData s offset p).1.connected = s.connected := by
  unfold Protocol.onData Session.onData
  dsimp only
  split_ifs <;> rfl

theorem Ready.onData {w : Core} {o : ℕ} (h : Ready o w) {offset : ℕ} {p : Bytes}
    (hp : offset + p.length ≤ w.cs.upBuf.endOffset) : Ready o (w.onData o offset p) ∧
      ((w.onData o offset p).objs o).s.upstreamWritten =
        splice (w.objs o).s.upstreamWritten offset p := by
  have ht := Protocol.onData_takes h.alive (fun _ => h.flushed) offset p
  have hs : ((w.onData o offset p).objs o).s = (Protocol.onData (w.objs o).s offset p).1 := by
    simp [Core.onData]
  have hc := (connected_onData (w.objs o).s offset p).trans h.connected
  have hpre := ht.preConn hc
  have hw := ht.taken_eq
  simp only [Protocol.taken, hpre, h.flushed, List.length_nil, Nat.add_zero] at hw
  have hle : spliceAll (w.objs o).s.upstreamWritten [(offset, p)] ≤ w.cs.upBuf.endOffset :=
    spliceAll_le h.within (by simpa using hp)
  rw [← hs] at ht hc hpre hw
  exact ⟨⟨ht.dead, hc, hpre, hw.trans_le hle⟩, hw⟩

/-! ## The invariant -/

/-- No byte between what the broker will have written and the end of the buffer is lost: it is
about to be sent, or will be once the ATTACH_OK is handled. -/
structure Uploading (k : ConnId) (o : ℕ) (w : Uplink) : Prop where
  ready : Ready o w.core
  conn : w.core.conn = some k
  opened : (w.core.links k).closed = false
  up : ∀ s ∈ segments (w.core.links k).up, s.1 + s.2.length ≤ w.core.cs.upBuf.endOffset
  uploads : ∀ a ∈ w.pending, a.Uploads w.core.cs.upBuf.endOffset (w.core.objs o).s.upstreamWritten
  covers : w.attached = true → (∃ offset, .onAttachOK offset ∈ w.pending) ∨
    Covers (w.position k o) w.core.cs.upBuf.endOffset (w.unsent k)

variable {k : ConnId} {o : ℕ} {w w' : Uplink}

theorem Reconnected.uploading (h : Reconnected k o w) : Uploading k o w where
  ready := h.ready
  conn := h.conn
  opened := by rw [h.link]; rfl
  up := by simp [h.link, newLink, segments]
  uploads := h.uploads
  covers := by simp [h.attached]

theorem step_run {i : ℕ} {c : Choice} (h : step k o w (.run i c) = some w') :
    ∃ a X Y push spawn, w.next i = some a ∧ w.pending = X ++ a :: Y ∧
      w'.pending = X ++ (push ++ Y) ∧ sexec w.core a c = some (w'.core, push, spawn) ∧
      w'.attached = w.attached := by
  simp only [step] at h
  split at h
  · rename_i a rest hi
    obtain ⟨⟨core, push, spawn⟩, hr, rfl⟩ := Option.map_eq_some_iff.mp h
    obtain ⟨L, R, hts, -, hset⟩ := threads_split hi
    refine ⟨a, L.flatten, rest ++ R.flatten, push, spawn, ?_, ?_, ?_, hr, rfl⟩
    · simp [next, hi]
    · simp [pending, hts]
    · simp [pending, hset]
  · cases h

theorem covers_replace {n d : ℕ} {X Y push : List SAct} {a : SAct}
    (h : Covers d n ((X ++ a :: Y).filterMap (SAct.unsent k)))
    (ha : ∀ s ∈ a.unsent k, s ∈ push.filterMap (SAct.unsent k)) :
    Covers d n ((X ++ (push ++ Y)).filterMap (SAct.unsent k)) := by
  refine h.mono fun s hs => ?_
  simp only [List.mem_filterMap, List.mem_append, List.mem_cons] at hs ha ⊢
  obtain ⟨b, hb | rfl | hb, hs⟩ := hs
  · exact ⟨b, .inl hb, hs⟩
  · obtain ⟨b', hb', hs'⟩ := ha s hs
    exact ⟨b', .inr (.inl hb'), hs'⟩
  · exact ⟨b, .inr (.inr hb), hs⟩

section Act

variable {a : SAct} {X Y push : List SAct}

theorem Uploading.of_act (hI : Uploading k o w) (hp : w.pending = X ++ a :: Y)
    (hp' : w'.pending = X ++ (push ++ Y)) (hconn : w'.core.conn = w.core.conn)
    (hclosed : (w'.core.links k).closed = (w.core.links k).closed)
    (hobjs : w'.core.objs = w.core.objs)
    (hend : w.core.cs.upBuf.endOffset ≤ w'.core.cs.upBuf.endOffset)
    (hup : ∀ s ∈ segments (w'.core.links k).up, s.1 + s.2.length ≤ w'.core.cs.upBuf.endOffset)
    (hpush : ∀ b ∈ push,
      b.Uploads w'.core.cs.upBuf.endOffset (w.core.objs o).s.upstreamWritten)
    (hcov : w'.attached = true → (∃ offset, .onAttachOK offset ∈ w'.pending) ∨
      Covers (w'.position k o) w'.core.cs.upBuf.endOffset (w'.unsent k)) : Uploading k o w' where
  ready := by
    obtain ⟨h1, h2, h3, h4⟩ := hI.ready
    rw [← hobjs] at h1 h2 h3 h4
    exact ⟨h1, h2, h3, h4.trans hend⟩
  conn := hconn.trans hI.conn
  opened := hclosed.trans hI.opened
  up := hup
  uploads b hb := by
    rw [hp'] at hb
    rw [hobjs]
    rcases mem_of_replace (a := a) hb with hb | hb
    · exact hpush b hb
    · exact (hI.uploads b (hp ▸ hb)).mono hend le_rfl
  covers := hcov

theorem attachOK_stays (hp : w.pending = X ++ a :: Y) (hp' : w'.pending = X ++ (push ++ Y))
    (ha : ∀ offset, a ≠ .onAttachOK offset) (h : ∃ offset, .onAttachOK offset ∈ w.pending) :
    ∃ offset, .onAttachOK offset ∈ w'.pending := by
  obtain ⟨offset, hmem⟩ := h
  refine ⟨offset, ?_⟩
  rw [hp, List.mem_append, List.mem_cons] at hmem
  rw [hp', List.mem_append, List.mem_append]
  rcases hmem with h | h | h
  · exact .inl h
  · exact absurd h.symm (ha offset)
  · exact .inr (.inr h)

/-- An action that sends nothing and appends nothing, or hands a frame on. -/
structure Hands (k : ConnId) (w w' : Core) (a : SAct) (push : List SAct) : Prop where
  conn : w'.conn = w.conn
  link : w'.links k = w.links k
  objs : w'.objs = w.objs
  endOffset : w'.cs.upBuf.endOffset = w.cs.upBuf.endOffset
  uploads : ∀ n d, a.Uploads n d → ∀ b ∈ push, b.Uploads n d
  unsent : ∀ s ∈ a.unsent k, s ∈ push.filterMap (SAct.unsent k)

theorem Uploading.of_hands (hI : Uploading k o w) (hatt : w'.attached = w.attached)
    (hp : w.pending = X ++ a :: Y) (hp' : w'.pending = X ++ (push ++ Y))
    (h : Hands k w.core w'.core a push) (ha : ∀ offset, a ≠ .onAttachOK offset) :
    Uploading k o w' := by
  have hpush := h.uploads _ _ (hI.uploads a (by rw [hp]; simp))
  rw [← h.endOffset] at hpush
  refine hI.of_act hp hp' h.conn (by rw [h.link]) h.objs h.endOffset.ge ?_ hpush fun hw => ?_
  · rw [h.link, h.endOffset]
    exact hI.up
  · refine (hI.covers (hatt ▸ hw)).imp (attachOK_stays hp hp' ha) fun hc => ?_
    rw [Uplink.unsent, hp] at hc
    rw [position, h.objs, h.link, h.endOffset, Uplink.unsent, hp']
    exact covers_replace hc h.unsent

theorem hands_of_eq {core : Core} (hpush : ∀ n d, a.Uploads n d → ∀ b ∈ push, b.Uploads n d)
    (ha : ∀ s ∈ a.unsent k, s ∈ push.filterMap (SAct.unsent k)) : Hands k core core a push :=
  ⟨rfl, rfl, rfl, rfl, hpush, ha⟩

theorem hands_of_does {core core' : Core} {spawn : List (List BAct)} {n d : ℕ}
    (h : SDoes core a core' push spawn) (ha : a.Uploads n d) (hs : ∀ m, a ≠ .send m)
    (hk : ∀ m, a ≠ .write k m) (hoff : ∀ offset, a ≠ .onAttachOK offset) :
    Hands k core core' a push ∨ ∃ p q rest err b, a = .writeUp rest err ∧
      core.cs.upBuf.append p = some b ∧
      core' = { core with cs := { core.cs with upBuf := b } } ∧
      push = [.send (.data core.cs.sessionID core.cs.upBuf.endOffset p), .writeUp q err] := by
  -- what a copying goroutine and `readLoop` do here, but for the steps that send or append
  cases h with
  | writeUp p err b n hb => exact .inr ⟨_, _, _, _, b, rfl, hb, rfl, rfl⟩
  | writeOk j m =>
    left
    have hj : k ≠ j := fun h => hk m (by rw [h])
    unfold Core.toBroker
    split_ifs
    · exact hands_of_eq (by simp) (by simp [SAct.unsent, hj.symm])
    · exact ⟨rfl, by simp [Core.setLink, hj], rfl, rfl, by simp, by simp [SAct.unsent, hj.symm]⟩
  | writeFail j m =>
    have hj : k ≠ j := fun h => hk m (by rw [h])
    exact .inl (hands_of_eq (by simp) (by simp [SAct.unsent, hj.symm]))
  | readAgent p err => exact .inl (hands_of_eq (by simp [SAct.Uploads]) (by simp [SAct.unsent]))
  | writeUpDone err =>
    refine .inl (hands_of_eq ?_ (by simp [SAct.unsent]))
    cases err <;> simp [SAct.Uploads, afterWriteUp]
  | writeUpDead p err push hpush =>
    refine .inl (hands_of_eq (fun n d _ b hb => ?_) (by simp [SAct.unsent]))
    obtain ⟨reason, rfl⟩ := hpush b hb
    trivial
  | closeUpAgain reason => exact .inl (hands_of_eq (by simp) (by simp [SAct.unsent]))
  | closeUp reason =>
    exact .inl ⟨rfl, rfl, rfl, rfl, by simp [SAct.Uploads, Msg.segment], by simp [SAct.unsent]⟩
  | onUpstreamAck offset =>
    exact .inl ⟨rfl, rfl, rfl, ReplayBuffer.endOffset_trimTo .., by simp, by simp [SAct.unsent]⟩
  | sendNone m => exact absurd rfl (hs m)
  | sendSome m j hj => exact absurd rfl (hs m)
  | onAttachOK offset => exact absurd rfl (hoff offset)
  | _ => exact ha.elim

theorem Uploading.of_writeUp {p rest : Bytes} {err : Option Cause} {b : ReplayBuffer}
    (hI : Uploading k o w) (hatt : w'.attached = w.attached)
    (hp : w.pending = X ++ .writeUp rest err :: Y)
    (hb : w.core.cs.upBuf.append p = some b)
    (hcore : w'.core = { w.core with cs := { w.core.cs with upBuf := b } })
    {q : Bytes} (hp' : w'.pending = X ++ ([.send (.data w.core.cs.sessionID
      w.core.cs.upBuf.endOffset p), .writeUp q err] ++ Y)) : Uploading k o w' := by
  -- `writeUp` appends a chunk and is about to send it
  have hend : w'.core.cs.upBuf.endOffset = w.core.cs.upBuf.endOffset + p.length := by
    rw [hcore]
    exact ReplayBuffer.endOffset_append hb
  have hlinks : w'.core.links = w.core.links := by rw [hcore]
  have hobjs : w'.core.objs = w.core.objs := by rw [hcore]
  refine hI.of_act hp hp' (by rw [hcore]) (by rw [hlinks]) hobjs (by omega) ?_ ?_ fun h => ?_
  · rw [hlinks, hend]
    exact fun s hs => (hI.up s hs).trans (Nat.le_add_right _ _)
  · simp [SAct.Uploads, Msg.segment, hend]
  · refine (hI.covers (hatt ▸ h)).imp (attachOK_stays hp hp' (by simp)) fun hc => ?_
    rw [unsent, hp] at hc
    rw [position, hobjs, hlinks, hend, unsent, hp']
    intro x hx hlt
    -- an offset below the old end was covered, the others are in the new chunk
    rcases Nat.lt_or_ge x w.core.cs.upBuf.endOffset with hold | hnew
    · exact covers_replace hc (by simp [SAct.unsent]) x hx hold
    · refine ⟨(w.core.cs.upBuf.endOffset, p), ?_, hnew, hlt⟩
      simp [SAct.unsent, Msg.segment]

theorem Uploading.of_onAttachOK {offset : ℕ} (hI : Uploading k o w)
    (hp : w.pending = X ++ .onAttachOK offset :: Y) (hbase : w.core.cs.upBuf.base ≤ offset)
    (hcore : w'.core = { w.core with cs := { w.core.cs with
      upBuf := w.core.cs.upBuf.trimTo offset } })
    (hp' : w'.pending = X ++ ((w.core.cs.onAttachOK offset).2.map .send ++ Y)) :
    Uploading k o w' := by
  -- the replay of an ATTACH_OK reaches from what the broker had written to the end
  have hend : w'.core.cs.upBuf.endOffset = w.core.cs.upBuf.endOffset := by
    rw [hcore]
    exact ReplayBuffer.endOffset_trimTo ..
  have hlinks : w'.core.links = w.core.links := by rw [hcore]
  have hobjs : w'.core.objs = w.core.objs := by rw [hcore]
  have hoff : offset ≤ (w.core.objs o).s.upstreamWritten :=
    hI.uploads (.onAttachOK offset) (by rw [hp]; simp)
  have hle : offset ≤ w.core.cs.upBuf.endOffset := hoff.trans hI.ready.within
  have hlen := ReplayBuffer.length_drop_base hbase
  have hreplay := ClientSession.onAttachOK_eq hbase hle
  rw [hreplay] at hp'
  refine hI.of_act hp hp' (by rw [hcore]) (by rw [hlinks]) hobjs hend.ge ?_ ?_ fun _ => .inr ?_
  · rw [hlinks, hend]
    exact hI.up
  · intro b hb
    split_ifs at hb
    · obtain rfl : b = _ := by simpa using hb
      simp only [SAct.Uploads, Msg.segment, Option.mem_some_iff, hend]
      rintro s rfl
      show offset + (w.core.cs.upBuf.buf.drop (offset - w.core.cs.upBuf.base)).length ≤ _
      omega
    · cases hb
  · intro x hx hlt
    rw [hend] at hlt
    have hxo : offset ≤ x := by
      refine hoff.trans (Nat.le_trans ?_ hx)
      rw [position, hobjs]
      exact le_spliceAll _ _
    refine ⟨(offset, w.core.cs.upBuf.buf.drop (offset - w.core.cs.upBuf.base)), ?_, hxo, ?_⟩
    · rw [unsent, hp', if_pos (by omega)]
      simp [SAct.unsent, Msg.segment]
    · show x < offset + (w.core.cs.upBuf.buf.drop (offset - w.core.cs.upBuf.base)).length
      omega

theorem Uploading.of_write {m : Msg} (hI : Uploading k o w) (hatt : w'.attached = w.attached)
    (hp : w.pending = X ++ .write k m :: Y) (hcore : w'.core = w.core.toBroker k m)
    (hord : ∀ s ∈ m.segment, ∀ t ∈ w.unsent k, t.1 < s.1 → s.1 + s.2.length ≤ t.1 + t.2.length)
    (hp' : w'.pending = X ++ ([] ++ Y)) : Uploading k o w' := by
  -- a frame that reaches the connection is handled after what is in flight
  have hcs : w'.core.cs = w.core.cs := by
    rw [hcore]
    simp [Core.toBroker, hI.opened, Core.setLink]
  have hobjs : w'.core.objs = w.core.objs := by
    rw [hcore]
    simp [Core.toBroker, hI.opened, Core.setLink]
  have hconn : w'.core.conn = w.core.conn := by
    rw [hcore]
    simp [Core.toBroker, hI.opened, Core.setLink]
  have hlink : w'.core.links k = { w.core.links k with up := (w.core.links k).up ++ [m] } := by
    rw [hcore]
    simp [Core.toBroker, hI.opened, Core.setLink]
  have hm := hI.uploads (.write k m) (by rw [hp]; simp)
  refine hI.of_act hp hp' hconn (by rw [hlink]) hobjs (by rw [hcs]) ?_ (by simp) fun h => ?_
  · intro s hs
    rw [hlink, segments_append, List.mem_append] at hs
    rw [hcs]
    refine hs.elim (hI.up s) fun hs => hm s ?_
    simpa [segments, List.mem_filterMap] using hs
  · refine (hI.covers (hatt ▸ h)).imp (attachOK_stays hp hp' (by simp)) fun hc => ?_
    have hpos : w'.position k o =
        spliceAll (w.position k o) (segments [m]) := by
      rw [position, hobjs, hlink, segments_append, spliceAll_append, position]
    rw [unsent, hp] at hc hord
    rw [hpos, hcs, unsent, hp', segments, List.filterMap_cons, List.filterMap_nil]
    cases hs : m.segment with
    | none => exact covers_replace hc (by simp [SAct.unsent, hs])
    | some s =>
      have hmem : ∀ t ∈ (X ++ ([] ++ Y)).filterMap (SAct.unsent k),
          t ∈ (X ++ .write k m :: Y).filterMap (SAct.unsent k) := by
        intro t ht
        rw [List.filterMap_append] at ht ⊢
        rw [List.filterMap_cons_some (by simpa [SAct.unsent] using hs)]
        exact ((List.sublist_cons_self ..).append_left _).subset ht
      refine Covers.splice (hc.mono fun t ht => ?_) fun t ht => hord s hs t (hmem t ht)
      rw [List.filterMap_append, List.filterMap_cons_some (by simpa [SAct.unsent] using hs)] at ht
      rw [List.filterMap_append]
      exact List.perm_middle.subset ht

end Act

/-! ## Runs -/

theorem Uploading.of_broker (hI : Uploading k o w) (hatt : w'.attached = w.attached)
    (hts : w'.threads = w.threads) (hcs : w'.core.cs = w.core.cs)
    (hconn : w'.core.conn = w.core.conn)
    (hclosed : (w'.core.links k).closed = (w.core.links k).closed) (hready : Ready o w'.core)
    (hwritten : (w.core.objs o).s.upstreamWritten ≤ (w'.core.objs o).s.upstreamWritten)
    (hup : ∀ s ∈ segments (w'.core.links k).up, s ∈ segments (w.core.links k).up)
    (hpos : w.position k o ≤ w'.position k o) : Uploading k o w' where
  ready := hready
  conn := hconn.trans hI.conn
  opened := hclosed.trans hI.opened
  up s hs := by
    rw [hcs]
    exact hI.up s (hup s hs)
  uploads a ha := by
    rw [pending, hts] at ha
    rw [hcs]
    exact (hI.uploads a ha).mono le_rfl hwritten
  covers h := by
    rw [unsent, pending, hts, hcs]
    refine (hI.covers (hatt ▸ h)).imp id fun hc x hx => hc x (hpos.trans hx)

theorem Uploading.of_recv (hI : Uploading k o w) (h : step k o w .recv = some w') :
    Uploading k o w' := by
  simp only [step] at h
  split at h
  · cases h
  · rename_i m up hm
    have hup : ∀ s ∈ segments up, s ∈ segments (w.core.links k).up := by
      intro s hs
      rw [hm]
      exact (List.sublist_cons_self m up).filterMap _ |>.subset hs
    have hr := hI.ready
    obtain rfl := Option.some.inj h
    cases m with
    | data sid offset p =>
      have hp : offset + p.length ≤ w.core.cs.upBuf.endOffset :=
        hI.up (offset, p) (by rw [hm]; simp [segments, Msg.segment])
      have hr' : Ready o (w.core.setLink k { w.core.links k with up }) :=
        ⟨hr.alive, hr.connected, hr.flushed, hr.within⟩
      obtain ⟨hready, hwritten⟩ := hr'.onData hp
      refine hI.of_broker rfl rfl rfl rfl (by simp [Core.onData, Core.setLink]) hready ?_ ?_ ?_
      · rw [hwritten]
        exact le_splice ..
      · simpa [Core.onData, Core.setLink] using hup
      · rw [position, position, hm, hwritten]
        simp [Core.onData, Core.setLink, segments, Msg.segment, spliceAll]
    | _ =>
      refine hI.of_broker rfl rfl rfl rfl (by simp [Core.setLink])
        ⟨hr.alive, hr.connected, hr.flushed, hr.within⟩ le_rfl ?_ ?_
      · simpa [Core.setLink] using hup
      · rw [position, position, hm, segments, List.filterMap_cons_none rfl]
        simp [Core.setLink, segments]

theorem Uploading.of_late (hI : Uploading k o w) {offset : ℕ} {p : Bytes}
    (h : step k o w (.late offset p) = some w') : Uploading k o w' := by
  simp only [step] at h
  split_ifs at h with hp
  obtain rfl := Option.some.inj h
  obtain ⟨hready, hwritten⟩ := hI.ready.onData hp
  have hle : (w.core.objs o).s.upstreamWritten ≤
      ((w.core.onData o offset p).objs o).s.upstreamWritten := by
    rw [hwritten]
    exact le_splice ..
  exact hI.of_broker rfl rfl rfl rfl rfl hready hle (fun _ hs => hs) (spliceAll_mono hle _)

theorem Uploading.of_push (hI : Uploading k o w) {a : SAct} (hcore : w'.core = w.core)
    (hp' : w'.pending.Perm (a :: w.pending))
    (ha : a.Uploads w.core.cs.upBuf.endOffset (w.core.objs o).s.upstreamWritten)
    (hatt : w'.attached = w.attached ∨ ∃ offset, a = .onAttachOK offset) : Uploading k o w' where
  ready := hcore ▸ hI.ready
  conn := hcore ▸ hI.conn
  opened := hcore ▸ hI.opened
  up := hcore ▸ hI.up
  uploads b hb := by
    rw [hcore]
    rcases List.mem_cons.mp (hp'.subset hb) with rfl | hb
    · exact ha
    · exact hI.uploads b hb
  covers h := by
    rcases hatt with hatt | ⟨offset, rfl⟩
    · refine (hI.covers (hatt ▸ h)).imp ?_ fun hc => ?_
      · rintro ⟨offset, hmem⟩
        exact ⟨offset, hp'.symm.subset (List.mem_cons_of_mem a hmem)⟩
      · rw [position, hcore]
        refine hc.mono fun s hs => ?_
        obtain ⟨b, hb, hs⟩ := List.mem_filterMap.mp hs
        exact List.mem_filterMap.mpr ⟨b, hp'.symm.subset (List.mem_cons_of_mem a hb), hs⟩
    · exact .inl ⟨offset, hp'.symm.subset (List.mem_cons_self ..)⟩

theorem Uploading.of_run {i : ℕ} {c : Choice} (hI : Uploading k o w)
    (hc : ordered k w (.run i c) = true) (h : step k o w (.run i c) = some w') :
    Uploading k o w' := by
  obtain ⟨a, X, Y, push, spawn, hn, hp, hp', hr, hatt⟩ := step_run h
  have ha := hI.uploads a (by rw [hp]; simp)
  simp only [ordered, hn] at hc
  by_cases hsend : ∃ m, a = .send m
  · obtain ⟨m, rfl⟩ := hsend
    simp only [sexec, hI.conn, Option.some.injEq, Prod.mk.injEq] at hr
    obtain ⟨hcore, rfl, -⟩ := hr
    refine hI.of_hands hatt hp hp' (hcore ▸ hands_of_eq ?_ ?_) (by simp)
    · exact fun n d hm b hb => List.mem_singleton.mp hb ▸ hm
    · simp [SAct.unsent]
  by_cases hwrite : ∃ m, a = .write k m
  · obtain ⟨m, rfl⟩ := hwrite
    simp only [ne_eq, not_true_eq_false, decide_false, Bool.false_or, Bool.and_eq_true,
      decide_eq_true_eq] at hc
    obtain ⟨rfl, hord⟩ := hc
    simp only [sexec] at hr
    split_ifs at hr
    simp only [Option.some.injEq, Prod.mk.injEq] at hr
    obtain ⟨hcore, rfl, -⟩ := hr
    refine hI.of_write hatt hp hcore.symm ?_ hp'
    intro s hs t ht hlt
    rw [Option.mem_def.mp hs, Option.all_some, List.all_eq_true] at hord
    simpa [hlt] using hord t ht
  by_cases hoff : ∃ offset, a = .onAttachOK offset
  · obtain ⟨offset, rfl⟩ := hoff
    simp only [sexec, Option.some.injEq, Prod.mk.injEq] at hr
    obtain ⟨hcore, rfl, -⟩ := hr
    rw [ClientSession.onAttachOK_fst] at hcore
    exact hI.of_onAttachOK hp (by simpa using hc) hcore.symm hp'
  push Not at hsend hwrite hoff
  obtain hh | ⟨p, q, rest, err, b, rfl, hb, hcore, rfl⟩ :=
    hands_of_does (sexec_does hr) ha hsend hwrite hoff
  · exact hI.of_hands hatt hp hp' hh hoff
  · exact hI.of_writeUp hatt hp hb hcore hp'

theorem Uploading.step {e : Event} (hI : Uploading k o w) (hc : ordered k w e = true)
    (h : Uplink.step k o w e = some w') : Uploading k o w' := by
  cases e with
  | call p err =>
    obtain rfl := Option.some.inj h
    refine hI.of_push (a := .writeUp p err) rfl ?_ trivial (.inl rfl)
    simp [pending]
  | frame m =>
    simp only [Uplink.step] at h
    split at h
    · rename_i ts offset hts hm
      split_ifs at h with hle
      obtain rfl := Option.some.inj h
      cases m with
      | ack sid n =>
        refine hI.of_push (a := .onUpstreamAck n) rfl ?_ trivial (.inl rfl)
        simp [pending, hts, dispatch]
      | attachOK sid n =>
        obtain rfl : n = offset := by simpa [confirmed] using hm
        refine hI.of_push (a := .onAttachOK n) rfl ?_ hle (.inr ⟨n, rfl⟩)
        simp [pending, hts, dispatch]
      | _ => cases hm
    · cases h
  | run i c => exact hI.of_run hc h
  | recv => exact hI.of_recv h
  | late offset p => exact hI.of_late h

theorem unsent_of_waiting {core : Core} {a : SAct} (h : a.waiting core = true) :
    a.unsent k = none := by
  cases a <;> first | rfl | cases h

/-- After a reconnect that ends with frames in the order of the stream, the broker has written
everything the agent has produced. -/
theorem upstreamWritten_eq_of_ordered {es : List Event} (h : Reconnected k o w)
    (hes : Along (step k o) (fun w e => ordered k w e = true) w es)
    (hrun : run (step k o) w es = some w') (hrest : AtRest k w') :
    (w'.core.objs o).s.upstreamWritten = w'.core.cs.upBuf.endOffset := by
  have hI : Uploading k o w' :=
    run_invariant (fun _ _ _ hI hc hs => hI.step hc hs) h.uploading hes hrun
  refine hI.ready.within.antisymm ?_
  rcases hI.covers hrest.attached with ⟨offset, hmem⟩ | hcov
  · cases hrest.waiting _ hmem
  · have hnone : w'.unsent k = [] := by
      rw [unsent, List.filterMap_eq_nil_iff]
      exact fun a ha => unsent_of_waiting (hrest.waiting a ha)
    rw [hnone, position, hrest.up] at hcov
    exact hcov.le

/-- The sidecar has two bytes that the broker has not written. -/
def twoBehind : Uplink where
  core := { (start small).core with
    cs := { newClientSession 4 1 [120] with upBuf := ⟨0, [1, 2], 4, by decide⟩ }
    listed := true
    conn := some 1
    conns := 2
    created := 1
    objs := fun _ => { small.newObj [120] with
      s := { newSession 4 [97] 1 [120] with upstream := true, connected := true, tconn := some 1 } }
    sessions := some 0 }
  threads := [[]]
  attached := false

theorem reconnected_twoBehind : Reconnected 1 0 twoBehind where
  ready := ⟨rfl, rfl, rfl, by decide⟩
  conn := rfl
  link := rfl
  attached := rfl
  uploads := by simp [pending, twoBehind]

def bothSend : List Event :=
  -- `readLoop` has chosen the two bytes to replay, and `writeUp` has taken a third
  [.frame (.attachOK 1 0), .run 0 .ok, .call [3] none, .run 1 .ok]

def replayFirst : List Event :=
  -- the replay is written first
  bothSend ++ [.run 0 .ok, .run 0 .ok, .run 1 .ok, .run 1 .ok, .run 1 .ok, .recv, .recv]

theorem upstreamWritten_eq_replayFirst : ∃ w', run (step 1 0) twoBehind replayFirst = some w' ∧
    (w'.core.objs 0).s.upstreamWritten = w'.core.cs.upBuf.endOffset ∧
    w'.core.cs.upBuf.endOffset = 3 := by
  refine ⟨_, rfl, ?_, rfl⟩
  have hes : Along (step 1 0) (fun w e => ordered 1 w e = true) twoBehind replayFirst := by decide
  exact upstreamWritten_eq_of_ordered reconnected_twoBehind hes rfl ⟨rfl, rfl, by decide⟩

def writeUpFirst : List Event :=
  -- the third byte is written first
  bothSend ++ [.run 1 .ok, .run 1 .ok, .run 1 .ok, .run 0 .ok, .run 0 .ok, .recv, .recv]

/-- The broker drops the third byte, and nothing is left to send. -/
theorem upstreamWritten_ne_writeUpFirst : ∃ w', Reconnected 1 0 twoBehind ∧
    run (step 1 0) twoBehind writeUpFirst = some w' ∧ AtRest 1 w' ∧
    (w'.core.objs 0).s.upstreamWritten = 2 ∧ w'.core.cs.upBuf.endOffset = 3 :=
  ⟨_, reconnected_twoBehind, rfl, ⟨rfl, rfl, by decide⟩, rfl, rfl⟩

-- the old frame loop writes a byte after the attach handler has read `upstreamWritten`, and its
-- ACK overtakes the ATTACH_OK
example : ∃ w', run (step 1 0) twoBehind [.late 0 [1], .frame (.ack 1 1), .run 0 .ok,
    .frame (.attachOK 1 0), .run 0 .ok] = some w' ∧ AtRest 1 w' ∧
    (w'.core.objs 0).s.upstreamWritten = 1 ∧ w'.core.cs.upBuf.endOffset = 2 :=
  ⟨_, rfl, ⟨rfl, rfl, by decide⟩, rfl, rfl⟩

end Uplink
end SubstratePoc.Pair
