import SubstratePoc.Lib.Keep
import SubstratePoc.Lib.Run
import SubstratePoc.Loopback.Wire

namespace SubstratePoc.Loopback
open Lib
open Tunnel (Bytes)

/-- `pendingAck`. -/
structure Ack where
  seq : UInt64
  totalBytes : UInt64
  runningCRC : UInt32

/-- The client's counters; `seq` of the send loop is `lastSeqSent`. -/
structure Client where
  payloadSize : ℕ
  framesSent : UInt64 := 0
  bytesSent : UInt64 := 0
  lastSeqSent : UInt64 := 0
  acksReceived : UInt64 := 0
  lastSeqAcked : UInt64 := 0
  sendRunningCRC : UInt32 := 0
  ackOrderViolations : ℕ := 0
  ackCRCMismatches : ℕ := 0
  ackBytesMismatches : ℕ := 0
  pendingCRC : UInt64 → Option (UInt64 × UInt64) := fun _ => none

namespace Client

/-- A round of `runLoopbackStream`, with the frame that it writes. -/
def send (c : Client) : Client × Bytes :=
  let seq := c.lastSeqSent + 1
  let payload := fillPayload c.payloadSize seq
  let crc := updateCRC c.sendRunningCRC payload
  let bytes := c.bytesSent + UInt64.ofNat payload.length
  ({ c with
      sendRunningCRC := crc
      bytesSent := bytes
      pendingCRC := Function.update c.pendingCRC seq (some (crc.toUInt64, bytes))
      framesSent := c.framesSent + 1
      lastSeqSent := seq },
    writeFrame seq payload)

/-- A round of `readAcks`. -/
def onAck (c : Client) (a : Ack) : Client :=
  let c := { c with
    acksReceived := c.acksReceived + 1
    ackOrderViolations := if c.lastSeqAcked ≠ 0 ∧ a.seq ≠ c.lastSeqAcked + 1 then
      c.ackOrderViolations + 1 else c.ackOrderViolations
    lastSeqAcked := a.seq }
  match c.pendingCRC a.seq with
  | none => c
  | some want => { c with
      ackCRCMismatches := if want.1.toUInt32 ≠ a.runningCRC then c.ackCRCMismatches + 1
        else c.ackCRCMismatches
      ackBytesMismatches := if want.2 ≠ a.totalBytes then c.ackBytesMismatches + 1
        else c.ackBytesMismatches
      pendingCRC := Function.update c.pendingCRC a.seq none }

end Client

/-- The server's counters, with the channel `acks` and the ack that its writer has taken. -/
structure Server where
  framesReceived : UInt64 := 0
  bytesReceived : UInt64 := 0
  lastSeqReceived : UInt64 := 0
  runningCRC : UInt32 := 0
  seqViolations : ℕ := 0
  crcViolations : ℕ := 0
  acks : List Ack := []
  taken : Option Ack := none
  /-- `handleConn` has left its loop -/
  returned : Bool := false

namespace Server

/-- A round of `handleConn` with an intact frame. -/
def accept (s : Server) (seq : UInt64) (payload : Bytes) : Server :=
  let s := { s with
    seqViolations := if 0 < s.framesReceived ∧ seq ≠ s.lastSeqReceived + 1 then
      s.seqViolations + 1 else s.seqViolations
    lastSeqReceived := seq
    framesReceived := s.framesReceived + 1
    bytesReceived := s.bytesReceived + UInt64.ofNat payload.length
    runningCRC := updateCRC s.runningCRC payload }
  if s.acks.length < 1024 then
    { s with acks := s.acks ++ [⟨seq, s.bytesReceived, s.runningCRC⟩] }
  else { s with returned := true }

def refuse (s : Server) : Server := { s with crcViolations := s.crcViolations + 1 }

end Server

/-- Both ends and what has been written to the connection; `accepted` has the numbers of the frames
that the server has accepted, `checked` counts the acks that were compared with an entry of
`pendingCRC`. -/
structure Link where
  client : Client
  server : Server := {}
  sent : List Bytes := []
  acks : List Bytes := []
  /-- the acks before this one have been read or lost -/
  next : ℕ := 0
  accepted : List ℕ := []
  checked : ℕ := 0

inductive Event
  | send
  /-- the server reads a frame that has been sent -/
  | deliver (i : ℕ)
  /-- the server reads a frame that has been damaged -/
  | damaged (b : Bytes)
  /-- the writer takes an ack off the channel -/
  | takeAck
  | writeAck
  /-- the client reads an ack, those before it being read or lost -/
  | readAck (j : ℕ)

def step (L : Link) : Event → Option Link
  | .send => some { L with client := L.client.send.1, sent := L.sent ++ [L.client.send.2] }
  | .deliver i =>
    if L.server.returned then none
    else L.sent[i]?.bind fun b => match readFrame b with
    | .ok ((seq, payload), []) => some { L with
        server := L.server.accept seq payload
        accepted := L.accepted ++ [i + 1] }
    | _ => none
  | .damaged b =>
    if L.server.returned then none
    else match readFrame b with
    | .error (.corrupt _) => some { L with server := L.server.refuse }
    | _ => none
  | .takeAck => match L.server.acks, L.server.taken with
    | a :: acks, none => some { L with server := { L.server with acks := acks, taken := some a } }
    | _, _ => none
  | .writeAck => L.server.taken.map fun a => { L with
      server := { L.server with taken := none }
      acks := L.acks ++ [writeAck a.seq a.totalBytes a.runningCRC] }
  | .readAck j =>
    if j < L.next then none
    else L.acks[j]?.bind fun b => match readAck b with
    | .ok ((seq, totalBytes, runningCRC), _) => some { L with
        client := L.client.onAck ⟨seq, totalBytes, runningCRC⟩
        next := j + 1
        checked := if (L.client.pendingCRC seq).isSome then L.checked + 1 else L.checked }
    | .error _ => none

def start (payloadSize : ℕ) : Link := { client := { payloadSize } }

/-- No counter of a violation has moved. -/
def Link.Clean (L : Link) : Prop :=
  L.server.seqViolations = 0 ∧ L.server.crcViolations = 0 ∧ L.client.ackOrderViolations = 0 ∧
    L.client.ackCRCMismatches = 0 ∧ L.client.ackBytesMismatches = 0

/-- What an ack says of the frames accepted so far. -/
def Ack.Vouches (size : ℕ) (accepted : List ℕ) (a : Ack) : Prop :=
  ∃ j x, accepted[j]? = some x ∧ a.seq = .ofNat x ∧ a.totalBytes = .ofNat ((j + 1) * size)

theorem Ack.Vouches.append {size : ℕ} {accepted : List ℕ} {a : Ack} (h : a.Vouches size accepted)
    (l : List ℕ) : a.Vouches size (accepted ++ l) := by
  obtain ⟨j, x, hx, hseq, htotal⟩ := h
  have hj := (List.getElem?_eq_some_iff.mp hx).1
  exact ⟨j, x, (List.getElem?_append_left hj).trans hx, hseq, htotal⟩

/-- How the counters of both ends stand to the frames sent and accepted. -/
structure Sound (size : ℕ) (L : Link) : Prop where
  payloadSize : L.client.payloadSize = size
  frames : ∀ i b, L.sent[i]? = some b →
    b = writeFrame (.ofNat (i + 1)) (fillPayload size (.ofNat (i + 1)))
  lastSent : L.client.lastSeqSent = .ofNat L.sent.length
  bytesSent : L.client.bytesSent = .ofNat (L.sent.length * size)
  pending : ∀ seq want, L.client.pendingCRC seq = some want →
    ∃ i ≤ L.sent.length, seq = .ofNat i ∧ want.2 = .ofNat (i * size)
  drawn : ∀ x ∈ L.accepted, 1 ≤ x ∧ x ≤ L.sent.length
  framesReceived : L.server.framesReceived = .ofNat L.accepted.length
  bytesReceived : L.server.bytesReceived = .ofNat (L.accepted.length * size)
  lastReceived : ∀ x, L.accepted.getLast? = some x → L.server.lastSeqReceived = .ofNat x
  inOrder : L.sent.length < 2 ^ 64 → L.server.seqViolations = 0 →
    ∃ a, L.accepted = List.range' a L.accepted.length
  queued : ∀ a ∈ L.server.acks, a.Vouches size L.accepted
  taken : ∀ a, L.server.taken = some a → a.Vouches size L.accepted
  written : ∀ b ∈ L.acks, ∃ a : Ack, b = writeAck a.seq a.totalBytes a.runningCRC ∧
    a.Vouches size L.accepted
  checked : 0 < L.checked → L.client.ackBytesMismatches = 0 → ∃ a : Ack,
    a.Vouches size L.accepted ∧
      ∃ i ≤ L.sent.length, a.seq = .ofNat i ∧ a.totalBytes = .ofNat (i * size)

theorem Sound.start (size : ℕ) : Sound size (start size) where
  payloadSize := rfl
  frames i b h := by cases h
  lastSent := rfl
  bytesSent := by simp [Loopback.start]
  pending seq want h := by cases h
  drawn x h := by cases h
  framesReceived := rfl
  bytesReceived := by simp [Loopback.start]
  lastReceived x h := by cases h
  inOrder _ _ := ⟨0, rfl⟩
  queued a h := by cases h
  taken a h := by cases h
  written b h := by cases h
  checked h := by cases h

theorem Client.onAck_spec (c : Client) (a : Ack) :
    ((c.onAck a).payloadSize = c.payloadSize ∧ (c.onAck a).lastSeqSent = c.lastSeqSent ∧
      (c.onAck a).bytesSent = c.bytesSent) ∧
    (∀ seq want, (c.onAck a).pendingCRC seq = some want → c.pendingCRC seq = some want) ∧
    ((c.onAck a).ackBytesMismatches = 0 → c.ackBytesMismatches = 0 ∧
      ∀ want, c.pendingCRC a.seq = some want → want.2 = a.totalBytes) := by
  unfold onAck
  cases hp : c.pendingCRC a.seq with
  | none => simp [hp]
  | some want =>
    simp only [hp, Option.some.injEq]
    refine ⟨by simp, fun seq w h => ?_, fun h => ?_⟩
    · obtain ⟨-, heq⟩ | ⟨-, heq⟩ := update_cases c.pendingCRC a.seq none seq <;> rw [heq] at h
      · cases h
      · exact h
    · split_ifs at h with hne
      exact ⟨h, by simpa using hne⟩

theorem Client.pendingCRC_send {c : Client} {seq : UInt64} {want : UInt64 × UInt64}
    (h : c.send.1.pendingCRC seq = some want) : c.pendingCRC seq = some want ∨
      seq = c.lastSeqSent + 1 ∧ want.2 = c.bytesSent + .ofNat c.payloadSize := by
  simp only [send] at h
  obtain ⟨hs, heq⟩ | ⟨-, heq⟩ := update_cases c.pendingCRC (c.lastSeqSent + 1) _ seq <;>
    rw [heq] at h
  · refine .inr ⟨hs, ?_⟩
    rw [← Option.some.inj h, length_fillPayload]
  · exact .inl h

theorem Server.accept_spec (s : Server) (seq : UInt64) (payload : Bytes) :
    (s.accept seq payload).framesReceived = s.framesReceived + 1 ∧
    (s.accept seq payload).bytesReceived = s.bytesReceived + .ofNat payload.length ∧
    (s.accept seq payload).lastSeqReceived = seq ∧ (s.accept seq payload).taken = s.taken ∧
    ((s.accept seq payload).seqViolations = 0 → s.seqViolations = 0 ∧
      (0 < s.framesReceived → seq = s.lastSeqReceived + 1)) ∧
    ∀ a ∈ (s.accept seq payload).acks, a ∈ s.acks ∨
      a.seq = seq ∧ a.totalBytes = s.bytesReceived + .ofNat payload.length := by
  have hviolations (n : ℕ) (h : (if 0 < s.framesReceived ∧ seq ≠ s.lastSeqReceived + 1 then n + 1
      else n) = 0) : n = 0 ∧ (0 < s.framesReceived → seq = s.lastSeqReceived + 1) := by
    split_ifs at h with hne
    exact ⟨h, by simpa using hne⟩
  unfold accept
  dsimp only
  split
  · refine ⟨rfl, rfl, rfl, rfl, hviolations _, fun a ha => ?_⟩
    refine (List.mem_append.mp ha).imp id fun ha => ?_
    rw [List.mem_singleton.mp ha]
    exact ⟨rfl, rfl⟩
  · exact ⟨rfl, rfl, rfl, rfl, hviolations _, fun a ha => .inl ha⟩

section Step
variable {size : ℕ} {L : Link}

theorem Sound.send (hI : Sound size L) :
    Sound size { L with client := L.client.send.1, sent := L.sent ++ [L.client.send.2] } := by
  have hseq : L.client.lastSeqSent + 1 = .ofNat (L.sent.length + 1) := by
    rw [hI.lastSent, UInt64.ofNat_add]
    rfl
  have hbytes : L.client.bytesSent + .ofNat size = .ofNat ((L.sent.length + 1) * size) := by
    rw [hI.bytesSent, Nat.succ_mul, UInt64.ofNat_add]
  have hlen : (L.sent ++ [L.client.send.2]).length = L.sent.length + 1 := by simp
  refine { hI with
    frames := fun i b hb => ?_
    lastSent := ?_
    bytesSent := ?_
    pending := fun seq want h => ?_
    drawn := fun x hx => ?_
    inOrder := fun h => hI.inOrder ?_
    checked := fun h hm => ?_ }
  · rw [List.getElem?_append] at hb
    split_ifs at hb with hi
    · exact hI.frames i b hb
    · rw [List.getElem?_singleton] at hb
      split_ifs at hb with h0
      obtain rfl : i = L.sent.length := by omega
      rw [← Option.some.inj hb, Client.send, hseq, hI.payloadSize]
  · rw [hlen]
    exact hseq
  · rw [hlen, ← hbytes]
    simp [Client.send, hI.payloadSize]
  · rw [hlen]
    obtain h | ⟨hs, hw⟩ := Client.pendingCRC_send h
    · obtain ⟨i, hi, hw⟩ := hI.pending seq want h
      exact ⟨i, by omega, hw⟩
    · rw [hI.payloadSize] at hw
      exact ⟨L.sent.length + 1, le_rfl, hs.trans hseq, hw.trans hbytes⟩
  · have := hI.drawn x hx
    rw [hlen]
    omega
  · rw [hlen] at h
    omega
  · obtain ⟨a, ha, i, hi, hs⟩ := hI.checked h hm
    exact ⟨a, ha, i, by rw [hlen]; omega, hs⟩

theorem ofNat_inj_of_le {n x y : ℕ} (hn : n < 2 ^ 64) (hx : x ≤ n) (hy : y ≤ n)
    (h : UInt64.ofNat x = .ofNat y) : x = y := by
  have h' := congrArg UInt64.toNat h
  rwa [UInt64.toNat_ofNat_of_lt' (hx.trans_lt hn), UInt64.toNat_ofNat_of_lt' (hy.trans_lt hn)] at h'

theorem next_eq {n x y : ℕ} (hn : n < 2 ^ 64) (hx : 1 ≤ x ∧ x ≤ n) (hy : y ≤ n)
    (h : UInt64.ofNat x = .ofNat y + 1) : x = y + 1 := by
  have h' := congrArg UInt64.toNat h
  simp only [UInt64.toNat_add, UInt64.toNat_ofNat', UInt64.toNat_one] at h'
  omega

theorem Sound.deliver (hI : Sound size L) {i : ℕ} {b payload : Bytes} {seq : UInt64}
    (hb : L.sent[i]? = some b) (hread : readFrame b = .ok ((seq, payload), [])) :
    Sound size { L with
      server := L.server.accept seq payload
      accepted := L.accepted ++ [i + 1] } := by
  -- a frame that is read whole is the one that was sent
  obtain ⟨rfl, rfl⟩ : seq = .ofNat (i + 1) ∧ payload = fillPayload size (.ofNat (i + 1)) := by
    have h := (readFrame_eq_ok.mp hread).2
    rw [hI.frames i b hb, List.append_nil] at h
    obtain ⟨hseq, hpayload⟩ := writeFrame_inj h
    exact ⟨hseq.symm, hpayload.symm⟩
  have hi : i < L.sent.length := (List.getElem?_eq_some_iff.mp hb).1
  obtain ⟨hframes, hbytes, hlast, htaken, hviolations, hacks⟩ :=
    L.server.accept_spec (.ofNat (i + 1)) (fillPayload size (.ofNat (i + 1)))
  have hlen : (L.accepted ++ [i + 1]).length = L.accepted.length + 1 := by simp
  have hcount : L.server.framesReceived + 1 = .ofNat (L.accepted.length + 1) := by
    rw [hI.framesReceived, UInt64.ofNat_add]
    rfl
  have htotal : L.server.bytesReceived + .ofNat (fillPayload size (.ofNat (i + 1))).length =
      .ofNat ((L.accepted.length + 1) * size) := by
    rw [hI.bytesReceived, length_fillPayload, Nat.succ_mul, UInt64.ofNat_add]
  refine { hI with
    drawn := fun x hx => ?_
    framesReceived := ?_
    bytesReceived := ?_
    lastReceived := fun x hx => ?_
    inOrder := fun (h64 : L.sent.length < 2 ^ 64) hv => ?_
    queued := fun a ha => ?_
    taken := fun a ha => (hI.taken a (htaken ▸ ha)).append _
    written := fun b hb => ?_
    checked := fun h hm => ?_ }
  · rcases List.mem_append.mp hx with hx | hx
    · exact hI.drawn x hx
    · rw [List.mem_singleton.mp hx]
      exact ⟨by omega, hi⟩
  · rw [hlen]
    exact hframes.trans hcount
  · rw [hlen]
    exact hbytes.trans htotal
  · obtain rfl : i + 1 = x := by simpa using hx
    exact hlast
  · obtain ⟨hv, hnext⟩ := hviolations hv
    obtain ⟨a, ha⟩ := hI.inOrder h64 hv
    rw [hlen]
    cases hm : L.accepted.length with
    | zero =>
      rw [List.length_eq_zero_iff.mp hm]
      exact ⟨i + 1, rfl⟩
    | succ m =>
      rw [hm] at ha
      have hmem (x : ℕ) (hx : a ≤ x ∧ x ≤ a + m) : x ∈ L.accepted := by
        rw [ha, List.mem_range'_1]
        omega
      have hfirst := hI.drawn a (hmem a (by omega))
      have hlast := hI.drawn (a + m) (hmem (a + m) (by omega))
      have hseq : L.server.lastSeqReceived = .ofNat (a + m) := by
        apply hI.lastReceived
        rw [ha, List.range'_1_concat, List.getLast?_concat]
      have hpos : 0 < L.server.framesReceived := by
        have h64 : m + 1 < 2 ^ 64 := by omega
        rw [hI.framesReceived, hm, UInt64.lt_iff_toNat_lt, UInt64.toNat_ofNat_of_lt' h64]
        exact Nat.succ_pos m
      have hi : i + 1 = a + m + 1 :=
        next_eq h64 ⟨by omega, hi⟩ hlast.2 ((hnext hpos).trans (by rw [hseq]))
      refine ⟨a, ?_⟩
      rw [List.range'_1_concat, ← ha, hi]
      rfl
  · rcases hacks a ha with ha | ⟨hs, ht⟩
    · exact (hI.queued a ha).append _
    · exact ⟨L.accepted.length, i + 1, by simp, hs, ht.trans htotal⟩
  · obtain ⟨a, ha, hv⟩ := hI.written b hb
    exact ⟨a, ha, hv.append _⟩
  · obtain ⟨a, ha, hw⟩ := hI.checked h hm
    exact ⟨a, ha.append _, hw⟩

theorem Sound.readAck (hI : Sound size L) {j : ℕ} {b r : Bytes} {a : Ack} (hb : L.acks[j]? = some b)
    (hread : Loopback.readAck b = .ok ((a.seq, a.totalBytes, a.runningCRC), r)) :
    Sound size { L with
      client := L.client.onAck a
      next := j + 1
      checked := if (L.client.pendingCRC a.seq).isSome then L.checked + 1 else L.checked } := by
  obtain ⟨⟨hsize, hlast, hbytes⟩, hpending, hmismatches⟩ := L.client.onAck_spec a
  refine { hI with
    payloadSize := hsize.trans hI.payloadSize
    lastSent := hlast.trans hI.lastSent
    bytesSent := hbytes.trans hI.bytesSent
    pending := fun seq want h => hI.pending seq want (hpending seq want h)
    checked := fun h hm => ?_ }
  obtain ⟨hm, hwant⟩ := hmismatches hm
  cases hp : L.client.pendingCRC a.seq with
  | none =>
    rw [hp] at h
    exact hI.checked h hm
  | some want =>
    -- the ack that has just been read is one that was written
    obtain ⟨a', rfl, hv⟩ := hI.written b (List.mem_of_getElem? hb)
    rw [← List.append_nil (writeAck ..), readAck_writeAck] at hread
    obtain ⟨⟨hs, ht, -⟩, -⟩ : (a'.seq = a.seq ∧ a'.totalBytes = a.totalBytes ∧
        a'.runningCRC = a.runningCRC) ∧ [] = r := by simpa using hread
    obtain ⟨i, hi, hseq, htotal⟩ := hI.pending _ _ hp
    exact ⟨a', hv, i, hi, hs.trans hseq, ht.trans ((hwant want hp).symm.trans htotal)⟩

theorem Sound.step {L' : Link} {e : Event} (hI : Sound size L) (h : step L e = some L') :
    Sound size L' := by
  cases e with
  | send =>
    cases h
    exact hI.send
  | deliver i =>
    simp only [Loopback.step] at h
    split_ifs at h
    obtain ⟨b, hb, h⟩ := Option.bind_eq_some_iff.mp h
    split at h
    · rename_i hread
      cases h
      exact hI.deliver hb hread
    · cases h
  | damaged b =>
    simp only [Loopback.step] at h
    split_ifs at h
    split at h
    · cases h
      exact { hI with }
    · cases h
  | takeAck =>
    simp only [Loopback.step] at h
    split at h
    · rename_i a acks hacks _
      cases h
      have hqueued := hI.queued
      rw [hacks] at hqueued
      refine { hI with
        queued := fun x hx => hqueued x (List.mem_cons_of_mem _ hx)
        taken := fun x hx => hqueued x ?_ }
      rw [← Option.some.inj hx]
      exact List.mem_cons_self
    · cases h
  | writeAck =>
    obtain ⟨a, ha, rfl⟩ := Option.map_eq_some_iff.mp h
    refine { hI with
      taken := fun x hx => by cases hx
      written := fun b hb => ?_ }
    rcases List.mem_append.mp hb with hb | hb
    · exact hI.written b hb
    · exact ⟨a, List.mem_singleton.mp hb, hI.taken a ha⟩
  | readAck j =>
    simp only [Loopback.step] at h
    split_ifs at h
    obtain ⟨b, hb, h⟩ := Option.bind_eq_some_iff.mp h
    split at h
    · rename_i seq totalBytes runningCRC r hread
      cases h
      exact hI.readAck (a := ⟨seq, totalBytes, runningCRC⟩) hb hread
    · cases h

end Step

/-- If no counter of a violation has moved and an ack has been compared, the server has accepted
the frames from the first on, each once and in order. -/
theorem accepted_eq_range {size : ℕ} (hsize : 0 < size) {es : List Event} {L : Link}
    (hrun : run step (start size) es = some L) (hbytes : L.sent.length * size < 2 ^ 64)
    (hclean : L.Clean) (hchecked : 0 < L.checked) :
    ∃ m ≤ L.sent.length, L.accepted = List.range' 1 m := by
  have hI : Sound size L := run_preserves (fun _ _ _ hI h => hI.step h) (.start size) hrun
  obtain ⟨hseq, -, -, -, hmismatches⟩ := hclean
  have hn : L.sent.length < 2 ^ 64 := (Nat.le_mul_of_pos_right _ hsize).trans_lt hbytes
  obtain ⟨a, ha⟩ := hI.inOrder hn hseq
  obtain ⟨ack, ⟨j, x, hx, hxseq, hxtotal⟩, i, hi, hiseq, hitotal⟩ := hI.checked hchecked hmismatches
  rw [ha] at hx
  obtain ⟨hj, rfl⟩ : j < L.accepted.length ∧ a + j = x := by
    simpa [List.getElem?_eq_some_iff] using hx
  have hmem (y : ℕ) (hy : a ≤ y ∧ y < a + L.accepted.length) : 1 ≤ y ∧ y ≤ L.sent.length :=
    hI.drawn y (by rw [ha, List.mem_range'_1]; exact hy)
  have hfirst := hmem a (by omega)
  have hlast := hmem (a + (L.accepted.length - 1)) (by omega)
  have hnumber : a + j = i :=
    ofNat_inj_of_le hn (hmem (a + j) (by omega)).2 hi (hxseq.symm.trans hiseq)
  -- the bytes acknowledged are those of the frames accepted, the bytes expected those of all frames
  have htotal : (j + 1) * size = i * size :=
    ofNat_inj_of_le hbytes (Nat.mul_le_mul_right _ (by omega)) (Nat.mul_le_mul_right _ hi)
      (hxtotal.symm.trans hitotal)
  obtain rfl : a = 1 := by
    have := Nat.eq_of_mul_eq_mul_right hsize htotal
    omega
  exact ⟨L.accepted.length, by omega, ha⟩

def twoOfThree : List Event :=
  -- three frames are sent, two arrive, and both acks are read
  [.send, .send, .deliver 0, .takeAck, .send, .deliver 1, .writeAck, .takeAck, .readAck 0,
    .writeAck, .readAck 1]

theorem accepted_twoOfThree : ∃ L, run step (start 2) twoOfThree = some L ∧ L.sent.length = 3 ∧
    L.checked = 2 ∧ L.Clean ∧ ∃ m ≤ L.sent.length, L.accepted = List.range' 1 m := by
  have hend : (run step (start 2) twoOfThree).map (fun L => [L.sent.length, L.checked,
      L.server.seqViolations, L.server.crcViolations, L.client.ackOrderViolations,
      L.client.ackCRCMismatches, L.client.ackBytesMismatches]) = some [3, 2, 0, 0, 0, 0, 0] := by
    decide +kernel
  obtain ⟨L, hrun, hL⟩ := Option.map_eq_some_iff.mp hend
  obtain ⟨hsent, hchecked, hclean⟩ : L.sent.length = 3 ∧ L.checked = 2 ∧ L.Clean := by
    simpa [Link.Clean] using hL
  refine ⟨L, hrun, hsent, hchecked, hclean, ?_⟩
  exact accepted_eq_range (by decide) hrun (by rw [hsent]; decide) hclean (by omega)

end SubstratePoc.Loopback
