import SubstratePoc.Lib.BigEndian
import SubstratePoc.Lib.Bufio
import SubstratePoc.Lib.Decoder
import SubstratePoc.Tunnel.Buffer

namespace SubstratePoc.Tunnel
open Lib

inductive FrameType
  | typeHello | typeOpen | typeAttach | typeAttachOK | typeData | typeAck | typeClose
  | typePing | typePong
  deriving DecidableEq

namespace FrameType

/-- `iota + 1`. -/
def byte : FrameType → UInt8
  | typeHello => 1
  | typeOpen => 2
  | typeAttach => 3
  | typeAttachOK => 4
  | typeData => 5
  | typeAck => 6
  | typeClose => 7
  | typePing => 8
  | typePong => 9

/-- The case a `switch f.Type` takes; `none` is the code after the switch. -/
def ofByte (t : UInt8) : Option FrameType :=
  if t = 1 then some typeHello else if t = 2 then some typeOpen
  else if t = 3 then some typeAttach else if t = 4 then some typeAttachOK
  else if t = 5 then some typeData else if t = 6 then some typeAck
  else if t = 7 then some typeClose else if t = 8 then some typePing
  else if t = 9 then some typePong else none

end FrameType

/-- `DirUp`: the agent→upstream half is closed. -/
def dirUp : UInt8 := 1

/-- `DirDown`: the upstream→agent half is closed. -/
def dirDown : UInt8 := 2

/-- `MaxPayload` bounds one DATA frame. -/
def maxPayload : ℕ := 256 * 1024

def maxString : ℕ := 4096

/-- The union of all frame fields; `type` says which are meaningful. -/
structure Frame where
  type : UInt8
  actorID : Bytes := []
  sessionID : UInt64 := 0
  target : Bytes := []
  offset : UInt64 := 0
  payload : Bytes := []
  dir : UInt8 := 0
  reason : Bytes := []
  nonce : UInt64 := 0
  deriving DecidableEq

/-- What `encodeFrame` refuses, with the number its error text names. -/
inductive EncodeError
  | payloadTooLarge (n : ℕ)
  | stringTooLong (n : ℕ)
  | unknownType (t : UInt8)
  deriving DecidableEq

inductive DecodeError
  /-- `io.EOF`: nothing was left to read -/
  | eof
  /-- `io.ErrUnexpectedEOF`: a field was cut short -/
  | unexpectedEOF
  | payloadTooLarge (n : ℕ)
  | unknownType (t : UInt8)
  deriving DecidableEq

abbrev ByteWriter := BufWriter UInt8

def putU32 (w : ByteWriter) (v : UInt32) : ByteWriter := w.write (beBytes 4 v.toNat)

def putU64 (w : ByteWriter) (v : UInt64) : ByteWriter := w.write (beBytes 8 v.toNat)

def putString (w : ByteWriter) (s : Bytes) : ByteWriter × Option EncodeError :=
  if maxString < s.length then (w, some (.stringTooLong s.length))
  else ((w.write (beBytes 2 s.length)).writeString s, none)

/-- `encodeFrame`.  The writer is returned on the error branches too: what was written before
the length check stays in it. -/
def encodeFrame (w : ByteWriter) (f : Frame) : ByteWriter × Option EncodeError :=
  let w := w.writeByte f.type
  match FrameType.ofByte f.type with
  | some .typeHello => putString w f.actorID
  | some .typeOpen => putString (putU64 w f.sessionID) f.target
  | some .typeAttach => putString (putU64 (putU64 w f.sessionID) f.offset) f.target
  | some .typeAttachOK => (putU64 (putU64 w f.sessionID) f.offset, none)
  | some .typeData =>
    -- the header is in the writer before the length is checked
    let w := putU64 (putU64 w f.sessionID) f.offset
    if maxPayload < f.payload.length then (w, some (.payloadTooLarge f.payload.length))
    else ((putU32 w (UInt32.ofNat f.payload.length)).write f.payload, none)
  | some .typeAck => (putU64 (putU64 w f.sessionID) f.offset, none)
  | some .typeClose => putString ((putU64 w f.sessionID).writeByte f.dir) f.reason
  | some .typePing => (putU64 w f.nonce, none)
  | some .typePong => (putU64 w f.nonce, none)
  | none => (w, some (.unknownType f.type))

/-- What `decodeFrame` calls: `r.ReadByte` and `io.ReadFull`. -/
structure Source (σ : Type) where
  readByte : StateT σ (Except DecodeError) UInt8
  readFull : ℕ → StateT σ (Except DecodeError) Bytes

namespace Source

variable {σ : Type}

def getU32 (r : Source σ) : StateT σ (Except DecodeError) UInt32 := do
  let b ← r.readFull 4
  return UInt32.ofNat (beNat b)

def getU64 (r : Source σ) : StateT σ (Except DecodeError) UInt64 := do
  let b ← r.readFull 8
  return UInt64.ofNat (beNat b)

/-- `getString`: the two length bytes are not compared with `maxString`. -/
def getString (r : Source σ) : StateT σ (Except DecodeError) Bytes := do
  let b ← r.readFull 2
  r.readFull (beNat b)

def readPayload (r : Source σ) (n : ℕ) : StateT σ (Except DecodeError) Bytes := fun s =>
  if maxPayload < n then .error (.payloadTooLarge n) else r.readFull n s

def decodeFrame (r : Source σ) : StateT σ (Except DecodeError) Frame := do
  let t ← r.readByte
  match FrameType.ofByte t with
  | some .typeHello => do
    let actorID ← r.getString
    return { type := t, actorID }
  | some .typeOpen => do
    let sessionID ← r.getU64
    let target ← r.getString
    return { type := t, sessionID, target }
  | some .typeAttach => do
    let sessionID ← r.getU64
    let offset ← r.getU64
    let target ← r.getString
    return { type := t, sessionID, offset, target }
  | some .typeAttachOK => do
    let sessionID ← r.getU64
    let offset ← r.getU64
    return { type := t, sessionID, offset }
  | some .typeData => do
    let sessionID ← r.getU64
    let offset ← r.getU64
    let n ← r.getU32
    let payload ← r.readPayload n.toNat
    return { type := t, sessionID, offset, payload }
  | some .typeAck => do
    let sessionID ← r.getU64
    let offset ← r.getU64
    return { type := t, sessionID, offset }
  | some .typeClose => do
    let sessionID ← r.getU64
    let dir ← r.readByte
    let reason ← r.getString
    return { type := t, sessionID, dir, reason }
  | some .typePing => do
    let nonce ← r.getU64
    return { type := t, nonce }
  | some .typePong => do
    let nonce ← r.getU64
    return { type := t, nonce }
  | none => fun _ => .error (.unknownType t)

end Source

def ends : Ends DecodeError where
  eof := .eof
  unexpectedEOF := .unexpectedEOF

/-- A read from the stream: a value and the bytes left, or the error. -/
abbrev Reader (α : Type) := StateT Bytes (Except DecodeError) α

def readByte : Reader UInt8 := takeByte ends

def readFull (n : ℕ) : Reader Bytes := takeFull ends n

def whole : Source Bytes where
  readByte := readByte
  readFull := readFull

def decodeFrame : Reader Frame := whole.decodeFrame

theorem whole_readFull (n : ℕ) : whole.readFull n = readFull n := rfl

/-! ## What the encoder writes -/

/-- The fields that the type of the frame makes meaningful. -/
def Frame.meaningful (f : Frame) : Frame :=
  match FrameType.ofByte f.type with
  | some .typeHello => { type := f.type, actorID := f.actorID }
  | some .typeOpen => { type := f.type, sessionID := f.sessionID, target := f.target }
  | some .typeAttach =>
    { type := f.type, sessionID := f.sessionID, offset := f.offset, target := f.target }
  | some .typeAttachOK => { type := f.type, sessionID := f.sessionID, offset := f.offset }
  | some .typeData =>
    { type := f.type, sessionID := f.sessionID, offset := f.offset, payload := f.payload }
  | some .typeAck => { type := f.type, sessionID := f.sessionID, offset := f.offset }
  | some .typeClose =>
    { type := f.type, sessionID := f.sessionID, dir := f.dir, reason := f.reason }
  | some .typePing => { type := f.type, nonce := f.nonce }
  | some .typePong => { type := f.type, nonce := f.nonce }
  | none => { type := f.type }

def stringRefusal (s : Bytes) : Option EncodeError :=
  if maxString < s.length then some (.stringTooLong s.length) else none

/-- The error `encodeFrame` returns, whatever is in the writer. -/
def refusal (f : Frame) : Option EncodeError :=
  match FrameType.ofByte f.type with
  | some .typeHello => stringRefusal f.actorID
  | some .typeOpen => stringRefusal f.target
  | some .typeAttach => stringRefusal f.target
  | some .typeData =>
    if maxPayload < f.payload.length then some (.payloadTooLarge f.payload.length) else none
  | some .typeClose => stringRefusal f.reason
  | some .typeAttachOK | some .typeAck | some .typePing | some .typePong => none
  | none => some (.unknownType f.type)

/-- The bytes a string field puts into the writer: none if it is refused. -/
def stringBytes (s : Bytes) : Bytes :=
  if maxString < s.length then [] else beBytes 2 s.length ++ s

def payloadBytes (p : Bytes) : Bytes :=
  if maxPayload < p.length then [] else beBytes 4 (UInt32.ofNat p.length).toNat ++ p

/-- The bytes `encodeFrame` puts into the writer, refused frames included. -/
def written (f : Frame) : Bytes :=
  f.type :: match FrameType.ofByte f.type with
  | some .typeHello => stringBytes f.actorID
  | some .typeOpen => beBytes 8 f.sessionID.toNat ++ stringBytes f.target
  | some .typeAttach =>
    beBytes 8 f.sessionID.toNat ++ (beBytes 8 f.offset.toNat ++ stringBytes f.target)
  | some .typeAttachOK => beBytes 8 f.sessionID.toNat ++ beBytes 8 f.offset.toNat
  | some .typeData =>
    beBytes 8 f.sessionID.toNat ++ (beBytes 8 f.offset.toNat ++ payloadBytes f.payload)
  | some .typeAck => beBytes 8 f.sessionID.toNat ++ beBytes 8 f.offset.toNat
  | some .typeClose => beBytes 8 f.sessionID.toNat ++ (f.dir :: stringBytes f.reason)
  | some .typePing => beBytes 8 f.nonce.toNat
  | some .typePong => beBytes 8 f.nonce.toNat
  | none => []

theorem putString_error (w : ByteWriter) (s : Bytes) : (putString w s).2 = stringRefusal s := by
  unfold putString stringRefusal
  split_ifs <;> rfl

theorem emits_putString (w : ByteWriter) (s : Bytes) :
    BufWriter.Emits w (putString w s).1 (stringBytes s) := by
  unfold putString stringBytes
  split_ifs
  · exact BufWriter.Emits.refl w
  · exact (BufWriter.emits_write w _).trans (BufWriter.emits_writeString _ s)

theorem emits_putU64 (w : ByteWriter) (v : UInt64) :
    BufWriter.Emits w (putU64 w v) (beBytes 8 v.toNat) := BufWriter.emits_write w _

theorem encodeFrame_error (w : ByteWriter) (f : Frame) : (encodeFrame w f).2 = refusal f := by
  unfold encodeFrame refusal
  rcases FrameType.ofByte f.type with _ | k
  · rfl
  cases k with
  | typeHello | typeOpen | typeAttach | typeClose => exact putString_error _ _
  | typeAttachOK | typeAck | typePing | typePong => rfl
  | typeData =>
    dsimp only
    split_ifs <;> rfl

theorem emits_encodeFrame (w : ByteWriter) (f : Frame) :
    BufWriter.Emits w (encodeFrame w f).1 (written f) := by
  have ht := BufWriter.emits_writeByte w f.type
  have hs := ht.trans (emits_putU64 (w.writeByte f.type) f.sessionID)
  have hso := hs.trans (emits_putU64 _ f.offset)
  unfold encodeFrame written
  rcases FrameType.ofByte f.type with _ | k
  · exact ht
  cases k with
  | typeHello => exact ht.trans (emits_putString _ _)
  | typeOpen => exact hs.trans (emits_putString _ _)
  | typeAttach => simpa using hso.trans (emits_putString _ f.target)
  | typeAttachOK | typeAck => simpa using hso
  | typeData =>
    unfold payloadBytes
    dsimp only
    split_ifs
    · simpa using hso
    · have hn := hso.trans (BufWriter.emits_write _ (beBytes 4 (UInt32.ofNat f.payload.length).toNat))
      simpa [putU32] using hn.trans (BufWriter.emits_write _ f.payload)
  | typeClose =>
    simpa using (hs.trans (BufWriter.emits_writeByte _ f.dir)).trans (emits_putString _ f.reason)
  | typePing | typePong => exact ht.trans (emits_putU64 _ _)

/-! ## What the decoder reads back -/

theorem Reader.bind_ok {α β : Type} {x : Reader α} {k : α → Reader β} {b r : Bytes} {a : α}
    (h : x b = .ok (a, r)) : (x >>= k) b = k a r := by
  simp [bind, StateT.bind, Except.bind, h]

theorem Reader.bind_eq_ok {α β : Type} {x : Reader α} {k : α → Reader β} {b r : Bytes} {v : β}
    (h : (x >>= k) b = .ok (v, r)) : ∃ a r', x b = .ok (a, r') ∧ k a r' = .ok (v, r) := by
  simp only [bind, StateT.bind, Except.bind] at h
  split at h
  · cases h
  · exact ⟨_, _, by assumption, h⟩

theorem readFull_append {n : ℕ} (p r : Bytes) (h : p.length = n) :
    readFull n (p ++ r) = .ok (p, r) := by
  subst h
  simp [readFull, takeFull]

theorem readByte_eq_ok {b r : Bytes} {c : UInt8} (h : readByte b = .ok (c, r)) : b = c :: r := by
  cases b with
  | nil => cases h
  | cons c' b =>
    cases h
    rfl

theorem readFull_eq_ok {n : ℕ} {b r p : Bytes} (h : readFull n b = .ok (p, r)) :
    p.length = n ∧ b = p ++ r := by
  unfold readFull takeFull at h
  split_ifs at h with hn
  cases h
  exact ⟨List.length_take_of_le hn, (List.take_append_drop n b).symm⟩

theorem getU64_append (v : UInt64) (r : Bytes) :
    whole.getU64 (beBytes 8 v.toNat ++ r) = .ok (v, r) := by
  unfold Source.getU64
  rw [whole_readFull, Reader.bind_ok (readFull_append _ r (length_beBytes 8 _)), uint64_beNat_beBytes]
  rfl

theorem getU64_eq_ok {b r : Bytes} {v : UInt64} (h : whole.getU64 b = .ok (v, r)) :
    b = beBytes 8 v.toNat ++ r := by
  obtain ⟨p, r', hp, hv⟩ := Reader.bind_eq_ok h
  obtain ⟨hlen, rfl⟩ := readFull_eq_ok hp
  cases hv
  rw [beBytes_uint64_beNat hlen]

theorem getU32_append (v : UInt32) (r : Bytes) :
    whole.getU32 (beBytes 4 v.toNat ++ r) = .ok (v, r) := by
  unfold Source.getU32
  rw [whole_readFull, Reader.bind_ok (readFull_append _ r (length_beBytes 4 _)), uint32_beNat_beBytes]
  rfl

theorem getU32_eq_ok {b r : Bytes} {v : UInt32} (h : whole.getU32 b = .ok (v, r)) :
    b = beBytes 4 v.toNat ++ r := by
  obtain ⟨p, r', hp, hv⟩ := Reader.bind_eq_ok h
  obtain ⟨hlen, rfl⟩ := readFull_eq_ok hp
  cases hv
  rw [beBytes_uint32_beNat hlen]

theorem getString_announced {s : Bytes} (h : s.length < 256 ^ 2) (r : Bytes) :
    whole.getString (beBytes 2 s.length ++ (s ++ r)) = .ok (s, r) := by
  unfold Source.getString
  rw [whole_readFull, Reader.bind_ok (readFull_append _ (s ++ r) (length_beBytes 2 _)), beNat_beBytes h]
  exact readFull_append s r rfl

theorem getString_eq_ok {b r s : Bytes} (h : whole.getString b = .ok (s, r)) :
    b = beBytes 2 s.length ++ (s ++ r) := by
  obtain ⟨p, r', hp, hs⟩ := Reader.bind_eq_ok h
  obtain ⟨htwo, rfl⟩ := readFull_eq_ok hp
  obtain ⟨hlen, rfl⟩ := readFull_eq_ok hs
  rw [hlen, ← htwo, beBytes_beNat]

theorem stringRefusal_eq_none {s : Bytes} : stringRefusal s = none ↔ s.length ≤ maxString := by
  unfold stringRefusal
  split_ifs with h <;> simp <;> omega

theorem stringBytes_of_le {s : Bytes} (h : s.length ≤ maxString) :
    stringBytes s = beBytes 2 s.length ++ s := if_neg (Nat.not_lt.mpr h)

theorem getString_append {s : Bytes} (h : stringRefusal s = none) (r : Bytes) :
    whole.getString (stringBytes s ++ r) = .ok (s, r) := by
  have hs := stringRefusal_eq_none.mp h
  have hl : s.length < 256 ^ 2 := by
    unfold maxString at hs
    omega
  rw [stringBytes_of_le hs, List.append_assoc]
  exact getString_announced hl r

theorem readPayload_append {p : Bytes} (h : ¬maxPayload < p.length) (r : Bytes) :
    (whole.getU32 >>= fun n => whole.readPayload n.toNat) (payloadBytes p ++ r) = .ok (p, r) := by
  have hl : (UInt32.ofNat p.length).toNat = p.length := by
    rw [UInt32.toNat_ofNat']
    unfold maxPayload at h
    omega
  unfold payloadBytes
  rw [if_neg h, List.append_assoc, Reader.bind_ok (getU32_append _ _), hl, Source.readPayload, if_neg h]
  exact readFull_append p r rfl

theorem readPayload_eq_ok {n : UInt32} {b b' r p : Bytes} (hn : whole.getU32 b = .ok (n, b'))
    (h : whole.readPayload n.toNat b' = .ok (p, r)) :
    b = payloadBytes p ++ r ∧ p.length ≤ maxPayload := by
  unfold Source.readPayload at h
  split_ifs at h with hle
  obtain ⟨hlen, rfl⟩ := readFull_eq_ok h
  have hsize : (UInt32.ofNat p.length).toNat = n.toNat := by
    rw [hlen, UInt32.ofNat_toNat]
  rw [getU32_eq_ok hn, payloadBytes, hsize, hlen, if_neg hle, List.append_assoc]
  exact ⟨rfl, by omega⟩

/-- The bytes from which `decodeFrame` reads a frame and leaves `r`. -/
inductive Decodes (r : Bytes) : Bytes → Frame → Prop
  | hello {t : UInt8} {s : Bytes} (hk : FrameType.ofByte t = some .typeHello) :
    Decodes r (t :: (beBytes 2 s.length ++ (s ++ r))) { type := t, actorID := s }
  | opens {t : UInt8} {sid : UInt64} {s : Bytes} (hk : FrameType.ofByte t = some .typeOpen) :
    Decodes r (t :: (beBytes 8 sid.toNat ++ (beBytes 2 s.length ++ (s ++ r))))
      { type := t, sessionID := sid, target := s }
  | attach {t : UInt8} {sid offset : UInt64} {s : Bytes}
      (hk : FrameType.ofByte t = some .typeAttach) :
    Decodes r (t :: (beBytes 8 sid.toNat ++ (beBytes 8 offset.toNat ++
        (beBytes 2 s.length ++ (s ++ r)))))
      { type := t, sessionID := sid, offset, target := s }
  | attachOK {t : UInt8} {sid offset : UInt64} (hk : FrameType.ofByte t = some .typeAttachOK) :
    Decodes r (t :: (beBytes 8 sid.toNat ++ (beBytes 8 offset.toNat ++ r)))
      { type := t, sessionID := sid, offset }
  | data {t : UInt8} {sid offset : UInt64} {p : Bytes} (hk : FrameType.ofByte t = some .typeData)
      (hp : p.length ≤ maxPayload) :
    Decodes r (t :: (beBytes 8 sid.toNat ++ (beBytes 8 offset.toNat ++ (payloadBytes p ++ r))))
      { type := t, sessionID := sid, offset, payload := p }
  | ack {t : UInt8} {sid offset : UInt64} (hk : FrameType.ofByte t = some .typeAck) :
    Decodes r (t :: (beBytes 8 sid.toNat ++ (beBytes 8 offset.toNat ++ r)))
      { type := t, sessionID := sid, offset }
  | close {t dir : UInt8} {sid : UInt64} {s : Bytes} (hk : FrameType.ofByte t = some .typeClose) :
    Decodes r (t :: (beBytes 8 sid.toNat ++ dir :: (beBytes 2 s.length ++ (s ++ r))))
      { type := t, sessionID := sid, dir, reason := s }
  | ping {t : UInt8} {nonce : UInt64} (hk : FrameType.ofByte t = some .typePing) :
    Decodes r (t :: (beBytes 8 nonce.toNat ++ r)) { type := t, nonce }
  | pong {t : UInt8} {nonce : UInt64} (hk : FrameType.ofByte t = some .typePong) :
    Decodes r (t :: (beBytes 8 nonce.toNat ++ r)) { type := t, nonce }

theorem decodeFrame_decodes {b r : Bytes} {f : Frame} (h : decodeFrame b = .ok (f, r)) :
    Decodes r b f := by
  obtain ⟨t, b₁, ht, h₁⟩ := Reader.bind_eq_ok h
  obtain rfl := readByte_eq_ok ht
  rcases hk : FrameType.ofByte t with _ | k <;> rw [hk] at h₁
  · cases h₁
  cases k with
  | typeHello =>
    obtain ⟨s, r₁, hs, hf⟩ := Reader.bind_eq_ok h₁
    cases hf
    rw [getString_eq_ok hs]
    exact .hello hk
  | typeOpen =>
    obtain ⟨sid, r₁, hsid, h₂⟩ := Reader.bind_eq_ok h₁
    obtain ⟨s, r₂, hs, hf⟩ := Reader.bind_eq_ok h₂
    cases hf
    rw [getU64_eq_ok hsid, getString_eq_ok hs]
    exact .opens hk
  | typeAttach =>
    obtain ⟨sid, r₁, hsid, h₂⟩ := Reader.bind_eq_ok h₁
    obtain ⟨offset, r₂, hoff, h₃⟩ := Reader.bind_eq_ok h₂
    obtain ⟨s, r₃, hs, hf⟩ := Reader.bind_eq_ok h₃
    cases hf
    rw [getU64_eq_ok hsid, getU64_eq_ok hoff, getString_eq_ok hs]
    exact .attach hk
  | typeAttachOK =>
    obtain ⟨sid, r₁, hsid, h₂⟩ := Reader.bind_eq_ok h₁
    obtain ⟨offset, r₂, hoff, hf⟩ := Reader.bind_eq_ok h₂
    cases hf
    rw [getU64_eq_ok hsid, getU64_eq_ok hoff]
    exact .attachOK hk
  | typeData =>
    obtain ⟨sid, r₁, hsid, h₂⟩ := Reader.bind_eq_ok h₁
    obtain ⟨offset, r₂, hoff, h₃⟩ := Reader.bind_eq_ok h₂
    obtain ⟨n, r₃, hn, h₄⟩ := Reader.bind_eq_ok h₃
    obtain ⟨p, r₄, hp, hf⟩ := Reader.bind_eq_ok h₄
    cases hf
    obtain ⟨rfl, hle⟩ := readPayload_eq_ok hn hp
    rw [getU64_eq_ok hsid, getU64_eq_ok hoff]
    exact .data hk hle
  | typeAck =>
    obtain ⟨sid, r₁, hsid, h₂⟩ := Reader.bind_eq_ok h₁
    obtain ⟨offset, r₂, hoff, hf⟩ := Reader.bind_eq_ok h₂
    cases hf
    rw [getU64_eq_ok hsid, getU64_eq_ok hoff]
    exact .ack hk
  | typeClose =>
    obtain ⟨sid, r₁, hsid, h₂⟩ := Reader.bind_eq_ok h₁
    obtain ⟨dir, r₂, hdir, h₃⟩ := Reader.bind_eq_ok h₂
    obtain ⟨s, r₃, hs, hf⟩ := Reader.bind_eq_ok h₃
    cases hf
    rw [getU64_eq_ok hsid, readByte_eq_ok hdir, getString_eq_ok hs]
    exact .close hk
  | typePing =>
    obtain ⟨nonce, r₁, hnonce, hf⟩ := Reader.bind_eq_ok h₁
    cases hf
    rw [getU64_eq_ok hnonce]
    exact .ping hk
  | typePong =>
    obtain ⟨nonce, r₁, hnonce, hf⟩ := Reader.bind_eq_ok h₁
    cases hf
    rw [getU64_eq_ok hnonce]
    exact .pong hk

/-- An accepted frame is read back whole, with the fields its type makes meaningful, and the
bytes after it are left alone. -/
theorem decodeFrame_written {f : Frame} (h : refusal f = none) (r : Bytes) :
    decodeFrame (written f ++ r) = .ok (f.meaningful, r) := by
  revert h
  unfold refusal written Frame.meaningful decodeFrame Source.decodeFrame
  rw [List.cons_append, Reader.bind_ok (x := whole.readByte) rfl]
  rcases FrameType.ofByte f.type with _ | k
  · intro h
    cases h
  cases k with
  | typeHello =>
    intro h
    dsimp only
    rw [Reader.bind_ok (getString_append h r)]
    rfl
  | typeOpen =>
    intro h
    dsimp only
    rw [List.append_assoc, Reader.bind_ok (getU64_append _ _),
      Reader.bind_ok (getString_append h r)]
    rfl
  | typeAttach =>
    intro h
    dsimp only
    rw [List.append_assoc, List.append_assoc, Reader.bind_ok (getU64_append _ _),
      Reader.bind_ok (getU64_append _ _), Reader.bind_ok (getString_append h r)]
    rfl
  | typeAttachOK | typeAck =>
    intro _
    dsimp only
    rw [List.append_assoc, Reader.bind_ok (getU64_append _ _), Reader.bind_ok (getU64_append _ _)]
    rfl
  | typeData =>
    intro h
    dsimp only at h ⊢
    split_ifs at h with hp
    rw [List.append_assoc, List.append_assoc, Reader.bind_ok (getU64_append _ _),
      Reader.bind_ok (getU64_append _ _)]
    -- the length and the payload it announces are read as one field
    rw [← bind_assoc, Reader.bind_ok (readPayload_append hp r)]
    rfl
  | typeClose =>
    intro h
    dsimp only
    rw [List.append_assoc, List.cons_append, Reader.bind_ok (getU64_append _ _),
      Reader.bind_ok (x := whole.readByte) rfl, Reader.bind_ok (getString_append h r)]
    rfl
  | typePing | typePong =>
    intro _
    dsimp only
    rw [Reader.bind_ok (getU64_append _ _)]
    rfl

/-! ## Decoders over readers that agree -/

namespace Source

variable {σ τ : Type}

/-- Two readers whose calls agree. -/
structure Agree (ends : DecodeError → Prop) (R : σ → τ → Prop) (r : Source σ) (q : Source τ) :
    Prop where
  readByte : Sim ends R r.readByte q.readByte
  readFull : ∀ n, Sim ends R (r.readFull n) (q.readFull n)

variable {ends : DecodeError → Prop} {R : σ → τ → Prop} {r : Source σ} {q : Source τ}

theorem Agree.getU32 (h : Agree ends R r q) : Sim ends R r.getU32 q.getU32 :=
  (h.readFull 4).bind fun _ => .pure _

theorem Agree.getU64 (h : Agree ends R r q) : Sim ends R r.getU64 q.getU64 :=
  (h.readFull 8).bind fun _ => .pure _

theorem Agree.getString (h : Agree ends R r q) : Sim ends R r.getString q.getString :=
  (h.readFull 2).bind fun _ => h.readFull _

theorem Agree.readPayload (h : Agree ends R r q) (n : ℕ) :
    Sim ends R (r.readPayload n) (q.readPayload n) := by
  unfold Source.readPayload
  split_ifs
  · exact Sim.fail _
  · exact h.readFull n

/-- Decoders over readers that agree do the same: one case per frame type, field by field. -/
theorem Agree.decodeFrame (h : Agree ends R r q) : Sim ends R r.decodeFrame q.decodeFrame := by
  refine h.readByte.bind fun t => ?_
  cases FrameType.ofByte t with
  | none => exact Sim.fail _
  | some k =>
    cases k with
    | typeHello => exact h.getString.bind fun _ => .pure _
    | typeOpen => exact h.getU64.bind fun _ => h.getString.bind fun _ => .pure _
    | typeAttach =>
      exact h.getU64.bind fun _ => h.getU64.bind fun _ => h.getString.bind fun _ => .pure _
    | typeAttachOK | typeAck => exact h.getU64.bind fun _ => h.getU64.bind fun _ => .pure _
    | typeData =>
      exact h.getU64.bind fun _ => h.getU64.bind fun _ => h.getU32.bind fun n =>
        (h.readPayload n.toNat).bind fun _ => .pure _
    | typeClose =>
      exact h.getU64.bind fun _ => h.readByte.bind fun _ => h.getString.bind fun _ => .pure _
    | typePing | typePong => exact h.getU64.bind fun _ => .pure _

end Source

theorem whole_extends (u : Bytes) : whole.Agree ends.Is (Extends u) whole where
  readByte := sim_takeByte ends u
  readFull n := sim_takeFull ends n u

/-- A part of a frame is not decoded as one: the decoder asks for more. -/
theorem decodeFrame_part {f : Frame} (hf : refusal f = none) {b u : Bytes}
    (h : b ++ u = written f) (hu : u ≠ []) : ∃ e, decodeFrame b = .error e ∧ ends.Is e := by
  have hwhole : decodeFrame (b ++ u) = .ok (f.meaningful, []) := by
    rw [h]
    have := decodeFrame_written hf []
    rwa [List.append_nil] at this
  have hsame : SameResult ends.Is (Extends u) (decodeFrame b) (decodeFrame (b ++ u)) :=
    (whole_extends u).decodeFrame b (b ++ u) rfl
  rw [hwhole] at hsame
  generalize decodeFrame b = x at hsame
  cases hsame with
  | ok a hr => exact absurd (List.append_eq_nil_iff.mp hr.symm).2 hu
  | ended he => exact ⟨_, rfl, he⟩

end SubstratePoc.Tunnel
