import SubstratePoc.Tunnel.Wire

namespace SubstratePoc.Loopback
open Lib
open Tunnel (Bytes DecodeError readFull readFull_append readFull_eq_ok)

def maxPayload : ℕ := 2 ^ 20

/-- A bit of the CRC with the reversed IEEE polynomial. -/
def crcBit (crc : UInt32) : UInt32 :=
  if crc &&& 1 = 1 then (crc >>> 1) ^^^ 0xEDB88320 else crc >>> 1

/-- An entry of `crc32.IEEETable`. -/
def ieeeTable (i : UInt8) : UInt32 := Nat.iterate crcBit 8 i.toUInt32

def updateCRC (crc : UInt32) (p : Bytes) : UInt32 :=
  ~~~(p.foldl (fun c v => ieeeTable (c.toUInt8 ^^^ v) ^^^ (c >>> 8)) (~~~crc))

def checksumIEEE (p : Bytes) : UInt32 := updateCRC 0 p

example : checksumIEEE [49, 50, 51, 52, 53, 54, 55, 56, 57] = 0xCBF43926 := by decide +kernel

/-- The loop of `FillPayload`. -/
def fillFrom : ℕ → UInt64 → Bytes
  | 0, _ => []
  | n + 1, x =>
    let x := x ^^^ (x <<< 13)
    let x := x ^^^ (x >>> 7)
    let x := x ^^^ (x <<< 17)
    x.toUInt8 :: fillFrom n x

def fillPayload (size : ℕ) (seq : UInt64) : Bytes := fillFrom size (seq * 0x9E3779B97F4A7C15 + 1)

@[simp] theorem length_fillFrom (n : ℕ) (x : UInt64) : (fillFrom n x).length = n := by
  induction n generalizing x with
  | zero => rfl
  | succ n ih => simp [fillFrom, ih]

@[simp] theorem length_fillPayload (size : ℕ) (seq : UInt64) :
    (fillPayload size seq).length = size := length_fillFrom ..

def writeFrame (seq : UInt64) (payload : Bytes) : Bytes :=
  beBytes 4 (UInt32.ofNat payload.length).toNat ++ beBytes 8 seq.toNat ++ payload ++
    beBytes 4 (checksumIEEE payload).toNat

inductive ReadError
  | io (e : DecodeError)
  | tooLarge (n : ℕ)
  /-- `ErrCorrupt` -/
  | corrupt (seq : UInt64)

/-- `ReadFrame`, with the bytes it leaves. -/
def readFrame (b : Bytes) : Except ReadError ((UInt64 × Bytes) × Bytes) :=
  match readFull 12 b with
  | .error e => .error (.io e)
  | .ok (hdr, b) =>
    let n := beNat (hdr.take 4)
    let seq := UInt64.ofNat (beNat (hdr.drop 4))
    if maxPayload < n then .error (.tooLarge n)
    else match readFull n b with
    | .error e => .error (.io e)
    | .ok (payload, b) => match readFull 4 b with
      | .error e => .error (.io e)
      | .ok (tail, b) =>
        if UInt32.ofNat (beNat tail) ≠ checksumIEEE payload then .error (.corrupt seq)
        else .ok ((seq, payload), b)

def writeAck (seq totalBytes : UInt64) (runningCRC : UInt32) : Bytes :=
  beBytes 8 seq.toNat ++ beBytes 8 totalBytes.toNat ++ beBytes 4 runningCRC.toNat

/-- `ReadAck`, with the bytes it leaves. -/
def readAck (b : Bytes) : Except DecodeError ((UInt64 × UInt64 × UInt32) × Bytes) :=
  match readFull 20 b with
  | .error e => .error e
  | .ok (buf, b) => .ok ((UInt64.ofNat (beNat (buf.take 8)),
      UInt64.ofNat (beNat ((buf.drop 8).take 8)), UInt32.ofNat (beNat (buf.drop 16))), b)

theorem readAck_writeAck (seq totalBytes : UInt64) (runningCRC : UInt32) (r : Bytes) :
    readAck (writeAck seq totalBytes runningCRC ++ r) = .ok ((seq, totalBytes, runningCRC), r) := by
  have hdrop : (writeAck seq totalBytes runningCRC).drop 16 = beBytes 4 runningCRC.toNat := by
    rw [writeAck, List.drop_left' (by simp)]
  rw [readAck, readFull_append _ _ (by simp [writeAck])]
  simp only [hdrop, uint32_beNat_beBytes]
  simp [writeAck, uint64_beNat_beBytes]

theorem length_writeFrame (seq : UInt64) (payload : Bytes) :
    (writeFrame seq payload).length = payload.length + 16 := by
  simp [writeFrame]
  omega

/-- A frame is read exactly from the bytes that it is written as. -/
theorem readFrame_eq_ok {b r payload : Bytes} {seq : UInt64} :
    readFrame b = .ok ((seq, payload), r) ↔
      payload.length ≤ maxPayload ∧ b = writeFrame seq payload ++ r := by
  constructor
  · intro h
    unfold readFrame at h
    split at h
    · cases h
    rename_i hdr b₁ hhdr
    obtain ⟨hlen, rfl⟩ := readFull_eq_ok hhdr
    dsimp only at h
    split_ifs at h with hle
    split at h
    · cases h
    rename_i p b₂ hp
    obtain ⟨hn, rfl⟩ := readFull_eq_ok hp
    split at h
    · cases h
    rename_i tail b₃ htail
    obtain ⟨ht, rfl⟩ := readFull_eq_ok htail
    split_ifs at h with hcrc
    cases h
    refine ⟨by omega, ?_⟩
    have hsize : beBytes 4 (UInt32.ofNat payload.length).toNat = hdr.take 4 := by
      rw [hn]
      exact beBytes_uint32_beNat (by simp [hlen])
    have hsum : beBytes 4 (checksumIEEE payload).toNat = tail := by
      rw [← not_not.mp hcrc]
      exact beBytes_uint32_beNat ht
    rw [writeFrame, hsize, hsum, beBytes_uint64_beNat (by simp [hlen]), List.take_append_drop]
    simp only [List.append_assoc]
  · rintro ⟨hle, rfl⟩
    have hsize : (UInt32.ofNat payload.length).toNat = payload.length :=
      UInt32.toNat_ofNat_of_lt' (hle.trans_lt (by decide))
    have hlt : payload.length < 256 ^ 4 := hle.trans_lt (by decide)
    simp only [readFrame, writeFrame, hsize, List.append_assoc]
    rw [← List.append_assoc, readFull_append _ _ (by simp)]
    simp [beNat_beBytes hlt, Nat.not_lt.mpr hle, uint64_beNat_beBytes, readFull_append,
      uint32_beNat_beBytes]

theorem writeFrame_inj {seq seq' : UInt64} {payload payload' : Bytes}
    (h : writeFrame seq payload = writeFrame seq' payload') : seq = seq' ∧ payload = payload' := by
  have hlen : payload.length = payload'.length := by
    have := congrArg List.length h
    rw [length_writeFrame, length_writeFrame] at this
    omega
  unfold writeFrame at h
  rw [hlen] at h
  simp only [List.append_assoc] at h
  obtain ⟨-, h⟩ := List.append_inj h (by simp)
  obtain ⟨hseq, h⟩ := List.append_inj h (by simp)
  refine ⟨?_, (List.append_inj h hlen).1⟩
  rw [← uint64_beNat_beBytes seq, hseq, uint64_beNat_beBytes]

end SubstratePoc.Loopback
