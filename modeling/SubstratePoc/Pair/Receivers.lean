import SubstratePoc.Broker.Inversion
import SubstratePoc.Sidecar.Session
import SubstratePoc.Tunnel.Words

namespace SubstratePoc.Receivers
open Lib Tunnel Broker Sidecar

/-- A DATA frame: its offset and its payload. -/
abbrev DataFrame := UInt64 × Bytes

def segment (f : DataFrame) : ℕ × Bytes := (f.1.toNat, f.2)

/-! ## The filters

The result is what is left of the payload, if the frame is not dropped; `none` is a panic. -/

/-- The filter before the dial. -/
def preConnFilter (accepted offset : UInt64) (payload : Bytes) : Option (Option Bytes) :=
  if offset < accepted then
    let skip := accepted - offset
    if UInt64.ofNat payload.length ≤ skip then some none else (sliceFrom payload skip).map some
  else if accepted < offset then some none
  else some (some payload)

/-- The filter with a connection and the one of `deliverDown`: after a cut the frame starts at the
position, and its offset is compared with the position again. -/
def rebasingFilter (position offset : UInt64) (payload : Bytes) : Option (Option Bytes) :=
  let inOrder (offset : UInt64) (payload : Bytes) : Option Bytes :=
    if position < offset then none else some payload
  if offset < position then
    let skip := position - offset
    if UInt64.ofNat payload.length ≤ skip then some none
    else (sliceFrom payload skip).map (inOrder position)
  else some (inOrder offset payload)

theorem rebasingFilter_eq (position offset : UInt64) (payload : Bytes) :
    rebasingFilter position offset payload = preConnFilter position offset payload := by
  unfold rebasingFilter preConnFilter
  simp only [UInt64.lt_irrefl, if_false]
  split_ifs <;> rfl

theorem toNat_ofNat_of_lt {n : ℕ} (h : n < 2 ^ 64) : (UInt64.ofNat n).toNat = n := by
  rw [UInt64.toNat_ofNat']
  omega

def kept (w o : ℕ) (p : Bytes) : Option Bytes :=
  if o < w then if p.length ≤ w - o then none else some (p.drop (w - o))
  else if w < o then none else some p

theorem getD_kept (w o : ℕ) (p : Bytes) : (kept w o p).getD [] = fresh w o p := by
  unfold kept
  split_ifs with h1 h2 h3
  · rw [fresh, if_neg (by omega)]
    rfl
  · rw [fresh, if_pos (by omega)]
    rfl
  · rw [fresh, if_neg (by omega)]
    rfl
  · obtain rfl : o = w := by omega
    rw [fresh, Nat.sub_self, List.drop_zero]
    split_ifs with hp
    · rfl
    · have hnil : p = [] := List.eq_nil_of_length_eq_zero (by omega)
      rw [hnil]
      rfl

theorem preConnFilter_eq {w o : UInt64} {p : Bytes} (h : o.toNat + p.length < 2 ^ 64) :
    preConnFilter w o p = some (kept w.toNat o.toNat p) := by
  have hlen := toNat_ofNat_of_lt (n := p.length) (by omega)
  unfold preConnFilter kept
  simp only [UInt64.lt_iff_toNat_lt, UInt64.le_iff_toNat_le, hlen]
  by_cases h1 : o.toNat < w.toNat
  · have hskip : (w - o).toNat = w.toNat - o.toNat :=
      UInt64.toNat_sub_of_le _ _ (UInt64.le_iff_toNat_le.mpr h1.le)
    rw [if_pos h1, if_pos h1, hskip, sliceFrom, hskip]
    split_ifs
    · rfl
    · rfl
    · omega
  · rw [if_neg h1, if_neg h1]
    split_ifs <;> rfl

/-! ## The sessions -/

/-- `onData` up to the upstream write, on words. -/
def onDataWords (s : Session) (offset : UInt64) (payload : Bytes) :
    Option (Session × Option Bytes) :=
  if s.dead then some (s, none)
  else if !s.connected then
    let accepted := UInt64.ofNat s.upstreamWritten + UInt64.ofNat s.preConn.length
    (preConnFilter accepted offset payload).map fun q =>
      (match q with | none => s | some rest => { s with preConn := s.preConn ++ rest }, none)
  else (rebasingFilter (UInt64.ofNat s.upstreamWritten) offset payload).map fun q => (s, q)

/-- `deliverDown` up to the agent write, on words. -/
def deliverDownWords (s : ClientSession) (offset : UInt64) (payload : Bytes) :
    Option (Option Bytes) :=
  if s.dead then some none else rebasingFilter (UInt64.ofNat s.downDelivered) offset payload

section Naturals
variable {s : Session} {o : ℕ} {p : Bytes}

theorem onData_preConn (hd : s.dead = false) (hc : s.connected = false) : s.onData o p =
    (match kept (s.upstreamWritten + s.preConn.length) o p with
      | none => s
      | some rest => { s with preConn := s.preConn ++ rest }, none) := by
  unfold Session.onData kept
  rw [if_neg (by simp [hd]), if_pos (by simp [hc])]
  dsimp only
  split_ifs <;> rfl

theorem onData_connected (hd : s.dead = false) (hc : s.connected = true) :
    s.onData o p = (s, kept s.upstreamWritten o p) := by
  unfold Session.onData kept
  rw [if_neg (by simp [hd]), if_neg (by simp [hc])]
  split_ifs <;> rfl

theorem deliverDown_eq {s : ClientSession} (hd : s.dead = false) :
    s.deliverDown o p = kept s.downDelivered o p := by
  unfold ClientSession.deliverDown kept
  rw [if_neg (by simp [hd])]

end Naturals

theorem onDataWords_eq {s : Session} {offset : UInt64} {payload : Bytes}
    (hs : s.position < 2 ^ 64) (h : offset.toNat + payload.length < 2 ^ 64) :
    onDataWords s offset payload = some (s.onData offset.toNat payload) := by
  unfold onDataWords
  dsimp only
  rw [rebasingFilter_eq, preConnFilter_eq h, preConnFilter_eq h]
  split_ifs with hd hc
  · rw [Session.onData, if_pos hd]
  · have hc' : s.connected = false := by simpa using hc
    rw [Session.position, hc', if_neg Bool.false_ne_true] at hs
    rw [← UInt64.ofNat_add, toNat_ofNat_of_lt hs, onData_preConn (by simpa using hd) hc']
    rfl
  · have hc' : s.connected = true := by simpa using hc
    rw [Session.position, hc', if_pos rfl] at hs
    rw [toNat_ofNat_of_lt hs, onData_connected (by simpa using hd) hc']
    rfl

theorem deliverDownWords_eq {s : ClientSession} {offset : UInt64} {payload : Bytes}
    (hs : s.downDelivered < 2 ^ 64) (h : offset.toNat + payload.length < 2 ^ 64) :
    deliverDownWords s offset payload = some (s.deliverDown offset.toNat payload) := by
  unfold deliverDownWords
  rw [rebasingFilter_eq, preConnFilter_eq h, toNat_ofNat_of_lt hs]
  split_ifs with hd
  · rw [ClientSession.deliverDown, if_pos hd]
  · rw [deliverDown_eq (by simpa using hd)]

/-- The broker handles a DATA frame, with a destination that takes what is written to it: the
session and the bytes written. -/
def onFrame (x : Session × Bytes) (f : DataFrame) : Option (Session × Bytes) :=
  (onDataWords x.1 f.1 f.2).map fun r => match r.2 with
    | none => (r.1, x.2)
    | some q => (r.1.onDataWritten q.length, x.2 ++ q)

/-- The sidecar handles a DATA frame, with an agent that takes what is written to it. -/
def onDownFrame (x : ClientSession × Bytes) (f : DataFrame) : Option (ClientSession × Bytes) :=
  (deliverDownWords x.1 f.1 f.2).map fun r => match r with
    | none => x
    | some q => (x.1.delivered q.length, x.2 ++ q)

/-! ## What each receiver takes -/

theorem onFrame_preConn {x : Session × Bytes} {f : DataFrame}
    (hI : x.1.dead = false ∧ x.1.connected = false ∧ x.2 = [])
    (hx : x.1.upstreamWritten + x.1.preConn.length < 2 ^ 64)
    (hf : f.1.toNat + f.2.length < 2 ^ 64) : ∃ x', onFrame x f = some x' ∧
      (x'.1.dead = false ∧ x'.1.connected = false ∧ x'.2 = []) ∧
      x'.1.upstreamWritten + x'.1.preConn.length =
        splice (x.1.upstreamWritten + x.1.preConn.length) f.1.toNat f.2 ∧
      x'.1.preConn =
        x.1.preConn ++ fresh (x.1.upstreamWritten + x.1.preConn.length) f.1.toNat f.2 := by
  -- before the dial a frame goes to `preConn`
  obtain ⟨hd, hc, hnil⟩ := hI
  have hpos : x.1.position < 2 ^ 64 := by simpa [Session.position, hc] using hx
  rw [onFrame, onDataWords_eq hpos hf, onData_preConn hd hc, splice_eq_add, ← getD_kept]
  cases kept (x.1.upstreamWritten + x.1.preConn.length) f.1.toNat f.2 with
  | none => exact ⟨_, rfl, ⟨hd, hc, hnil⟩, rfl, (List.append_nil _).symm⟩
  | some q =>
    refine ⟨_, rfl, ⟨hd, hc, hnil⟩, ?_, rfl⟩
    dsimp only
    rw [List.length_append, Nat.add_assoc]
    rfl

theorem onFrame_connected {x : Session × Bytes} {f : DataFrame}
    (hI : x.1.dead = false ∧ x.1.connected = true) (hx : x.1.upstreamWritten < 2 ^ 64)
    (hf : f.1.toNat + f.2.length < 2 ^ 64) : ∃ x', onFrame x f = some x' ∧
      (x'.1.dead = false ∧ x'.1.connected = true) ∧
      x'.1.upstreamWritten = splice x.1.upstreamWritten f.1.toNat f.2 ∧
      x'.2 = x.2 ++ fresh x.1.upstreamWritten f.1.toNat f.2 := by
  obtain ⟨hd, hc⟩ := hI
  have hpos : x.1.position < 2 ^ 64 := by simpa [Session.position, hc] using hx
  rw [onFrame, onDataWords_eq hpos hf, onData_connected hd hc, splice_eq_add, ← getD_kept]
  cases kept x.1.upstreamWritten f.1.toNat f.2 with
  | none => exact ⟨_, rfl, ⟨hd, hc⟩, rfl, (List.append_nil _).symm⟩
  | some q => exact ⟨_, rfl, ⟨hd, hc⟩, rfl, rfl⟩

theorem onDownFrame_eq {x : ClientSession × Bytes} {f : DataFrame} (hd : x.1.dead = false)
    (hx : x.1.downDelivered < 2 ^ 64) (hf : f.1.toNat + f.2.length < 2 ^ 64) :
    ∃ x', onDownFrame x f = some x' ∧ x'.1.dead = false ∧
      x'.1.downDelivered = splice x.1.downDelivered f.1.toNat f.2 ∧
      x'.2 = x.2 ++ fresh x.1.downDelivered f.1.toNat f.2 := by
  rw [onDownFrame, deliverDownWords_eq hx hf, deliverDown_eq hd, splice_eq_add, ← getD_kept]
  cases kept x.1.downDelivered f.1.toNat f.2 with
  | none => exact ⟨_, rfl, hd, rfl, (List.append_nil _).symm⟩
  | some q => exact ⟨_, rfl, hd, rfl, rfl⟩

section Runs
variable {fs : List DataFrame} (hfs : ∀ f ∈ fs, f.1.toNat + f.2.length < 2 ^ 64)
include hfs

theorem run_preConn {s : Session} (hd : s.dead = false) (hc : s.connected = false)
    (hs : s.upstreamWritten + s.preConn.length < 2 ^ 64) :
    ∃ s', run onFrame (s, []) fs = some (s', []) ∧
      s'.preConn = s.preConn ++ freshAll (s.upstreamWritten + s.preConn.length) (fs.map segment) ∧
      s'.upstreamWritten + s'.preConn.length =
        spliceAll (s.upstreamWritten + s.preConn.length) (fs.map segment) := by
  obtain ⟨⟨s', out⟩, hrun, ⟨-, -, rfl⟩, hpos, hout⟩ := run_splices onFrame segment
    (fun x => x.1.dead = false ∧ x.1.connected = false ∧ x.2 = [])
    (fun x => x.1.upstreamWritten + x.1.preConn.length) (fun x => x.1.preConn)
    (fun _ _ => onFrame_preConn) (s := (s, [])) ⟨hd, hc, rfl⟩ hs hfs
  exact ⟨s', hrun, hout, hpos⟩

theorem run_connected {s : Session} (hd : s.dead = false) (hc : s.connected = true)
    (hs : s.upstreamWritten < 2 ^ 64) :
    ∃ s', run onFrame (s, []) fs = some (s', freshAll s.upstreamWritten (fs.map segment)) ∧
      s'.upstreamWritten = spliceAll s.upstreamWritten (fs.map segment) := by
  obtain ⟨⟨s', out⟩, hrun, -, hpos, rfl⟩ := run_splices onFrame segment
    (fun x => x.1.dead = false ∧ x.1.connected = true) (fun x => x.1.upstreamWritten) Prod.snd
    (fun _ _ => onFrame_connected) (s := (s, [])) ⟨hd, hc⟩ hs hfs
  exact ⟨s', hrun, hpos⟩

theorem run_deliverDown {s : ClientSession} (hd : s.dead = false) (hs : s.downDelivered < 2 ^ 64) :
    ∃ s', run onDownFrame (s, []) fs = some (s', freshAll s.downDelivered (fs.map segment)) ∧
      s'.downDelivered = spliceAll s.downDelivered (fs.map segment) := by
  obtain ⟨⟨s', out⟩, hrun, -, hpos, rfl⟩ := run_splices onDownFrame segment
    (fun x => x.1.dead = false) (fun x => x.1.downDelivered) Prod.snd
    (fun _ _ => onDownFrame_eq) (s := (s, [])) hd hs hfs
  exact ⟨s', hrun, hpos⟩

end Runs

/-- For frames with any offsets and payloads, handled one at a time, each of the three receivers
takes what the splice takes and ends where the splice ends, without a slice out of range; and what
the splice takes of the segments of one stream extends the part of it that was taken before. -/
theorem receivers_splice {fs : List DataFrame} (hfs : ∀ f ∈ fs, f.1.toNat + f.2.length < 2 ^ 64) :
    (∀ s : Session, s.dead = false → s.connected = false →
      s.upstreamWritten + s.preConn.length < 2 ^ 64 →
      ∃ s', run onFrame (s, []) fs = some (s', []) ∧
        s'.preConn = s.preConn ++
          freshAll (s.upstreamWritten + s.preConn.length) (fs.map segment) ∧
        s'.upstreamWritten + s'.preConn.length =
          spliceAll (s.upstreamWritten + s.preConn.length) (fs.map segment)) ∧
    (∀ s : Session, s.dead = false → s.connected = true → s.upstreamWritten < 2 ^ 64 →
      ∃ s', run onFrame (s, []) fs = some (s', freshAll s.upstreamWritten (fs.map segment)) ∧
        s'.upstreamWritten = spliceAll s.upstreamWritten (fs.map segment)) ∧
    (∀ s : ClientSession, s.dead = false → s.downDelivered < 2 ^ 64 →
      ∃ s', run onDownFrame (s, []) fs = some (s', freshAll s.downDelivered (fs.map segment)) ∧
        s'.downDelivered = spliceAll s.downDelivered (fs.map segment)) ∧
    ∀ S w, (∀ f ∈ fs, Agrees S f.1.toNat f.2) →
      S.take w ++ freshAll w (fs.map segment) = S.take (spliceAll w (fs.map segment)) := by
  refine ⟨fun s hd hc hs => run_preConn hfs hd hc hs, fun s hd hc hs => run_connected hfs hd hc hs,
    fun s hd hs => run_deliverDown hfs hd hs, fun S w hS => take_freshAll ?_ w⟩
  intro x hx
  obtain ⟨f, hf, rfl⟩ := List.mem_map.mp hx
  exact hS f hf

def replayed : List DataFrame :=
  -- a duplicate, an overlap, a gap, an empty frame and the end of the 64-bit range
  [(0, [1, 2]), (0, [1, 2]), (1, [2, 3, 4]), (9, [7]), (4, []), (0xfffffffffffffffe, [8]), (4, [5])]

def dialed : Session :=
  -- a session that has just been dialed
  { newSession 4 [] 1 [] with upstream := true, connected := true }

theorem receivers_splice_replayed :
    (∃ s', run onFrame (newSession 4 [] 1 [], []) replayed = some (s', []) ∧
      s'.preConn = [1, 2, 3, 4, 5]) ∧
    (∃ s', run onFrame (dialed, []) replayed = some (s', [1, 2, 3, 4, 5]) ∧
      s'.upstreamWritten = 5) ∧
    ∃ s', run onDownFrame (newClientSession 4 1 [], []) replayed = some (s', [1, 2, 3, 4, 5]) ∧
      s'.downDelivered = 5 := by
  have hfs : ∀ f ∈ replayed, f.1.toNat + f.2.length < 2 ^ 64 := by decide
  obtain ⟨hpre, hconn, hdown, -⟩ := receivers_splice hfs
  obtain ⟨s, hrun, hp, -⟩ := hpre (newSession 4 [] 1 []) rfl rfl (by decide)
  obtain ⟨u, hurun, hup⟩ := hconn dialed rfl rfl (by decide)
  obtain ⟨t, htrun, htp⟩ := hdown (newClientSession 4 1 []) rfl (by decide)
  exact ⟨⟨s, hrun, hp⟩, ⟨u, hurun, hup⟩, t, htrun, htp⟩

end SubstratePoc.Receivers
