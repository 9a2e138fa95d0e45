import SubstratePoc.Broker.Inversion
import SubstratePoc.Lib.Segment

namespace SubstratePoc.Broker
open Lib Tunnel

/-- The action itself, if it has such bytes. -/
def Act.held (a : Act) : List Act := if a.carrying = 0 then [] else [a]

/-- The agent's stream `S` at the destination, with what the session has queued and with the one
goroutine at most that is between its check and its record. -/
inductive Progress (S : Bytes) (s : Session) (dest : Bytes) : List Act → Prop
  | idle (hle : s.upstreamWritten ≤ S.length) (hd : dest = S.take s.upstreamWritten)
    (hp : Agrees S s.upstreamWritten s.preConn) (hc : s.connected = true → s.preConn = []) :
    Progress S s dest []
  | writing (a : Act) (p : Bytes) (ha : a = .upWrite p ∨ a = .flush p)
    (hle : s.upstreamWritten ≤ S.length) (hd : dest = S.take s.upstreamWritten)
    (hp : Agrees S s.upstreamWritten p) (hc : s.connected = true) (hpre : s.preConn = []) :
    Progress S s dest [a]
  | recording (a : Act) (n : ℕ) (ha : a = .onDataWritten n ∨ a = .flushed n)
    (hle : s.upstreamWritten + n ≤ S.length) (hd : dest = S.take (s.upstreamWritten + n))
    (hc : s.connected = true) (hpre : s.preConn = []) : Progress S s dest [a]

namespace Progress

variable {S dest : Bytes} {s s' : Session} {as A B : List Act} {a : Act}

theorem congr (h : Progress S s dest as) (hc : s'.connected = s.connected)
    (hp : s'.preConn = s.preConn) (hw : s'.upstreamWritten = s.upstreamWritten) :
    Progress S s' dest as := by
  cases h with
  | idle hle hd hag hcon =>
    rw [← hw] at hle hd hag
    rw [← hp] at hag
    exact .idle hle hd hag (by rwa [hc, hp])
  | writing a p ha hle hd hag hcon hpre =>
    rw [← hw] at hle hd hag
    exact .writing a p ha hle hd hag (hc.trans hcon) (hp.trans hpre)
  | recording a n ha hle hd hcon hpre =>
    rw [← hw] at hle hd
    exact .recording a n ha hle hd (hc.trans hcon) (hp.trans hpre)

theorem mono {S' : Bytes} (h : Progress S s dest as) (hS : S <+: S') : Progress S' s dest as := by
  have htake : ∀ n ≤ S.length, S'.take n = S.take n := by
    obtain ⟨t, rfl⟩ := hS
    exact fun n hn => List.take_append_of_le_length hn
  cases h with
  | idle hle hd hag hcon =>
    exact .idle (hle.trans hS.length_le) (hd.trans (htake _ hle).symm) (hag.mono hS) hcon
  | writing a p ha hle hd hag hcon hpre =>
    exact .writing a p ha (hle.trans hS.length_le) (hd.trans (htake _ hle).symm) (hag.mono hS)
      hcon hpre
  | recording a n ha hle hd hcon hpre =>
    exact .recording a n ha (hle.trans hS.length_le) (hd.trans (htake _ hle).symm) hcon hpre

theorem connect (h : Progress S s dest as) (hp : s.preConn = []) (hc : s'.connected = true)
    (hp' : s'.preConn = []) (hw : s'.upstreamWritten = s.upstreamWritten) :
    Progress S s' dest as := by
  cases h with
  | idle hle hd hag hcon =>
    rw [hp, ← hp'] at hag
    rw [← hw] at hle hd hag
    exact .idle hle hd hag fun _ => hp'
  | writing a p ha hle hd hag hcon hpre =>
    rw [← hw] at hle hd hag
    exact .writing a p ha hle hd hag hc hp'
  | recording a n ha hle hd hcon hpre =>
    rw [← hw] at hle hd
    exact .recording a n ha hle hd hc hp'

theorem isPrefix (h : Progress S s dest as) : dest <+: S := by
  cases h with
  | idle _ hd => exact hd ▸ List.take_prefix _ _
  | writing _ _ _ _ hd => exact hd ▸ List.take_prefix _ _
  | recording _ _ _ _ hd => exact hd ▸ List.take_prefix _ _

theorem of_idle (h : Progress S s dest []) : s.upstreamWritten ≤ S.length ∧
    dest = S.take s.upstreamWritten ∧ Agrees S s.upstreamWritten s.preConn ∧
    (s.connected = true → s.preConn = []) := by
  cases h with
  | idle hle hd hp hc => exact ⟨hle, hd, hp, hc⟩

theorem eq_nil_of_queued (h : Progress S s dest as) (hp : s.preConn ≠ []) : as = [] := by
  cases h with
  | idle => rfl
  | writing _ _ _ _ _ _ _ hpre => exact absurd hpre hp
  | recording _ _ _ _ _ _ hpre => exact absurd hpre hp

theorem preConn_eq_nil (h : Progress S s dest as) (hc : s.connected = true) : s.preConn = [] := by
  cases h with
  | idle _ _ _ hpre => exact hpre hc
  | writing _ _ _ _ _ _ _ hpre => exact hpre
  | recording _ _ _ _ _ _ hpre => exact hpre

theorem sole (h : Progress S s dest (A ++ a :: B)) :
    A = [] ∧ B = [] ∧ Progress S s dest [a] := by
  generalize hl : A ++ a :: B = l at h
  have hlen := congrArg List.length hl
  rw [List.length_append, List.length_cons] at hlen
  have hone : l.length ≤ 1 := by cases h <;> simp
  have hA : A = [] := List.eq_nil_of_length_eq_zero (by omega)
  have hB : B = [] := List.eq_nil_of_length_eq_zero (by omega)
  subst hA hB
  rw [← hl] at h
  exact ⟨rfl, rfl, h⟩

theorem of_writing {p : Bytes} (ha : a = .upWrite p ∨ a = .flush p)
    (h : Progress S s dest [a]) : s.upstreamWritten ≤ S.length ∧
      dest = S.take s.upstreamWritten ∧ Agrees S s.upstreamWritten p ∧ s.connected = true ∧
      s.preConn = [] := by
  cases h with
  | writing _ q hq hle hd hag hcon hpre =>
    obtain rfl : p = q := by
      rcases ha with rfl | rfl <;> simpa using hq
    exact ⟨hle, hd, hag, hcon, hpre⟩
  | recording _ n hn => rcases ha with rfl | rfl <;> simp at hn

theorem of_recording {n : ℕ} (ha : a = .onDataWritten n ∨ a = .flushed n)
    (h : Progress S s dest [a]) : s.upstreamWritten + n ≤ S.length ∧
      dest = S.take (s.upstreamWritten + n) ∧ s.connected = true ∧ s.preConn = [] := by
  cases h with
  | recording _ m hm hle hd hcon hpre =>
    obtain rfl : n = m := by
      rcases ha with rfl | rfl <;> simpa using hm
    exact ⟨hle, hd, hcon, hpre⟩
  | writing _ q hq => rcases ha with rfl | rfl <;> simp at hq

theorem write {p : Bytes} {b : Act} (ha : a = .upWrite p ∧ b = .onDataWritten p.length ∨
      a = .flush p ∧ b = .flushed p.length) (h : Progress S s dest (A ++ (a.held ++ B))) :
    Progress S s (dest ++ p) (A ++ (b.held ++ B)) := by
  have hcarry : a.carrying = p.length ∧ b.carrying = p.length := by
    rcases ha with ⟨rfl, rfl⟩ | ⟨rfl, rfl⟩ <;> exact ⟨rfl, rfl⟩
  rw [Act.held, hcarry.2]
  rw [Act.held, hcarry.1] at h
  split_ifs at h ⊢ with hp
  · rw [List.length_eq_zero_iff.mp hp, List.append_nil]
    exact h
  · obtain ⟨rfl, rfl, h⟩ := h.sole
    obtain ⟨hle, hd, hag, hcon, hpre⟩ := of_writing (ha.imp And.left And.left) h
    refine .recording b p.length (ha.imp And.right And.right) (hag.length_le hle) ?_ hcon hpre
    rw [hd, hag.take_append]

theorem fail {p : Bytes} (ha : a = .upWrite p ∨ a = .flush p)
    (h : Progress S s dest (A ++ (a.held ++ B))) : Progress S s dest (A ++ B) := by
  unfold Act.held at h
  split_ifs at h
  · exact h
  · obtain ⟨rfl, rfl, h⟩ := h.sole
    obtain ⟨hle, hd, -, -, hpre⟩ := of_writing ha h
    refine .idle hle hd ?_ fun _ => hpre
    rw [hpre]
    exact List.nil_prefix

theorem record {n : ℕ} (ha : a = .onDataWritten n ∨ a = .flushed n)
    (h : Progress S s dest (A ++ (a.held ++ B))) (hw : s'.upstreamWritten = s.upstreamWritten + n)
    (hc : s'.connected = s.connected) (hp : s'.preConn = s.preConn) :
    Progress S s' dest (A ++ B) := by
  have hcarry : a.carrying = n := by
    rcases ha with rfl | rfl <;> rfl
  rw [Act.held, hcarry] at h
  split_ifs at h with hn
  · exact h.congr hc hp (by omega)
  · obtain ⟨rfl, rfl, h⟩ := h.sole
    obtain ⟨hle, hd, hcon, hpre⟩ := of_recording ha h
    rw [← hw] at hle hd
    refine .idle hle hd ?_ fun _ => hp.trans hpre
    rw [hp, hpre]
    exact List.nil_prefix

end Progress

/-- No failing write, except on a connection that `destroy` has closed. -/
def Act.lossless (s : Session) (c : Choice) : Act → Bool
  | .upWrite _ | .flush _ => c = .ok || s.dead
  | _ => true

theorem Act.held_of_not_up {a : Act} (h : a.up = false) : a.held = [] := by
  cases a <;> first | rfl | cases h

theorem flatMap_held_eq_nil {as : List Act} (h : ∀ b ∈ as, b.up = true → b = .dialed) :
    as.flatMap Act.held = [] := by
  rw [List.flatMap_eq_nil_iff]
  intro b hb
  by_cases hu : b.up = true
  · rw [h b hb hu]
    rfl
  · exact Act.held_of_not_up (by simpa using hu)

theorem Act.dead_of_lossless {s : Session} {a : Act} {p text : Bytes} {n : ℕ}
    (h : a.lossless s (.fail n text) = true) (ha : a = .upWrite p ∨ a = .flush p) :
    s.dead = true := by
  rcases ha with rfl | rfl <;> simpa [Act.lossless] using h

/-- One action of a session, if bytes of a DATA frame are taken only when no others are in hand,
and a failing write leaves none of its bytes at the destination. -/
theorem Does.progress {S dest : Bytes} {s : Session} {a : Act} {c : Choice} {r : Result}
    {A B : List Act} (h : Does s a c r) (hI : Progress S s dest (A ++ (a.held ++ B)))
    (hdata : ∀ offset p, a = .onData offset p → Agrees S offset p ∧
      (A ++ B = [] ∨ r.s = s ∧ r.push.flatMap Act.held = []))
    (hfail : ∀ p n text, a = .upWrite p ∨ a = .flush p → c = .fail n text →
      s.dead = true ∨ p.take n = []) :
    Progress S r.s (dest ++ r.eff.flatMap Effect.bytes) (A ++ (r.push.flatMap Act.held ++ B)) := by
  by_cases hu : a.up = true
  swap
  · obtain ⟨hc, hp, hw, hb, hpush⟩ := h.frame_up (by simpa using hu)
    rw [Act.held_of_not_up (by simpa using hu), List.nil_append] at hI
    rw [flatMap_held_eq_nil fun b hb hbu => (hpush b hb hbu).2, hb, List.append_nil,
      List.nil_append]
    exact hI.congr hc hp hw
  cases h with
  | dialedDead c hd => simpa [Act.held, Act.carrying] using hI
  | dialedFlush c hd hp =>
    have hnil : A ++ B = [] := hI.eq_nil_of_queued hp
    obtain ⟨rfl, rfl⟩ := List.append_eq_nil_iff.mp hnil
    obtain ⟨hle, hdest, hag, -⟩ := hI.of_idle
    have hheld : [Act.flush s.preConn].flatMap Act.held = [.flush s.preConn] := by
      simp [Act.held, Act.carrying, hp]
    show Progress S _ (dest ++ []) ([] ++ ([Act.flush s.preConn].flatMap Act.held ++ []))
    rw [hheld, List.append_nil]
    exact .writing _ s.preConn (.inr rfl) hle hdest hag rfl rfl
  | dialedRead c hd hp =>
    show Progress S _ (dest ++ []) (A ++ B)
    rw [List.append_nil]
    exact hI.connect hp rfl rfl rfl
  | flushOk pre hd => simpa [Effect.bytes] using hI.write (.inr ⟨rfl, rfl⟩)
  | flushFail pre n text =>
    have hnone : (if s.dead = true then [] else pre.take n) = [] :=
      ite_eq_left_iff.mpr (hfail pre n text (.inr rfl) rfl).resolve_left
    simpa [hnone, Effect.bytes, Act.held, Act.carrying] using hI.fail (.inr rfl)
  | flushed n c =>
    show Progress S _ (dest ++ []) (A ++ B)
    rw [List.append_nil]
    exact hI.record (.inr rfl) rfl rfl rfl
  | onDataDropped offset p c h => simpa [Act.held, Act.carrying] using hI
  | onDataQueued offset p c hd hc ho hl =>
    obtain ⟨hp, hnil | ⟨hs, -⟩⟩ := hdata offset p rfl
    swap
    · rw [hs]
      simpa [Act.held, Act.carrying] using hI
    obtain ⟨rfl, rfl⟩ := List.append_eq_nil_iff.mp hnil
    obtain ⟨hle, hdest, hag, -⟩ := hI.of_idle
    have hpos : s.position = s.upstreamWritten + s.preConn.length := by simp [Session.position, hc]
    show Progress S _ (dest ++ []) []
    rw [List.append_nil]
    refine .idle hle hdest (hag.append ?_) fun hcon => ?_
    · rw [← hpos]
      exact hp.drop_to ho
    · rw [show s.connected = true from hcon] at hc
      cases hc
  | onDataAdmitted offset p c hd hc ho hl =>
    obtain ⟨hp, hnil | ⟨-, hpush⟩⟩ := hdata offset p rfl
    swap
    · rw [hpush]
      simpa [Act.held, Act.carrying] using hI
    obtain ⟨rfl, rfl⟩ := List.append_eq_nil_iff.mp hnil
    obtain ⟨hle, hdest, -, hpre⟩ := hI.of_idle
    show Progress S s (dest ++ [])
      ([] ++ ([Act.upWrite (p.drop (s.upstreamWritten - offset))].flatMap Act.held ++ []))
    rw [List.append_nil, List.append_nil, List.nil_append, List.flatMap_singleton, Act.held]
    split_ifs
    · exact hI
    · exact .writing _ _ (.inl rfl) hle hdest (hp.drop_to ho) hc (hpre hc)
  | upWriteOk p hd => simpa [Effect.bytes] using hI.write (.inl ⟨rfl, rfl⟩)
  | upWriteFail p n text =>
    have hnone : (if s.dead = true then [] else p.take n) = [] :=
      ite_eq_left_iff.mpr (hfail p n text (.inl rfl) rfl).resolve_left
    simpa [hnone, Effect.bytes, Act.held, Act.carrying] using hI.fail (.inl rfl)
  | onDataWritten n c =>
    show Progress S _ (dest ++ []) (A ++ B)
    rw [List.append_nil]
    exact hI.record (.inl rfl) rfl rfl rfl
  | _ => cases hu

theorem sum_held (as : List Act) :
    ((as.flatMap Act.held).map Act.carrying).sum = (as.map Act.carrying).sum := by
  induction as with
  | nil => rfl
  | cons a as ih =>
    rw [List.flatMap_cons, List.map_append, List.sum_append, ih, List.map_cons, List.sum_cons,
      Act.held]
    split_ifs with ha <;> simp [ha]

theorem Does.taken_eq {s : Session} {a : Act} {c : Choice} {r : Result} (h : Does s a c r)
    (ha : ∀ offset p, a ≠ .onData offset p) (hloss : a.lossless s c = true)
    (hd : s.dead = false) :
    r.s.upstreamWritten + r.s.preConn.length + (r.push.map Act.carrying).sum =
      s.upstreamWritten + s.preConn.length + a.carrying := by
  cases h with
  | onDataDropped | onDataQueued | onDataAdmitted => exact absurd rfl (ha _ _)
  | flushFail | upWriteFail => simp [Act.lossless, hd] at hloss
  | produceDone after => cases after <;> simp [After.acts, Act.carrying]
  | attach offset => simp [Function.comp_def, Act.carrying]
  | _ => simp_all [Act.carrying] <;> omega

/-- A DATA frame moves what the session has taken to its end, as it moves a position. -/
theorem Does.taken_onData {s : Session} {offset : ℕ} {p : Bytes} {c : Choice} {r : Result}
    (h : Does s (.onData offset p) c r) (hd : s.dead = false)
    (hpre : s.connected = true → s.preConn = []) :
    r.s.upstreamWritten + r.s.preConn.length + (r.push.map Act.carrying).sum =
      splice (s.upstreamWritten + s.preConn.length) offset p := by
  have hpos : s.position = s.upstreamWritten + s.preConn.length := by
    unfold Session.position
    split_ifs with hc
    · simp [hpre hc]
    · rfl
  rw [← hpos]
  cases h with
  | onDataDropped _ _ _ h =>
    rcases h with h | h | h
    · simp [hd] at h
    · rw [splice_gap p h, hpos]
      rfl
    · rw [splice_old h.2, hpos]
      rfl
  | onDataQueued _ _ _ _ hc ho hl =>
    rw [splice_cover ho (by omega)]
    simp
    omega
  | onDataAdmitted _ _ _ _ hc ho hl =>
    have hw : s.position = s.upstreamWritten := by simp [Session.position, hc]
    rw [hw, splice_cover ho (by omega)]
    simp [Act.carrying, hpre hc]
    omega

theorem Does.connected_of_upstream {s : Session} {a : Act} {c : Choice} {r : Result}
    (h : Does s a c r) (hs : s.upstream = true → s.connected = true)
    (hu : r.s.upstream = true) : r.s.connected = true := by
  cases h <;> first | rfl | exact hs hu

end SubstratePoc.Broker
