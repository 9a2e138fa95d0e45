import SubstratePoc.Lib.Index
import SubstratePoc.Tunnel.Wire

namespace SubstratePoc.Sidecar
open Lib Tunnel

def colon : UInt8 := 58
def opening : UInt8 := 91
def closing : UInt8 := 93

/-- The errors of `net.SplitHostPort`. -/
inductive AddrError
  | missingPort
  | tooManyColons
  | missingBracket
  | unexpectedOpening
  | unexpectedClosing
  deriving DecidableEq

/-- `net.SplitHostPort` once the host has been found: `i` is the last colon, and no opening bracket
can stand before `j` and no closing one before `k`. -/
def splitAt (hostport host : Bytes) (i j k : ℕ) : Except AddrError (Bytes × Bytes) :=
  if opening ∈ hostport.drop j then .error .unexpectedOpening
  else if closing ∈ hostport.drop k then .error .unexpectedClosing
  else .ok (host, hostport.drop (i + 1))

def splitHostPort (hostport : Bytes) : Except AddrError (Bytes × Bytes) :=
  match lastIdxOf? colon hostport with
  | none => .error .missingPort
  | some i =>
    if hostport.head? = some opening then
      match hostport.idxOf? closing with
      | none => .error .missingBracket
      | some e =>
        if e + 1 = hostport.length then .error .missingPort
        else if e + 1 = i then splitAt hostport ((hostport.take e).drop 1) i 1 (e + 1)
        else if hostport[e + 1]? = some colon then .error .tooManyColons
        else .error .missingPort
    else if colon ∈ hostport.take i then .error .tooManyColons
    else splitAt hostport (hostport.take i) i 0 0

def joinHostPort (host port : Bytes) : Bytes :=
  if colon ∈ host then opening :: (host ++ closing :: colon :: port) else host ++ colon :: port

def hostPort (host defaultPort : Bytes) : Bytes :=
  if host = [] then []
  else match splitHostPort host with
  | .ok _ => host
  | .error _ => joinHostPort host defaultPort

def Bare (s : Bytes) : Prop := opening ∉ s ∧ closing ∉ s

def Plain (s : Bytes) : Prop := colon ∉ s ∧ Bare s

/-- The two forms that `net.SplitHostPort` accepts. -/
inductive Splits (host port : Bytes) : Bytes → Prop
  | plain (hh : Plain host) (hp : Plain port) : Splits host port (host ++ colon :: port)
  | bracketed (hh : Bare host) (hp : Plain port) :
    Splits host port (opening :: (host ++ closing :: colon :: port))

theorem splitAt_eq_ok {s host : Bytes} {x : Bytes × Bytes} {i j k : ℕ} :
    splitAt s host i j k = .ok x ↔
      opening ∉ s.drop j ∧ closing ∉ s.drop k ∧ x = (host, s.drop (i + 1)) := by
  unfold splitAt
  split_ifs with h1 h2
  · simp [h1]
  · simp [h2]
  · simp [h1, h2, eq_comm]

theorem splits_of_splitHostPort {s host port : Bytes} (h : splitHostPort s = .ok (host, port)) :
    Splits host port s := by
  unfold splitHostPort at h
  split at h
  · cases h
  rename_i i hi
  obtain ⟨p, q, rfl, hq, rfl⟩ := lastIdxOf?_eq_some_append.mp hi
  split_ifs at h with hhead hcolon
  · split at h
    · cases h
    rename_i e he
    obtain ⟨p', q', heq, hp', rfl⟩ := idxOf?_eq_some_append.mp he
    split_ifs at h with h1 h2
    -- the first closing bracket stands right before the last colon
    obtain ⟨rfl, rfl⟩ : p' ++ [closing] = p ∧ q' = colon :: q :=
      List.append_inj (by simp [heq]) (by simpa using h2)
    cases p' with
    | nil => simp [opening, closing] at hhead
    | cons x host' =>
      obtain rfl : x = opening := by simpa using hhead
      obtain ⟨ho, hc, hx⟩ := splitAt_eq_ok.mp h
      obtain ⟨rfl, rfl⟩ : host = host' ∧ port = q := by simpa using hx
      rw [List.append_assoc]
      refine .bracketed ⟨?_, ?_⟩ ⟨hq, ?_, ?_⟩ <;> simp_all
  · obtain ⟨ho, hc, hx⟩ := splitAt_eq_ok.mp h
    obtain ⟨rfl, rfl⟩ : host = p ∧ port = q := by simpa using hx
    refine .plain ⟨?_, ?_, ?_⟩ ⟨hq, ?_, ?_⟩ <;> simp_all

theorem splitHostPort_of_splits {s host port : Bytes} (h : Splits host port s) :
    splitHostPort s = .ok (host, port) := by
  unfold splitHostPort
  cases h with
  | plain hh hp =>
    have hlast : lastIdxOf? colon (host ++ colon :: port) = some host.length :=
      lastIdxOf?_eq_some_append.mpr ⟨host, port, rfl, hp.1, rfl⟩
    have ho : opening ∉ host ++ colon :: port := by
      simpa [opening, colon] using ⟨hh.2.1, hp.2.1⟩
    have hc : closing ∉ host ++ colon :: port := by
      simpa [closing, colon] using ⟨hh.2.2, hp.2.2⟩
    have hhead : (host ++ colon :: port).head? ≠ some opening := fun h =>
      ho (List.mem_of_mem_head? h)
    simp only [hlast, if_neg hhead]
    rw [if_neg (by simpa using hh.1)]
    exact splitAt_eq_ok.mpr ⟨by simpa using ho, by simpa using hc, by simp⟩
  | bracketed hh hp =>
    have hlast : lastIdxOf? colon (opening :: (host ++ closing :: colon :: port)) =
        some (host.length + 2) :=
      lastIdxOf?_eq_some_append.mpr ⟨opening :: (host ++ [closing]), port, by simp, hp.1, by simp⟩
    have hfirst : (opening :: (host ++ closing :: colon :: port)).idxOf? closing =
        some (host.length + 1) :=
      idxOf?_eq_some_append.mpr ⟨opening :: host, colon :: port, by simp,
        by simpa [opening, closing] using hh.2, rfl⟩
    simp only [hlast, hfirst, List.head?_cons, if_true]
    rw [if_neg (by simp)]
    refine splitAt_eq_ok.mpr ⟨?_, ?_, ?_⟩
    · simpa [opening, closing, colon] using ⟨hh.1, hp.2.1⟩
    · simpa [closing, colon] using hp.2.2
    · simp

theorem splitHostPort_eq_ok {s host port : Bytes} :
    splitHostPort s = .ok (host, port) ↔ Splits host port s :=
  ⟨splits_of_splitHostPort, splitHostPort_of_splits⟩

theorem hostPort_of_splits {s host port : Bytes} (h : Splits host port s) (defaultPort : Bytes) :
    hostPort s defaultPort = s := by
  unfold hostPort
  split_ifs with hs
  · exact hs.symm
  · rw [splitHostPort_eq_ok.mpr h]

theorem hostPort_of_not_splits {s : Bytes} (hs : s ≠ []) (h : ∀ host port, ¬Splits host port s)
    (defaultPort : Bytes) : hostPort s defaultPort = joinHostPort s defaultPort := by
  rw [hostPort, if_neg hs]
  split
  · rename_i x hx
    exact absurd (splitHostPort_eq_ok.mp hx) (h x.1 x.2)
  · rfl

theorem not_splits_of_not_mem {s host port : Bytes} (h : colon ∉ s) : ¬Splits host port s := by
  rintro (_ | _) <;> simp at h

theorem Splits.opening {s host port : Bytes} (h : Splits host port (opening :: s)) :
    Bare host ∧ s = host ++ closing :: colon :: port := by
  generalize ht : Sidecar.opening :: s = t at h
  cases h with
  | plain hh hp =>
    have hmem : Sidecar.opening ∈ host ++ colon :: port := ht ▸ List.mem_cons_self
    rcases List.mem_append.mp hmem with h | h
    · exact absurd h hh.2.1
    · rcases List.mem_cons.mp h with h | h
      · cases h
      · exact absurd h hp.2.1
  | bracketed hh hp => exact ⟨hh, (List.cons.inj ht).2⟩

/-- A non-empty decimal port. -/
structure Port where
  digits : Bytes
  nonempty : digits ≠ []
  decimal : ∀ b ∈ digits, 48 ≤ b ∧ b ≤ 57

theorem Port.plain (p : Port) : Plain p.digits := by
  refine ⟨fun h => ?_, fun h => ?_, fun h => ?_⟩ <;> exact absurd (p.decimal _ h) (by decide)

/-- A registered name or an IPv4 address, or an IPv6 literal, which has colons. -/
inductive Host
  | name (s : Bytes) (h : Plain s)
  | literal (s : Bytes) (hc : colon ∈ s) (h : Bare s)

namespace Host

def isLiteral : Host → Bool
  | name _ _ => false
  | literal _ _ _ => true

def addr : Host → Bytes
  | name s _ | literal s _ _ => s

def text : Host → Bytes
  | name s _ => s
  | literal s _ _ => opening :: (s ++ [closing])

theorem splits (h : Host) (p : Port) : Splits h.addr p.digits (h.text ++ colon :: p.digits) := by
  cases h with
  | name s h => exact .plain h p.plain
  | literal s hc h => simpa [text, addr] using Splits.bracketed h p.plain

theorem not_splits (h : Host) (host port : Bytes) : ¬Splits host port h.text := by
  cases h with
  | name s h => exact not_splits_of_not_mem h.1
  | literal s hc h =>
    intro hs
    -- nothing follows the first closing bracket
    have heq := (List.append_cons_inj_of_notMem h.2 List.not_mem_nil).mp hs.opening.2
    cases heq.2.2

end Host

structure Authority where
  host : Host
  port : Option Port

def Authority.text (a : Authority) : Bytes :=
  match a.port with
  | none => a.host.text
  | some p => a.host.text ++ colon :: p.digits

/-- The check of `handleHTTP`'s loop: a request goes to the host of the first. -/
def sameHost (first host defaultPort : Bytes) : Bool :=
  hostPort host defaultPort = hostPort first defaultPort

theorem hostPort_name {h : Host} (hl : h.isLiteral = false) (hs : h.text ≠ []) (d : Port) :
    hostPort h.text d.digits = h.text ++ colon :: d.digits := by
  rw [hostPort_of_not_splits hs h.not_splits]
  cases h with
  | name s h => exact if_neg h.1
  | literal => cases hl

/-- A literal without a port gets a second pair of brackets. -/
theorem hostPort_literal {h : Host} (hl : h.isLiteral = true) (d host port : Bytes) :
    ¬Splits host port (hostPort h.text d) := by
  have hs : h.text ≠ [] := by
    cases h with
    | name => cases hl
    | literal => simp [Host.text]
  rw [hostPort_of_not_splits hs h.not_splits]
  cases h with
  | name => cases hl
  | literal s hc h =>
    rw [joinHostPort, if_pos (by simp [Host.text, hc])]
    intro hsplit
    obtain ⟨hh, heq⟩ := hsplit.opening
    cases host with
    | nil => simp [Host.text, opening, closing] at heq
    | cons x host =>
      obtain ⟨rfl, -⟩ := List.cons.inj heq
      exact hh.1 List.mem_cons_self

/-- `hostPort` keeps host and port, is idempotent and does not distinguish a missing port from the
default one, exactly if a missing port is not that of an IPv6 literal or of an empty name. -/
theorem hostPort_preserves_iff (a : Authority) (d : Port) :
    (splitHostPort (hostPort a.text d.digits) = .ok (a.host.addr, (a.port.getD d).digits) ∧
      hostPort (hostPort a.text d.digits) d.digits = hostPort a.text d.digits ∧
      sameHost a.text (a.host.text ++ colon :: (a.port.getD d).digits) d.digits = true) ↔
    (a.port = none → a.host.isLiteral = false ∧ a.host.text ≠ []) := by
  constructor
  · rintro ⟨hsplit, -⟩ hp
    have hsplit := splitHostPort_eq_ok.mp hsplit
    simp only [Authority.text, hp] at hsplit
    refine ⟨?_, fun hs => ?_⟩
    · by_contra hl
      exact hostPort_literal (by simpa using hl) _ _ _ hsplit
    · rw [hs, hostPort, if_pos rfl] at hsplit
      exact not_splits_of_not_mem (by simp) hsplit
  · intro h
    have hsplits := a.host.splits (a.port.getD d)
    have heq : hostPort a.text d.digits = a.host.text ++ colon :: (a.port.getD d).digits := by
      cases hp : a.port with
      | none =>
        obtain ⟨hl, hs⟩ := h hp
        simpa only [Authority.text, hp, Option.getD_none] using hostPort_name hl hs d
      | some p =>
        simp only [Authority.text, hp, Option.getD_some] at hsplits ⊢
        exact hostPort_of_splits hsplits _
    rw [sameHost, heq, hostPort_of_splits hsplits, decide_eq_true rfl]
    exact ⟨splitHostPort_eq_ok.mpr hsplits, rfl, rfl⟩

/-- `[::1]` becomes `[[::1]]:443`, which does not split and is completed once more. -/
theorem hostPort_unported_literal :
    hostPort "[::1]".toUTF8.data.toList "443".toUTF8.data.toList =
      "[[::1]]:443".toUTF8.data.toList ∧
    splitHostPort "[[::1]]:443".toUTF8.data.toList = .error .missingPort ∧
    hostPort "[[::1]]:443".toUTF8.data.toList "443".toUTF8.data.toList ≠
      "[[::1]]:443".toUTF8.data.toList ∧
    sameHost "[::1]".toUTF8.data.toList "[::1]:443".toUTF8.data.toList "443".toUTF8.data.toList =
      false := by
  decide +kernel

end SubstratePoc.Sidecar
