import SubstratePoc.Lib.BufReader
import SubstratePoc.Pair.System
import SubstratePoc.Sidecar.HostPort

namespace SubstratePoc.Sidecar
open Lib Tunnel BufReader
open Broker (Cause)
open Pair (closeReason)

structure Request where
  method : Bytes
  host : Bytes
  deriving DecidableEq

def port443 : Bytes := "443".toUTF8.data.toList

def port80 : Bytes := "80".toUTF8.data.toList

/-- What the proxy's surroundings do. -/
structure Env where
  /-- what `http.ReadRequest` makes of a header -/
  parse : Bytes → Option Request
  /-- the requests that it returns after the first, and the error that ends them -/
  next : BufReader UInt8 → List Request × Cause
  /-- the 200 has been written to the agent -/
  replied : Bool
  /-- the `WriteUp` calls of `handleConnect` that fail -/
  fails : ℕ → Bool
  /-- how forwarding a request fails -/
  forward : Request → Option Cause
  /-- how the agent's bytes end -/
  ended : Cause

/-- The length of a request header: its lines up to and with the first empty one. -/
def headerEnd : Bytes → Option ℕ
  | [] => none
  | c :: s =>
    if c = 10 ∧ s.head? = some 10 then some 2
    else if c = 10 ∧ s.take 2 = [13, 10] then some 3
    else (headerEnd s).map (· + 1)

/-- `http.ReadRequest` on a reader that has read nothing yet. -/
def readRequest (env : Env) (segs : List Bytes) : Option (Request × BufReader UInt8) :=
  (readUntil headerEnd [] segs).bind fun (header, r) => (env.parse header).map (·, r)

inductive Outcome
  /-- the agent connection is closed without a session -/
  | dropped
  /-- `handleConnect`: the session's target, the `WriteUp` calls and the reason of `CloseUp` -/
  | connect (target : Bytes) (up : List Bytes) (close : Option Bytes)
  /-- `handleHTTP`: the session's target, the requests it forwards and the reason of `CloseUp` -/
  | http (target : Bytes) (forwarded : List Request) (close : Bytes)
  deriving DecidableEq

/-- The goroutine of `handleConnect`, from its `i`-th `WriteUp` on. -/
def copyUp (env : Env) (i : ℕ) : List Bytes → List Bytes × Option Bytes
  | [] => ([], some (closeReason env.ended))
  | p :: segs =>
    if p = [] then copyUp env i segs
    else if env.fails i then ([p], none)
    else (p :: (copyUp env (i + 1) segs).1, (copyUp env (i + 1) segs).2)

/-- `handleConnect`; it reads from the connection, not from the reader. -/
def handleConnect (env : Env) (segs : List Bytes) (req : Request) : Outcome :=
  if !env.replied then .dropped
  else
    let r := copyUp env 0 segs
    .connect (hostPort req.host port443) r.1 r.2

def hostChange : Bytes := "host change".toUTF8.data.toList

/-- The loop of `handleHTTP`, for the host of the first request. -/
def forwardAll (env : Env) (first : Bytes) (e : Cause) : List Request → List Request × Bytes
  | [] => ([], closeReason e)
  | req :: reqs =>
    if !sameHost first req.host port80 then ([], hostChange)
    else match env.forward req with
    | some e => ([req], closeReason e)
    | none => (req :: (forwardAll env first e reqs).1, (forwardAll env first e reqs).2)

def handleHTTP (env : Env) (br : BufReader UInt8) (first : Request) : Outcome :=
  let r := forwardAll env first.host (env.next br).2 (first :: (env.next br).1)
  .http (hostPort first.host port80) r.1 r.2

def methodConnect : Bytes := "CONNECT".toUTF8.data.toList

/-- `handle`, for an agent connection whose reads return `segs`. -/
def handle (env : Env) (segs : List Bytes) : Outcome :=
  match readRequest env segs with
  | none => .dropped
  | some (req, br) =>
    if req.method = methodConnect then handleConnect env br.segs req else handleHTTP env br req

theorem headerEnd_stable : Stable headerEnd where
  le_length s n h := by
    induction s generalizing n with
    | nil => cases h
    | cons c s ih =>
      unfold headerEnd at h
      split_ifs at h with h1 h2
      · obtain rfl := Option.some.inj h
        cases s with
        | nil => simp at h1
        | cons => simp
      · obtain rfl := Option.some.inj h
        have := congrArg List.length h2.2
        simp at this ⊢
        omega
      · obtain ⟨m, hm, rfl⟩ := Option.map_eq_some_iff.mp h
        exact Nat.succ_le_succ (ih m hm)
  append s t n h := by
    induction s generalizing n with
    | nil => cases h
    | cons c s ih =>
      match s with
      | [] => simp [headerEnd] at h
      | [x] =>
        by_cases hx : c = 10 ∧ x = 10
        · simpa [headerEnd, hx] using h
        · simp [headerEnd, hx] at h
      | x :: y :: s =>
        -- the two bytes that decide are there
        unfold headerEnd at h
        rw [List.cons_append, headerEnd]
        split_ifs at h with h1 h2
        · rw [if_pos (by simpa using h1)]
          exact h
        · rw [if_neg (by simpa using h1), if_pos (by simpa using h2)]
          exact h
        · obtain ⟨m, hm, rfl⟩ := Option.map_eq_some_iff.mp h
          rw [if_neg (by simpa using h1), if_neg (by simpa using h2), ih m hm]
          rfl

theorem flatten_copyUp {env : Env} (hf : ∀ i, env.fails i = false) (i : ℕ) (segs : List Bytes) :
    (copyUp env i segs).1.flatten = segs.flatten ∧
      (copyUp env i segs).2 = some (closeReason env.ended) := by
  induction segs generalizing i with
  | nil => exact ⟨rfl, rfl⟩
  | cons p segs ih =>
    unfold copyUp
    by_cases hp : p = []
    · simpa [hp] using ih i
    · simpa [hp, hf] using ih (i + 1)

theorem readRequest_eq_some {env : Env} {H B : Bytes} {req : Request} {segs : List Bytes}
    (hH : headerEnd H = some H.length) (hparse : env.parse H = some req)
    (hsegs : segs.flatten = H ++ B) :
    ∃ j, readRequest env segs = some (req, ⟨(segs.take j).flatten.drop H.length, segs.drop j⟩) ∧
      H.length ≤ (segs.take j).flatten.length ∧
      ∀ k, (segs.take k).flatten = H → j ≤ k := by
  have hend : headerEnd ([] ++ segs.flatten) = some H.length := by
    rw [List.nil_append, hsegs]
    exact headerEnd_stable.append H B _ hH
  obtain ⟨j, hread, hle, hmin⟩ := readUntil_eq_some headerEnd_stable hend
  simp only [List.nil_append, hsegs, List.take_left'] at hread hle hmin
  refine ⟨j, ?_, hle, fun k hk => hmin k ?_⟩
  · simp [readRequest, hread, hparse]
  · simp [hk, hH]

/-- Of the bytes after a CONNECT header those are handed to `WriteUp` that the reader has not read
with it: all of them exactly if the header ends with a read. -/
theorem connect_forwards_iff (env : Env) {H B host : Bytes} {segs : List Bytes}
    (hH : headerEnd H = some H.length) (hparse : env.parse H = some ⟨methodConnect, host⟩)
    (hreplied : env.replied = true) (hfails : ∀ i, env.fails i = false)
    (hsegs : segs.flatten = H ++ B) :
    ∃ up, handle env segs = .connect (hostPort host port443) up
        (some (closeReason env.ended)) ∧
      (∃ n, up.flatten = B.drop n) ∧ (up.flatten = B ↔ ∃ k, (segs.take k).flatten = H) := by
  obtain ⟨j, hread, hle, hmin⟩ := readRequest_eq_some hH hparse hsegs
  obtain ⟨hup, hclose⟩ := flatten_copyUp hfails 0 (segs.drop j)
  have hsplit : (segs.take j).flatten ++ (segs.drop j).flatten = H ++ B := by
    rw [← List.flatten_append, List.take_append_drop, hsegs]
  -- what the reader has read is the header and the first bytes after it
  obtain ⟨C, hC, hB⟩ : ∃ C, (segs.take j).flatten = H ++ C ∧ B = C ++ (segs.drop j).flatten := by
    obtain ⟨D, hH, hD⟩ | h := List.append_eq_append_iff.mp hsplit
    · obtain rfl : D = [] := by
        rw [hH, List.length_append] at hle
        exact List.length_eq_zero_iff.mp (by omega)
      exact ⟨[], by simpa using hH.symm, hD.symm⟩
    · exact h
  refine ⟨(copyUp env 0 (segs.drop j)).1, ?_, ⟨C.length, ?_⟩, ?_⟩
  · simp [handle, hread, handleConnect, hreplied, hclose]
  · rw [hup, hB, List.drop_left]
  · rw [hup, hB, List.self_eq_append_left]
    constructor
    · rintro rfl
      exact ⟨j, by simpa using hC⟩
    · rintro ⟨k, hk⟩
      have htake := congrArg List.flatten (List.take_append_drop j (segs.take k))
      rw [List.take_take, min_eq_left (hmin k hk), List.flatten_append, hC, hk,
        List.append_assoc] at htake
      exact (List.append_eq_nil_iff.mp (List.append_right_eq_self.mp htake)).1

def connectHeader : Bytes :=
  -- a CONNECT request for `a:443`
  "CONNECT a:443 HTTP/1.1\r\n\r\n".toUTF8.data.toList

def connecting : Env where
  parse _ := some ⟨methodConnect, "a:443".toUTF8.data.toList⟩
  next _ := ([], .eof)
  replied := true
  fails _ := false
  forward _ := none
  ended := .eof

theorem connect_forwards_waiting : ∃ up, handle connecting [connectHeader, [1, 2], [3]] =
      .connect "a:443".toUTF8.data.toList up (some (closeReason .eof)) ∧ up.flatten = [1, 2, 3] := by
  have hsegs : [connectHeader, [1, 2], [3]].flatten = connectHeader ++ [1, 2, 3] := by simp
  obtain ⟨up, hup, -, hiff⟩ := connect_forwards_iff connecting (by decide +kernel) rfl rfl
    (fun _ => rfl) hsegs
  refine ⟨up, hup.trans ?_, hiff.mpr ⟨1, by simp⟩⟩
  exact congrArg (Outcome.connect · up _) (by decide +kernel)

/-- The agent does not wait for the 200: its first two bytes come in with the header. -/
theorem connect_loses_buffered : handle connecting [connectHeader ++ [1, 2], [3]] =
    .connect "a:443".toUTF8.data.toList [[3]] (some (closeReason .eof)) := by
  decide +kernel

end SubstratePoc.Sidecar
