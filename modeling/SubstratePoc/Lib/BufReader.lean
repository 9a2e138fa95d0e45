import SubstratePoc.Lib.Decoder

namespace SubstratePoc.Lib

variable {α ε : Type}

/-- `bufio.Reader`: what it has read and not handed out, and the segments that the connection has
still to return. -/
structure BufReader (α : Type) where
  buf : List α
  segs : List (List α)

namespace BufReader

/-! ## Single bytes and fields of a known length -/

def stream (r : BufReader α) : List α := r.buf ++ r.segs.flatten

/-- A `Read` of a connection returns at least one byte. -/
def Full (r : BufReader α) : Prop := ∀ p ∈ r.segs, p ≠ []

/-- One `Read` of the connection with room for `n` bytes. -/
def readConn (n : ℕ) : List (List α) → Option (List α × List (List α))
  | [] => none
  | p :: segs => some (p.take n, if p.length ≤ n then segs else p.drop n :: segs)

/-- `Read` with room for `n` bytes: what is buffered, or one read of the connection, which goes
around the buffer if that is not larger. -/
def read (size n : ℕ) (r : BufReader α) : Option (List α × BufReader α) :=
  if r.buf.isEmpty then
    if size ≤ n then (readConn n r.segs).map fun x => (x.1, ⟨[], x.2⟩)
    else (readConn size r.segs).map fun x => (x.1.take n, ⟨x.1.drop n, x.2⟩)
  else some (r.buf.take n, ⟨r.buf.drop n, r.segs⟩)

/-- `ReadByte`, with its `fill`. -/
def readByte (e : Ends ε) (size : ℕ) : StateT (BufReader α) (Except ε) α := fun r =>
  match r.buf with
  | c :: buf => .ok (c, ⟨buf, r.segs⟩)
  | [] => match readConn size r.segs with
    | some (c :: buf, segs) => .ok (c, ⟨buf, segs⟩)
    | _ => .error e.eof

/-- The loop of `io.ReadFull`, for `k` rounds, with `n` bytes still to come. -/
def readLoop (e : Ends ε) (size : ℕ) : ℕ → ℕ → List α → StateT (BufReader α) (Except ε) (List α)
  | _, 0, got => fun r => .ok (got, r)
  | 0, _ + 1, _ => fun _ => .error e.unexpectedEOF
  | k + 1, n + 1, got => fun r => match r.read size (n + 1) with
    | none => .error (if got.isEmpty then e.eof else e.unexpectedEOF)
    | some (p, r') => readLoop e size k (n + 1 - p.length) (got ++ p) r'

/-- `io.ReadFull`: every round brings a byte, so `n` are enough. -/
def readFull (e : Ends ε) (size n : ℕ) : StateT (BufReader α) (Except ε) (List α) :=
  readLoop e size n n []

/-- The reader has the input `s` before it. -/
structure Reads (r : BufReader α) (s : List α) : Prop where
  full : r.Full
  stream : r.stream = s

theorem readConn_eq_some {n : ℕ} {segs segs' : List (List α)} {p : List α}
    (h : readConn n segs = some (p, segs')) (hn : 0 < n) (hf : ∀ q ∈ segs, q ≠ []) :
    p ≠ [] ∧ p.length ≤ n ∧ p ++ segs'.flatten = segs.flatten ∧ ∀ q ∈ segs', q ≠ [] := by
  cases segs with
  | nil => cases h
  | cons q segs =>
    rw [List.forall_mem_cons] at hf
    cases h
    refine ⟨?_, List.length_take_le _ _, ?_, ?_⟩
    · rw [Ne, List.take_eq_nil_iff]
      rintro (h | h)
      · omega
      · exact hf.1 h
    · split_ifs with hle
      · rw [List.take_of_length_le hle, List.flatten_cons]
      · rw [List.flatten_cons, List.flatten_cons, ← List.append_assoc, List.take_append_drop]
    · split_ifs with hle
      · exact hf.2
      · rw [List.forall_mem_cons]
        refine ⟨?_, hf.2⟩
        rw [Ne, List.drop_eq_nil_iff]
        exact hle

theorem readConn_eq_none {n : ℕ} {segs : List (List α)} (h : readConn n segs = none) : segs = [] := by
  cases segs with
  | nil => rfl
  | cons q segs => cases h

theorem read_eq_some {size n : ℕ} {r r' : BufReader α} {p : List α} (hs : 0 < size) (hn : 0 < n)
    (hr : r.Full) (h : r.read size n = some (p, r')) :
    p ≠ [] ∧ p.length ≤ n ∧ p ++ r'.stream = r.stream ∧ r'.Full := by
  -- a round hands out the next bytes; there is none only at the end
  unfold read at h
  split_ifs at h with hb hle
  · obtain ⟨⟨q, segs⟩, hq, heq⟩ := Option.map_eq_some_iff.mp h
    cases heq
    obtain ⟨h1, h2, h3, h4⟩ := readConn_eq_some hq hn hr
    rw [List.isEmpty_iff] at hb
    exact ⟨h1, h2, by rw [stream, stream, hb]; exact h3, h4⟩
  · obtain ⟨⟨q, segs⟩, hq, heq⟩ := Option.map_eq_some_iff.mp h
    cases heq
    obtain ⟨h1, h2, h3, h4⟩ := readConn_eq_some hq hs hr
    rw [List.isEmpty_iff] at hb
    refine ⟨?_, List.length_take_le _ _, ?_, h4⟩
    · rw [Ne, List.take_eq_nil_iff]
      rintro (h | h)
      · omega
      · exact h1 h
    · rw [stream, stream, hb, ← List.append_assoc, List.take_append_drop]
      exact h3
  · cases h
    refine ⟨?_, List.length_take_le _ _, ?_, hr⟩
    · rw [Ne, List.take_eq_nil_iff]
      rintro (h | h)
      · omega
      · exact hb (List.isEmpty_iff.mpr h)
    · rw [stream, stream, ← List.append_assoc, List.take_append_drop]

theorem read_eq_none {size n : ℕ} {r : BufReader α} (h : r.read size n = none) : r.stream = [] := by
  unfold read at h
  split_ifs at h with hb hle
  · rw [stream, readConn_eq_none (Option.map_eq_none_iff.mp h), List.isEmpty_iff.mp hb]
    rfl
  · rw [stream, readConn_eq_none (Option.map_eq_none_iff.mp h), List.isEmpty_iff.mp hb]
    rfl

theorem readLoop_same {e : Ends ε} {size : ℕ} (hs : 0 < size) (k : ℕ) :
    ∀ {n : ℕ} {got s : List α} {r : BufReader α}, n ≤ k → r.Reads s →
      SameResult (fun _ => False) Reads (readLoop e size k n got r)
        (if n ≤ s.length then .ok (got ++ s.take n, s.drop n)
          else .error (if got.isEmpty && s.isEmpty then e.eof else e.unexpectedEOF)) := by
  -- induction on the rounds: a round that brings `p` leaves the loop for the input after `p`
  induction k with
  | zero =>
    intro n got s r hn hr
    obtain rfl : n = 0 := by omega
    rw [if_pos (Nat.zero_le _), List.take_zero, List.append_nil, List.drop_zero]
    exact .ok got hr
  | succ k ih =>
    intro n got s r hn hr
    obtain _ | n := n
    · rw [if_pos (Nat.zero_le _), List.take_zero, List.append_nil, List.drop_zero]
      exact .ok got hr
    · obtain ⟨hfull, rfl⟩ := hr
      rw [readLoop]
      dsimp only
      cases hread : r.read size (n + 1) with
      | none =>
        rw [read_eq_none hread, List.length_nil, if_neg (Nat.not_succ_le_zero n),
          List.isEmpty_nil, Bool.and_true]
        exact .error _
      | some x =>
        obtain ⟨p, r'⟩ := x
        obtain ⟨hp, hle, hsplit, hfull'⟩ := read_eq_some hs n.succ_pos hfull hread
        have hpos : 0 < p.length := List.length_pos_iff.mpr hp
        have hsame := @ih (n + 1 - p.length) (got ++ p) r'.stream r' (by omega) ⟨hfull', rfl⟩
        -- the same bytes are there, counted from before `p` and from after it
        have hiff : n + 1 ≤ (p ++ r'.stream).length ↔ n + 1 - p.length ≤ r'.stream.length := by
          rw [List.length_append]
          omega
        have hgot : (got ++ p).isEmpty = false := by simp [hp]
        have hrest : (p ++ r'.stream).isEmpty = false := by simp [hp]
        rw [hgot, Bool.false_and] at hsame
        rw [← hsplit, if_congr hiff rfl rfl, List.take_append, List.drop_append,
          List.take_of_length_le hle, List.drop_of_length_le hle, List.nil_append,
          ← List.append_assoc, hrest, Bool.and_false]
        exact hsame

theorem sim_readFull {e : Ends ε} {size : ℕ} (hs : 0 < size) (n : ℕ) :
    Sim (fun _ => False) Reads (readFull (α := α) e size n) (takeFull e n) := fun _ _ h => by
  have hsame := @readLoop_same _ _ e size hs n n [] _ _ le_rfl h
  rw [List.nil_append, List.isEmpty_nil, Bool.true_and] at hsame
  exact hsame

theorem sim_readByte {e : Ends ε} {size : ℕ} (hs : 0 < size) :
    Sim (fun _ => False) (Reads (α := α)) (readByte e size) (takeByte e) := by
  rintro ⟨buf, segs⟩ s ⟨hfull, rfl⟩
  cases buf with
  | cons c buf => exact .ok c ⟨hfull, rfl⟩
  | nil =>
    unfold readByte
    dsimp only
    cases hread : readConn size segs with
    | none =>
      rw [readConn_eq_none hread]
      exact .error e.eof
    | some x =>
      obtain ⟨p, segs'⟩ := x
      obtain ⟨hp, -, hsplit, hfull'⟩ := readConn_eq_some hread hs hfull
      obtain ⟨c, p, rfl⟩ := List.exists_cons_of_ne_nil hp
      rw [show stream ⟨[], segs⟩ = c :: (p ++ segs'.flatten) from hsplit.symm]
      exact .ok c ⟨hfull', rfl⟩

/-! ## Up to a mark -/

/-- How much of the input is asked for, once enough of it is there: more input does not change the
answer. -/
structure Stable (stop : List α → Option ℕ) : Prop where
  le_length : ∀ s n, stop s = some n → n ≤ s.length
  append : ∀ s t n, stop s = some n → stop (s ++ t) = some n

/-- Reads until there is enough, and hands it out; every read has room for its segment. -/
def readUntil (stop : List α → Option ℕ) :
    List α → List (List α) → Option (List α × BufReader α)
  | buf, [] => (stop buf).map fun n => (buf.take n, ⟨buf.drop n, []⟩)
  | buf, p :: segs => match stop buf with
    | some n => some (buf.take n, ⟨buf.drop n, p :: segs⟩)
    | none => readUntil stop (buf ++ p) segs

/-- The reader stops after the first read that makes it enough. -/
theorem readUntil_eq_some {stop : List α → Option ℕ} (hstop : Stable stop) {buf : List α}
    {segs : List (List α)} {n : ℕ} (h : stop (buf ++ segs.flatten) = some n) :
    ∃ j, readUntil stop buf segs = some ((buf ++ segs.flatten).take n,
        ⟨(buf ++ (segs.take j).flatten).drop n, segs.drop j⟩) ∧
      n ≤ (buf ++ (segs.take j).flatten).length ∧
      ∀ k, stop (buf ++ (segs.take k).flatten) ≠ none → j ≤ k := by
  induction segs generalizing buf with
  | nil =>
    rw [List.flatten_nil, List.append_nil] at h
    refine ⟨0, ?_, ?_, fun k _ => Nat.zero_le k⟩
    · simp [readUntil, h]
    · simpa using hstop.le_length _ _ h
  | cons p segs ih =>
    cases hs : stop buf with
    | some m =>
      obtain rfl : m = n := by
        rw [hstop.append _ _ _ hs] at h
        exact Option.some.inj h
      have hle := hstop.le_length _ _ hs
      refine ⟨0, ?_, ?_, fun k _ => Nat.zero_le k⟩
      · simp [readUntil, hs, List.take_append_of_le_length hle]
      · simpa using hle
    | none =>
      rw [List.flatten_cons, ← List.append_assoc] at h
      obtain ⟨j, hread, hle, hmin⟩ := ih h
      refine ⟨j + 1, ?_, ?_, fun k hk => ?_⟩
      · rw [readUntil, hs]
        simpa using hread
      · simpa using hle
      · cases k with
        | zero => simp [hs] at hk
        | succ k =>
          rw [List.take_succ_cons, List.flatten_cons, ← List.append_assoc] at hk
          exact Nat.succ_le_succ (hmin k hk)

end BufReader

end SubstratePoc.Lib
