import Mathlib.Logic.Function.Basic
import SubstratePoc.Actor.Tracker
import SubstratePoc.Lib.Keep
import SubstratePoc.Lib.Run

namespace SubstratePoc.Actor
open Lib

/-- The tracker with the calls that it counts: the times at which those in flight were started,
and the time of the last event. -/
structure Flight where
  tracker : Tracker
  since : Kind → List Instant
  last : Instant

namespace Flight

inductive Event
  | beforeRun (now : Instant)
  | afterRun (now : Instant)
  /-- `beforeTool` or `beforeModel` -/
  | before (k : Kind) (now : Instant)
  /-- `afterTool` or `afterModel` of the `i`-th call in flight -/
  | after (k : Kind) (i : ℕ) (now : Instant)
  deriving DecidableEq

def Event.now : Event → Instant
  | .beforeRun now | .afterRun now | .before _ now | .after _ _ now => now

def start (now : Instant) : Flight := ⟨.create now, fun _ => [], now⟩

def apply (w : Flight) : Event → Option Flight
  | .beforeRun now => some { w with tracker := w.tracker.beforeRun now, last := now }
  | .afterRun now => some { w with tracker := w.tracker.afterRun now, last := now }
  | .before k now => some
      ⟨w.tracker.before k now, Function.update w.since k (w.since k ++ [now]), now⟩
  | .after k i now =>
    if i < (w.since k).length then some
      ⟨w.tracker.after k now, Function.update w.since k ((w.since k).eraseIdx i), now⟩
    else none

/-- Events come at times that do not decrease. -/
def step (w : Flight) (e : Event) : Option Flight :=
  if e.now.mono < w.last.mono then none else w.apply e

/-- The age of the oldest call of a kind, 0 if there is none. -/
def oldestAge (w : Flight) (k : Kind) (now : Instant) : ℤ :=
  ((w.since k).map now.since).foldr max 0

/-- No call ends that has been in flight for longer than the others of its kind, unless it is the
only one. -/
def oldestStays (w : Flight) : Event → Bool
  | .after k i _ =>
    let rest := (w.since k).eraseIdx i
    rest.isEmpty || rest.any fun t => (w.since k)[i]?.any fun s => t.mono ≤ s.mono
  | _ => true

end Flight

def Status.blockedMillis (st : Status) : Kind → ℤ
  | .tool => st.toolBlockedMillis
  | .model => st.modelBlockedMillis

theorem Tracker.blockedMillis_snapshot (t : Tracker) (now : Instant) (k : Kind) :
    (t.snapshot now).blockedMillis k = (t.gauge k).blockedMillis now := by
  cases k <;> rfl

/-! ## One kind of calls -/

/-- The gauge counts the calls that were started at the times `l`, and its time is that of none
that was started later than one of them. -/
structure Gauge.Counts (g : Gauge) (l : List Instant) (last : Instant) : Prop where
  calls_eq : g.calls = l.length
  idle : l = [] → g.busySince = none
  busy : l ≠ [] → ∃ t, g.busySince = some t ∧ ∀ s ∈ l, t.mono ≤ s.mono
  le_last : ∀ s ∈ l, s.mono ≤ last.mono

/-- Its time is that of a call in flight. -/
def Gauge.Current (g : Gauge) (l : List Instant) : Prop :=
  ∀ t, g.busySince = some t → ∃ s ∈ l, s.mono = t.mono

section Gauge
variable {g : Gauge} {l : List Instant} {last now : Instant}

theorem Gauge.Counts.mono (h : g.Counts l last) (hle : last.mono ≤ now.mono) : g.Counts l now :=
  ⟨h.calls_eq, h.idle, h.busy, fun s hs => Int.le_trans (h.le_last s hs) hle⟩

theorem Gauge.Counts.before (h : g.Counts l last) (hle : last.mono ≤ now.mono) :
    (g.before now).Counts (l ++ [now]) now := by
  refine ⟨?_, fun hnil => absurd hnil (by simp), fun _ => ?_, ?_⟩
  · rw [Gauge.before, h.calls_eq, List.length_append, List.length_singleton]
  · rw [Gauge.before, h.calls_eq]
    by_cases hl : l = []
    · exact ⟨now, by simp [hl], by simp [hl]⟩
    · obtain ⟨t, ht, hmin⟩ := h.busy hl
      refine ⟨t, by simpa [hl] using ht, ?_⟩
      rw [List.forall_mem_append]
      obtain ⟨s, hs⟩ := List.exists_mem_of_ne_nil l hl
      exact ⟨hmin, by simpa using Int.le_trans (Int.le_trans (hmin s hs) (h.le_last s hs)) hle⟩
  · rw [List.forall_mem_append]
    exact ⟨fun s hs => Int.le_trans (h.le_last s hs) hle, by simp⟩

theorem Gauge.Counts.after {i : ℕ} (h : g.Counts l last) (hi : i < l.length)
    (hle : last.mono ≤ now.mono) : g.after.Counts (l.eraseIdx i) now := by
  have hlen := List.length_eraseIdx_of_lt hi
  refine ⟨?_, fun hnil => ?_, fun hne => ?_, ?_⟩
  · rw [Gauge.after, h.calls_eq, hlen]
  · rw [Gauge.after, h.calls_eq, ← hlen, hnil]
    rfl
  · obtain ⟨t, ht, hmin⟩ := h.busy (by rintro rfl; exact absurd hi (Nat.not_lt_zero _))
    refine ⟨t, ?_, fun s hs => hmin s (List.mem_of_mem_eraseIdx hs)⟩
    rw [Gauge.after, h.calls_eq, ← hlen, if_neg (by simpa using hne), ht]
  · exact fun s hs => Int.le_trans (h.le_last s (List.mem_of_mem_eraseIdx hs)) hle

theorem Gauge.Current.before (h : g.Counts l last) (hc : g.Current l) :
    (g.before now).Current (l ++ [now]) := by
  intro t ht
  rw [Gauge.before, h.calls_eq] at ht
  split_ifs at ht
  · obtain rfl := Option.some.inj ht
    exact ⟨now, by simp, rfl⟩
  · obtain ⟨s, hs, heq⟩ := hc t ht
    exact ⟨s, List.mem_append_left _ hs, heq⟩

theorem Gauge.Current.after_iff {i : ℕ} {s : Instant} (h : g.Counts l last) (hc : g.Current l)
    (hs : l[i]? = some s) :
    g.after.Current (l.eraseIdx i) ↔ l.eraseIdx i = [] ∨ ∃ t ∈ l.eraseIdx i, t.mono ≤ s.mono := by
  -- the end of a call leaves the time current exactly if none that is older than the rest ends
  have hi : i < l.length := (List.getElem?_eq_some_iff.mp hs).1
  have hmem : s ∈ l := List.mem_of_getElem? hs
  have hafter := h.after hi (Int.le_refl last.mono)
  by_cases hnil : l.eraseIdx i = []
  · simp [Gauge.Current, hafter.idle hnil, hnil]
  obtain ⟨t, ht, hmin⟩ := h.busy (List.ne_nil_of_mem hmem)
  have ht' : g.after.busySince = some t := by
    rw [Gauge.after, h.calls_eq, ← List.length_eraseIdx_of_lt hi, if_neg (by simpa using hnil), ht]
  simp only [Gauge.Current, ht', Option.some.injEq, forall_eq', hnil, false_or]
  constructor
  · rintro ⟨u, hu, heq⟩
    exact ⟨u, hu, by rw [heq]; exact hmin s hmem⟩
  · rintro ⟨u, hu, hle⟩
    have hmu := hmin u (List.mem_of_mem_eraseIdx hu)
    obtain ⟨v, hv, heq⟩ := hc t ht
    -- the call whose time the gauge keeps is still there, or it is the one that ends
    by_cases hvs : v = s
    · subst hvs
      exact ⟨u, hu, by omega⟩
    · refine ⟨v, ?_, heq⟩
      rw [List.mem_eraseIdx_iff_getElem?]
      obtain ⟨j, hj⟩ := List.mem_iff_getElem?.mp hv
      refine ⟨j, ?_, hj⟩
      rintro rfl
      exact hvs (Option.some.inj (hj.symm.trans hs))

theorem foldr_max_le_iff {l : List ℤ} {a : ℤ} : l.foldr max 0 ≤ a ↔ 0 ≤ a ∧ ∀ x ∈ l, x ≤ a := by
  induction l with
  | nil => simp
  | cons x l ih =>
    rw [List.foldr_cons, List.forall_mem_cons, Int.max_le, ih]
    exact and_left_comm

/-- The reported time is the age of the oldest call at every moment from now on if and only if the
gauge's time is that of a call in flight. -/
theorem Gauge.Counts.blockedMillis_iff (h : g.Counts l last) :
    (∀ now : Instant, last.mono ≤ now.mono →
      g.blockedMillis now = milliseconds ((l.map now.since).foldr max 0)) ↔ g.Current l := by
  by_cases hl : l = []
  · have hidle := h.idle hl
    subst hl
    simp [Gauge.Current, Gauge.blockedMillis, hidle, milliseconds]
  obtain ⟨t, ht, hmin⟩ := h.busy hl
  simp only [Gauge.Current, Gauge.blockedMillis, ht, Option.some.injEq, forall_eq']
  constructor
  · intro hall
    by_contra hnone
    -- a whole number of milliseconds after `t`, all the calls are younger than that
    have hlt : ∀ s ∈ l, t.mono + 1 ≤ s.mono := by
      intro s hs
      have hne : s.mono ≠ t.mono := fun heq => hnone ⟨s, hs, heq⟩
      have := hmin s hs
      omega
    let n : ℤ := (last.mono - t.mono).toNat + 1
    have hn := hall ⟨0, t.mono + 1000000 * n⟩ (by dsimp only [n]; omega)
    have hle : (l.map (Instant.since ⟨0, t.mono + 1000000 * n⟩)).foldr max 0 ≤ 1000000 * n - 1 := by
      rw [foldr_max_le_iff]
      refine ⟨by dsimp only [n]; omega, ?_⟩
      intro x hx
      obtain ⟨s, hs, rfl⟩ := List.mem_map.mp hx
      have := hlt s hs
      dsimp only [Instant.since]
      omega
    have hge := (foldr_max_le_iff (l := l.map (Instant.since ⟨0, t.mono + 1000000 * n⟩))).mp
      (Int.le_refl _)
    generalize (l.map (Instant.since ⟨0, t.mono + 1000000 * n⟩)).foldr max 0 = age at hn hle hge
    rw [milliseconds, milliseconds, Int.tdiv_eq_ediv_of_nonneg hge.1,
      Int.tdiv_eq_ediv_of_nonneg (by dsimp only [Instant.since, n]; omega)] at hn
    dsimp only [Instant.since] at hn
    omega
  · rintro ⟨s, hs, heq⟩ now hnow
    congr 1
    apply Int.le_antisymm
    · have hge := (foldr_max_le_iff (l := l.map now.since)).mp (Int.le_refl _)
      have := hge.2 _ (List.mem_map_of_mem hs)
      rwa [show now.since t = now.since s by rw [Instant.since, Instant.since, heq]]
    · rw [foldr_max_le_iff]
      have := h.le_last s hs
      refine ⟨by dsimp only [Instant.since]; omega, ?_⟩
      intro x hx
      obtain ⟨u, hu, rfl⟩ := List.mem_map.mp hx
      have := hmin u hu
      dsimp only [Instant.since]
      omega

end Gauge

/-! ## Runs -/

namespace Flight

def Counted (w : Flight) : Prop := ∀ k, (w.tracker.gauge k).Counts (w.since k) w.last

def Current (w : Flight) : Prop := ∀ k, (w.tracker.gauge k).Current (w.since k)

variable {w w' : Flight} {e : Event}

/-- What an event does to one kind of calls. -/
inductive Moves (w w' : Flight) (k : Kind) : Event → Prop
  | same (e : Event) (hk : ∀ i now, e ≠ .after k i now)
    (hg : w'.tracker.gauge k = w.tracker.gauge k) (hs : w'.since k = w.since k) : Moves w w' k e
  | before (now : Instant) (hl : w'.last = now)
    (hg : w'.tracker.gauge k = (w.tracker.gauge k).before now) (hs : w'.since k = w.since k ++ [now]) :
    Moves w w' k (.before k now)
  | after (i : ℕ) (now : Instant) (hl : w'.last = now) (hi : i < (w.since k).length)
    (hg : w'.tracker.gauge k = (w.tracker.gauge k).after) (hs : w'.since k = (w.since k).eraseIdx i) :
    Moves w w' k (.after k i now)

theorem step_moves (h : w.step e = some w') :
    w.last.mono ≤ w'.last.mono ∧ ∀ k, Moves w w' k e := by
  unfold step at h
  split_ifs at h with hlt
  have hle : w.last.mono ≤ e.now.mono := by omega
  cases e with
  | beforeRun | afterRun =>
    obtain rfl := Option.some.inj h
    refine ⟨hle, fun k => .same _ (by simp) ?_ rfl⟩
    cases k <;> rfl
  | before k now =>
    obtain rfl := Option.some.inj h
    refine ⟨hle, fun k' => ?_⟩
    have hg := w.tracker.gauge_before k k' now
    rcases update_cases w.since k (w.since k ++ [now]) k' with ⟨rfl, hs⟩ | ⟨hne, hs⟩
    · rw [if_pos rfl] at hg
      exact .before now rfl hg hs
    · rw [if_neg hne] at hg
      exact .same _ (by simp) hg hs
  | after k i now =>
    simp only [apply] at h
    split_ifs at h with hi
    obtain rfl := Option.some.inj h
    refine ⟨hle, fun k' => ?_⟩
    have hg := w.tracker.gauge_after k k' now
    rcases update_cases w.since k ((w.since k).eraseIdx i) k' with ⟨rfl, hs⟩ | ⟨hne, hs⟩
    · rw [if_pos rfl] at hg
      exact .after i now rfl hi hg hs
    · rw [if_neg hne] at hg
      exact .same _ (by simp [hne.symm]) hg hs

theorem Counted.step (hI : w.Counted) (h : w.step e = some w') : w'.Counted := by
  obtain ⟨hle, hmoves⟩ := step_moves h
  intro k
  cases hmoves k with
  | same _ _ hg hs =>
    rw [hg, hs]
    exact (hI k).mono hle
  | before now hl hg hs =>
    rw [hl] at hle
    rw [hg, hs, hl]
    exact (hI k).before hle
  | after i now hl hi hg hs =>
    rw [hl] at hle
    rw [hg, hs, hl]
    exact (hI k).after hi hle

theorem Counted.start (t : Instant) : (Flight.start t).Counted := by
  intro k
  refine ⟨?_, fun _ => ?_, fun h => absurd rfl h, fun s hs => by cases hs⟩ <;> cases k <;> rfl

theorem Current.start (t : Instant) : (Flight.start t).Current := by
  intro k s hs
  cases k <;> cases hs

theorem current_step_iff (hI : w.Counted) (hc : w.Current) (h : w.step e = some w') :
    w.oldestStays e = true ↔ w'.Current := by
  -- the times stay current exactly if the oldest call does not end before the others
  obtain ⟨-, hmoves⟩ := step_moves h
  have hend : ∀ k i now, e = .after k i now →
      (w.oldestStays e = true ↔ (w'.tracker.gauge k).Current (w'.since k)) := by
    rintro k i now rfl
    cases hmoves k with
    | same _ hk => exact absurd rfl (hk i now)
    | after i now hl hi hg hs =>
      have hget : (w.since k)[i]? = some (w.since k)[i] := List.getElem?_eq_getElem hi
      rw [hg, hs, (hc k).after_iff (hI k) hget]
      simp [oldestStays, hget]
  constructor
  · intro hstays k
    cases hmoves k with
    | same _ _ hg hs =>
      rw [hg, hs]
      exact hc k
    | before now _ hg hs =>
      rw [hg, hs]
      exact (hc k).before (hI k)
    | after i now => exact (hend k i now rfl).mp hstays
  · intro hall
    cases e with
    | after k i now => exact (hend k i now rfl).mpr (hall k)
    | _ => rfl

/-- The report of every moment, for both kinds. -/
def Reports (w : Flight) : Prop :=
  ∀ now : Instant, w.last.mono ≤ now.mono → ∀ k,
    (w.tracker.snapshot now).blockedMillis k = milliseconds (w.oldestAge k now) ∧
    ((w.tracker.snapshot now).blockedMillis k = 0 ↔
      w.since k = [] ∨ milliseconds (w.oldestAge k now) = 0)

theorem Counted.reports_iff (hI : w.Counted) : w.Reports ↔ w.Current := by
  constructor
  · intro hrep k
    rw [← (hI k).blockedMillis_iff]
    intro now hnow
    rw [← Tracker.blockedMillis_snapshot]
    exact (hrep now hnow k).1
  · intro hc now hnow k
    have heq := ((hI k).blockedMillis_iff.mpr (hc k)) now hnow
    rw [Tracker.blockedMillis_snapshot, heq]
    refine ⟨rfl, .inr, ?_⟩
    rintro (hnil | hzero)
    · simp [hnil, milliseconds]
    · exact hzero

end Flight

/-- For every run, the report is right at every moment of it if and only if no call ends that has
been in flight for longer than the others of its kind, unless it is the only one. -/
theorem reports_iff_oldestStays {t : Instant} {es : List Flight.Event} {w : Flight}
    (hrun : run Flight.step (Flight.start t) es = some w) :
    (∀ pre v, pre <+: es → run Flight.step (Flight.start t) pre = some v → v.Reports) ↔
      Along Flight.step (fun w e => w.oldestStays e = true) (Flight.start t) es := by
  have hcounted : ∀ pre v, run Flight.step (Flight.start t) pre = some v → v.Counted := by
    intro pre v hv
    exact run_preserves (fun _ _ _ hI h => hI.step h) (Flight.Counted.start t) hv
  have hiff := along_iff_invariant (I := fun w => w.Counted ∧ w.Current)
    (P := fun w e => Flight.oldestStays w e = true)
    (fun w e w' hI h => by
      rw [Flight.current_step_iff hI.1 hI.2 h]
      exact ⟨fun hc => ⟨hI.1.step h, hc⟩, And.right⟩)
    ⟨Flight.Counted.start t, Flight.Current.start t⟩ hrun
  rw [hiff]
  constructor
  · intro hall pre v hpre hv
    have hc := hcounted pre v hv
    exact ⟨hc, hc.reports_iff.mp (hall pre v hpre hv)⟩
  · intro hall pre v hpre hv
    obtain ⟨hc, hcur⟩ := hall pre v hpre hv
    exact hc.reports_iff.mpr hcur

def youngerEnds : List Flight.Event :=
  -- a tool call ends while one that was started before it is in flight, and a model call runs
  -- beside them
  [.before .tool ⟨0, 0⟩, .before .model ⟨7, 200000000⟩, .before .tool ⟨0, 900000000⟩,
    .after .tool 1 ⟨0, 1000000000⟩]

theorem reports_youngerEnds : ∃ w, run Flight.step (Flight.start ⟨0, 0⟩) youngerEnds = some w ∧
    (w.tracker.snapshot ⟨0, 1100000000⟩).toolBlockedMillis = 1100 ∧
    (w.tracker.snapshot ⟨0, 1100000000⟩).modelBlockedMillis = 900 ∧ w.Reports := by
  have hrun := (rfl : run Flight.step (Flight.start ⟨0, 0⟩) youngerEnds = some _)
  have hes : Along Flight.step (fun w e => w.oldestStays e = true) (Flight.start ⟨0, 0⟩)
      youngerEnds := by decide
  exact ⟨_, hrun, by decide, by decide,
    (reports_iff_oldestStays hrun).mpr hes _ _ List.prefix_rfl hrun⟩

def olderEnds : List Flight.Event :=
  -- the call that was started first ends: its start stays the time of the gauge
  [.before .tool ⟨0, 0⟩, .before .tool ⟨0, 900000000⟩, .after .tool 0 ⟨0, 1000000000⟩]

theorem not_reports_olderEnds : ∃ w, run Flight.step (Flight.start ⟨0, 0⟩) olderEnds = some w ∧
    milliseconds (w.oldestAge .tool ⟨0, 1100000000⟩) = 200 ∧
    (w.tracker.snapshot ⟨0, 1100000000⟩).toolBlockedMillis = 1100 ∧ ¬w.Reports := by
  refine ⟨_, rfl, by decide, by decide, fun h => ?_⟩
  exact absurd (h ⟨0, 1100000000⟩ (by decide) .tool).1 (by decide)

end SubstratePoc.Actor
