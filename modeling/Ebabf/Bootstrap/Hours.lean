import Ebabf.Bootstrap.Status
import Ebabf.Py.Rounding

/-!
# Covered hours

`recording_status` rounds every gap to a tenth of a second, their sum and the span to a hundredth
of an hour, and subtracts. Covered time stays between nothing and the span exactly when no boundary
of the last rounding lies between the span and the rounded gaps.
-/

namespace Ebabf

open Py (Str str Exc Datetime RoundsWithin roundTenths roundHundredths)

namespace Db

/-- Every row was stamped by an aware clock. -/
def StampedAware (db : Db) : Prop :=
  ∀ row ∈ db.events.rows, ∃ d : Datetime, d.utcoffset ≠ none ∧ row.ingestedAt = d.isoformat

/-- From the first of the stored texts to the last. -/
def spanSeconds (db : Db) : ℚ :=
  match db.firstIngested.bind Datetime.fromisoformat,
    db.lastIngested.bind Datetime.fromisoformat with
  | some first, some last => secondsBetween first last
  | _, _ => 0

/-- The gaps over the threshold, each rounded to a tenth of a second. -/
def lostSeconds (minSeconds : WithTop ℚ) (db : Db) : ℚ :=
  ((((Sql.lag db.ingestionTimes).filterMap breakBetween).filter fun b => minSeconds < b.gap).map
    fun b => roundTenths b.gap).sum

theorem sum_findGaps (minSeconds : WithTop ℚ) (db : Db) :
    ((db.findGaps minSeconds).map GapReport.durationSeconds).sum = db.lostSeconds minSeconds := by
  unfold findGaps lostSeconds
  rw [List.map_map]
  exact ((List.mergeSort_perm _ _).map _).sum_eq

theorem lostSeconds_nonneg {minSeconds : WithTop ℚ} (h : 0 ≤ minSeconds) (db : Db) :
    0 ≤ db.lostSeconds minSeconds := by
  apply List.sum_nonneg
  intro lost hlost
  obtain ⟨b, hb, rfl⟩ := List.mem_map.mp hlost
  have hlong := of_decide_eq_true (List.mem_filter.mp hb).2
  apply Py.roundTenths_nonneg
  exact_mod_cast (h.trans_lt hlong).le

theorem isoformat_ne_nil (d : Datetime) : d.isoformat ≠ [] := by
  intro h
  have hread := d.fromisoformat_isoformat
  rw [h] at hread
  cases hread

theorem filter_isoformat (d : Datetime) :
    (some d.isoformat).filter (· ≠ []) = some d.isoformat := by
  simp only [Option.filter_some, isoformat_ne_nil d, ne_eq, not_false_eq_true, decide_true,
    ↓reduceIte]

theorem exists_first_last {db : Db} (hrows : db.events.rows ≠ []) (hstamped : db.StampedAware) :
    ∃ first last : Datetime, (first.utcoffset ≠ none ∧ last.utcoffset ≠ none) ∧
      db.firstIngested = some first.isoformat ∧ db.lastIngested = some last.isoformat := by
  have htimes : db.events.rows.map EventRow.ingestedAt ≠ [] := by simpa using hrows
  obtain ⟨firstText, hfirst⟩ := Option.isSome_iff_exists.mp (List.isSome_min?_of_ne_nil htimes)
  obtain ⟨lastText, hlast⟩ := Option.isSome_iff_exists.mp (List.isSome_max?_of_ne_nil htimes)
  obtain ⟨row, hrow, hrowText⟩ := List.mem_map.mp (List.min?_mem hfirst)
  obtain ⟨row', hrow', hrowText'⟩ := List.mem_map.mp (List.max?_mem hlast)
  obtain ⟨first, haware, hfirstText⟩ := hstamped row hrow
  obtain ⟨last, haware', hlastText⟩ := hstamped row' hrow'
  refine ⟨first, last, ⟨haware, haware'⟩, ?_, ?_⟩
  · rw [firstIngested, hfirst, ← hrowText, hfirstText]
  · rw [lastIngested, hlast, ← hrowText', hlastText]

theorem span_ok {db : Db} (hrows : db.events.rows ≠ []) (hstamped : db.StampedAware) :
    ∃ first last, db.span = .ok ⟨first, last, db.rowCount,
      some (roundHundredths (db.spanSeconds / 3600))⟩ := by
  obtain ⟨first, last, ⟨haware, haware'⟩, hfirst, hlast⟩ := exists_first_last hrows hstamped
  have hspan : db.spanSeconds = secondsBetween first last := by
    simp only [spanSeconds, hfirst, hlast, Option.bind_some, Datetime.fromisoformat_isoformat]
  have hsubtract := EventStore.subtract_aware haware' haware
  have hhours : spanHours db.firstIngested db.lastIngested =
      .ok (some (roundHundredths (db.spanSeconds / 3600))) := by
    rw [hfirst, hlast, spanHours, filter_isoformat, filter_isoformat, hspan]
    simp only [parseIso, Datetime.fromisoformat_isoformat, hsubtract, bind, Except.bind, pure,
      Except.pure]
  refine ⟨db.firstIngested, db.lastIngested, ?_⟩
  simp only [span, hhours, bind, Except.bind, pure, Except.pure]

end Db

namespace RecordingStatus

/-- Covered time and lost time are not negative and not longer than the span. -/
def Sound (status : RecordingStatus) : Prop :=
  ∃ covered effective, status.spanHours = some covered ∧ status.effectiveHours = some effective ∧
    (0 ≤ effective ∧ effective ≤ covered) ∧
      0 ≤ status.hoursLostToGaps ∧ status.hoursLostToGaps ≤ covered

end RecordingStatus

variable {path : Str} {free : ℕ} {gapThreshold : WithTop ℚ} {store : EventStore}

theorem recordingStatus_ok (hrows : store.db.events.rows ≠ []) (hstamped : store.db.StampedAware) :
    ∃ status, recordingStatus path (.ok free) gapThreshold store = .ok status ∧
      status.spanHours = some (roundHundredths (store.db.spanSeconds / 3600)) ∧
      status.hoursLostToGaps = roundHundredths (store.db.lostSeconds gapThreshold / 3600) ∧
      status.effectiveHours = some (roundHundredths (roundHundredths (store.db.spanSeconds / 3600) -
        roundHundredths (store.db.lostSeconds gapThreshold / 3600))) := by
  obtain ⟨first, last, hspan⟩ := Db.span_ok hrows hstamped
  unfold recordingStatus
  simp only [hspan, Db.sum_findGaps, bind, Except.bind, pure, Except.pure]
  exact ⟨_, rfl, rfl, rfl, rfl⟩

/-- The status is sound exactly when it shows no more lost hours than the span has. -/
theorem sound_iff_le (hrows : store.db.events.rows ≠ []) (hstamped : store.db.StampedAware)
    (hthreshold : 0 ≤ gapThreshold) :
    ∃ status, recordingStatus path (.ok free) gapThreshold store = .ok status ∧
      (status.Sound ↔ roundHundredths (store.db.lostSeconds gapThreshold / 3600) ≤
        roundHundredths (store.db.spanSeconds / 3600)) := by
  obtain ⟨status, hstatus, hspan, hlost, heffective⟩ :=
    @recordingStatus_ok path free gapThreshold store hrows hstamped
  refine ⟨status, hstatus, ?_⟩
  have hnonneg : 0 ≤ roundHundredths (store.db.lostSeconds gapThreshold / 3600) :=
    Py.roundHundredths_nonneg (div_nonneg (Db.lostSeconds_nonneg hthreshold _) (by norm_num))
  -- the difference of two numbers of hundredths needs no rounding
  obtain ⟨n, hn⟩ := Py.exists_roundHundredths (store.db.spanSeconds / 3600)
  obtain ⟨m, hm⟩ := Py.exists_roundHundredths (store.db.lostSeconds gapThreshold / 3600)
  have hdifference : roundHundredths ((n : ℚ) / 100 - m / 100) = n / 100 - m / 100 := by
    have h := Py.roundHundredths_of_hundredths (n - m)
    rwa [Int.cast_sub, sub_div] at h
  rw [hn, hm, hdifference] at heffective
  rw [hn] at hspan
  rw [hm] at hlost hnonneg
  rw [hm, hn]
  constructor
  · rintro ⟨covered, effective, hcovered, -, -, -, hle⟩
    rw [hspan] at hcovered
    rwa [hlost, ← Option.some.inj hcovered] at hle
  · intro hle
    refine ⟨_, _, hspan, heffective, ⟨sub_nonneg.mpr hle, sub_le_self _ hnonneg⟩, ?_, ?_⟩
    · rw [hlost]
      exact hnonneg
    · rw [hlost]
      exact hle

/-- Seconds that are shown as at most `n` hundredths of an hour: up to 18 seconds more, these
included when `n` is even. -/
def ShownWithin (n : ℤ) (seconds : ℚ) : Prop :=
  seconds < 36 * n + 18 ∨ seconds = 36 * n + 18 ∧ Even n

theorem shownWithin_iff (n : ℤ) (seconds : ℚ) :
    RoundsWithin n (100 * (seconds / 3600)) ↔ ShownWithin n seconds := by
  have hlt : 100 * (seconds / 3600) < n + 1 / 2 ↔ seconds < 36 * n + 18 := by
    constructor <;> intro h <;> linarith
  have heq : 100 * (seconds / 3600) = n + 1 / 2 ↔ seconds = 36 * n + 18 := by
    constructor <;> intro h <;> linarith
  rw [RoundsWithin, ShownWithin, hlt, heq]

/-- For every content that is not empty, the status is sound exactly when every number of
hundredths that the span does not exceed is one that the rounded gaps do not exceed. -/
theorem sound_iff (hrows : store.db.events.rows ≠ []) (hstamped : store.db.StampedAware)
    (hthreshold : 0 ≤ gapThreshold) :
    ∃ status, recordingStatus path (.ok free) gapThreshold store = .ok status ∧
      (status.Sound ↔ ∀ n, ShownWithin n store.db.spanSeconds →
        ShownWithin n (store.db.lostSeconds gapThreshold)) := by
  obtain ⟨status, hstatus, hsound⟩ :=
    @sound_iff_le path free gapThreshold store hrows hstamped hthreshold
  refine ⟨status, hstatus, ?_⟩
  rw [hsound, Py.roundHundredths_le_roundHundredths_iff]
  simp only [shownWithin_iff]

/-- 341.96 seconds after the epoch. -/
def almostSixMinutes : Datetime :=
  { year := 1970
    month := 1
    day := 1
    hour := 0
    minute := 5
    second := 41
    microsecond := 960000
    utcoffset := some 0
    date_valid := Datetime.firstOf1970_valid
    time_valid := by decide
    offset_valid := Datetime.utc_valid }

/-- Two events at these times. -/
def twoEvents (first last : Datetime) : EventStore :=
  .init { Db.empty with
    events := ⟨[{ EventStore.plainRow (str "EVT-1") with ingestedAt := first.isoformat },
      { EventStore.plainRow (str "EVT-2") with ingestedAt := last.isoformat }],
      show [str "EVT-1", str "EVT-2"].Nodup by decide⟩ } none none

theorem stampedAware_twoEvents {first last : Datetime} (haware : first.utcoffset ≠ none)
    (haware' : last.utcoffset ≠ none) : (twoEvents first last).db.StampedAware := by
  intro row hrow
  rcases List.mem_cons.mp hrow with rfl | hrow
  · exact ⟨first, haware, rfl⟩
  · rw [List.mem_singleton.mp hrow]
    exact ⟨last, haware', rfl⟩

section

variable {first last : Datetime} (hutc : first.utcoffset = some 0) (hutc' : last.utcoffset = some 0)
  (hlt : first.instant < last.instant)

include hutc hutc' hlt

theorem spanSeconds_twoEvents :
    (twoEvents first last).db.spanSeconds = secondsBetween first last := by
  have hle := (Datetime.isoformat_lt hutc hutc' hlt).le
  have hfirst : (twoEvents first last).db.firstIngested = some first.isoformat :=
    congrArg some (min_eq_left hle)
  have hlast : (twoEvents first last).db.lastIngested = some last.isoformat :=
    congrArg some (max_eq_right hle)
  simp only [Db.spanSeconds, hfirst, hlast, Option.bind_some, Datetime.fromisoformat_isoformat]

theorem lostSeconds_twoEvents {minSeconds : WithTop ℚ}
    (hlong : minSeconds < secondsBetween first last) :
    (twoEvents first last).db.lostSeconds minSeconds = roundTenths (secondsBetween first last) := by
  have hle := (Datetime.isoformat_lt hutc hutc' hlt).le
  have htimes : (twoEvents first last).db.ingestionTimes = [first.isoformat, last.isoformat] := by
    have hsorted : (twoEvents first last).db.events.orderBy EventRow.ingestedAt =
        (twoEvents first last).db.events.rows := by
      apply List.mergeSort_of_pairwise
      exact List.pairwise_pair.mpr (decide_eq_true (p := first.isoformat ≤ last.isoformat) hle)
    rw [Db.ingestionTimes, hsorted]
    rfl
  have hbreak : Db.breakBetween (first.isoformat, last.isoformat) =
      some ⟨first.isoformat, last.isoformat, secondsBetween first last⟩ := by
    rw [Db.breakBetween_isoformat, if_pos ⟨sqliteReads_utc hutc, sqliteReads_utc hutc'⟩]
  rw [Db.lostSeconds, htimes, Sql.lag, Sql.lag, List.filterMap_cons_some hbreak,
    List.filterMap_nil, List.filter_cons_of_pos (by simpa using hlong), List.filter_nil]
  exact List.sum_singleton

end

theorem secondsBetween_almostSixMinutes :
    secondsBetween Datetime.epoch almostSixMinutes = 8549 / 25 := by
  have hinstants : almostSixMinutes.instant - Datetime.epoch.instant = 341960000 := by decide
  rw [secondsBetween, hinstants]
  norm_num

/-- The gap is shown as 0.1 hours, the span it fills as 0.09. -/
theorem not_sound : ¬∀ (path : Str) (free : ℕ) (gapThreshold : WithTop ℚ) (store : EventStore),
    store.db.events.rows ≠ [] → store.db.StampedAware → 0 ≤ gapThreshold →
      ∃ status, recordingStatus path (.ok free) gapThreshold store = .ok status ∧ status.Sound := by
  intro h
  let store := twoEvents Datetime.epoch almostSixMinutes
  have hstamped : store.db.StampedAware := stampedAware_twoEvents (by decide) (by decide)
  have hseconds := secondsBetween_almostSixMinutes
  have hlost : store.db.lostSeconds (300 : ℚ) = 342 := by
    rw [lostSeconds_twoEvents rfl rfl (by decide), hseconds]
    · decide +kernel
    · rw [hseconds]
      exact_mod_cast (by norm_num : (300 : ℚ) < 8549 / 25)
  have hspan : store.db.spanSeconds = 8549 / 25 := by
    rw [spanSeconds_twoEvents rfl rfl (by decide), hseconds]
  obtain ⟨status, hstatus, hsound⟩ := h (str "ebabf_events.db") 0 (300 : ℚ) store
    (List.cons_ne_nil _ _) hstamped (by norm_num)
  obtain ⟨status', hstatus', hiff⟩ := @sound_iff_le (str "ebabf_events.db") 0 (300 : ℚ) store
    (List.cons_ne_nil _ _) hstamped (by norm_num)
  rw [hstatus] at hstatus'
  cases hstatus'
  have hle := hiff.mp hsound
  rw [hlost, hspan] at hle
  exact absurd hle (by decide +kernel)

/-- Ten minutes before the epoch. -/
def tenMinutesEarlier : Datetime :=
  { year := 1969
    month := 12
    day := 31
    hour := 23
    minute := 50
    second := 0
    microsecond := 0
    utcoffset := some 0
    date_valid := by decide
    time_valid := by decide
    offset_valid := Datetime.utc_valid }

/-- A gap of ten minutes is lost from a span of ten minutes. -/
theorem sound_iff_tenMinutes : ∃ status,
    recordingStatus (str "ebabf_events.db") (.ok 0) (300 : ℚ)
      (twoEvents tenMinutesEarlier Datetime.epoch) = .ok status ∧ status.Sound := by
  have hseconds : secondsBetween tenMinutesEarlier Datetime.epoch = 600 := by
    have hinstants : Datetime.epoch.instant - tenMinutesEarlier.instant = 600000000 := by decide
    rw [secondsBetween, hinstants]
    norm_num
  obtain ⟨status, hstatus, hsound⟩ := @sound_iff (str "ebabf_events.db") 0 (300 : ℚ)
    (twoEvents tenMinutesEarlier Datetime.epoch) (List.cons_ne_nil _ _)
    (stampedAware_twoEvents (by decide) (by decide)) (by norm_num)
  refine ⟨status, hstatus, hsound.mpr fun n hn => ?_⟩
  rw [spanSeconds_twoEvents rfl rfl (by decide), hseconds] at hn
  rw [lostSeconds_twoEvents rfl rfl (by decide), hseconds]
  · have hrounded : roundTenths 600 = 600 := by decide +kernel
    rwa [hrounded]
  · rw [hseconds]
    exact_mod_cast (by norm_num : (300 : ℚ) < 600)

end Ebabf
