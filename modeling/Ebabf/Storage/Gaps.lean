import Ebabf.Py.Isoformat
import Ebabf.Py.Statistics
import Ebabf.Sql.Window
import Ebabf.Storage.Runs
import Mathlib.Algebra.Order.Ring.WithTop

/-!
# Coverage gaps

What makes a gap is written twice: `detect_downtime` subtracts datetimes when recording starts,
and `find_gaps` subtracts Julian days between neighbouring rows. Differences of times are exact
here. The two agree except where a gap lasts exactly as long as the threshold.
-/

namespace Ebabf

open Py (Str str Exc Datetime endOfTime floatOfRatio)

/-- What SQLite reads: offsets of whole minutes up to 14:59, up to the end of the year 9999. -/
def sqliteReads (d : Datetime) : Bool :=
  d.utcoffset.all (fun offset => offset % 60000000 == 0 && offset.natAbs < 54000000000) &&
    d.instant < endOfTime

/-- Days since noon of the 24th of November, 4714 B.C. -/
def julianDay (d : Datetime) : ℚ := 3442849 / 2 + (d.instant : ℚ) / (Py.dayMicroseconds : ℚ)

/-- `julianday(time)`, of a text that `isoformat` wrote. -/
def julianday (time : Str) : Option ℚ := do
  let d ← Datetime.fromisoformat time
  if sqliteReads d then some (julianDay d) else none

/-- `(stop - start).total_seconds()` -/
def secondsBetween (start stop : Datetime) : ℚ := (stop.instant - start.instant : ℤ) / 1000000

/-- `stop - start` in seconds, for two naive datetimes or two aware ones. -/
def subtract (stop start : Datetime) : Except Exc ℚ :=
  if stop.utcoffset.isSome = start.utcoffset.isSome then .ok (secondsBetween start stop)
  else .error ⟨.typeError, str "can't subtract offset-naive and offset-aware datetimes"⟩

namespace Db

/-- `SELECT ingested_at FROM events ORDER BY ingested_at` -/
def ingestionTimes (db : Db) : List Str :=
  (db.events.orderBy EventRow.ingestedAt).map EventRow.ingestedAt

/-- `SELECT MAX(ingested_at) FROM events` -/
def lastIngested (db : Db) : Option Str := (db.events.rows.map EventRow.ingestedAt).max?

structure Break where
  prevAt : Str
  ingestedAt : Str
  gap : ℚ

/-- A row with the one before it, if both times are readable. -/
def breakBetween (times : Str × Str) : Option Break := do
  let start ← julianday times.1
  let stop ← julianday times.2
  return ⟨times.1, times.2, (stop - start) * 86400⟩

structure GapReport where
  start : Str
  stop : Str
  durationSeconds : ℚ

def Break.report (b : Break) : GapReport :=
  { start := b.prevAt
    stop := b.ingestedAt
    durationSeconds := Py.roundTenths b.gap }

/-- `find_gaps` -/
def findGaps (minSeconds : WithTop ℚ) (db : Db) : List GapReport :=
  let breaks := (Sql.lag db.ingestionTimes).filterMap breakBetween
  let long := breaks.filter fun b => minSeconds < b.gap
  (long.mergeSort fun b c => decide (c.gap ≤ b.gap)).map Break.report

end Db

namespace EventStore

/-- The two readings of the clock: the time of the check, and the stamp of the record. -/
structure DowntimeEnv where
  now : Datetime
  detectedAt : Datetime

/-- `f"no events recorded for {gap / 3600:.1f} hours before this start"` -/
def downtimeDetail (gap : ℚ) : Str :=
  str "no events recorded for " ++
    Py.fixedTenths (.div .binary64 (floatOfRatio gap).toModel.unpack (Py.floatOfInt 3600)) ++
    str " hours before this start"

/-- `detect_downtime` -/
def detectDowntime (threshold : WithTop ℚ) (env : DowntimeEnv) (s : EventStore) :
    Except Exc (Option ℚ) × EventStore :=
  match s.db.lastIngested with
  | none => (.ok none, s)
  | some last =>
    match Datetime.fromisoformat last with
    | none => (.error (Py.valueError (str "Invalid isoformat string: '" ++ last ++ str "'")), s)
    | some start =>
      match subtract env.now start with
      | .error e => (.error e, s)
      | .ok gap =>
        if gap < threshold then (.ok none, s)
        else
          (.ok (some gap), s.recordGapLocked
            { detectedAt := env.detectedAt.isoformat
              kind := str "agent_downtime"
              gapStart := some last
              gapEnd := some env.now.isoformat
              durationSeconds := some (floatOfRatio gap)
              detail := downtimeDetail gap })

/-- The check left one more record. -/
def RecordsOutage (threshold : WithTop ℚ) (env : DowntimeEnv) (s : EventStore) : Prop :=
  ∃ gap, (s.detectDowntime threshold env).2.db.coverageGaps = s.db.coverageGaps ++ [gap]

theorem subtract_aware {stop start : Datetime} (hstop : stop.utcoffset ≠ none)
    (hstart : start.utcoffset ≠ none) : subtract stop start = .ok (secondsBetween start stop) := by
  rw [subtract, if_pos]
  rw [Option.isSome_iff_ne_none.mpr hstop, Option.isSome_iff_ne_none.mpr hstart]

/-- The record of an outage from one time to another. -/
def downtimeGap (start : Datetime) (env : DowntimeEnv) : CoverageGap :=
  { detectedAt := env.detectedAt.isoformat
    kind := str "agent_downtime"
    gapStart := some start.isoformat
    gapEnd := some env.now.isoformat
    durationSeconds := some (floatOfRatio (secondsBetween start env.now))
    detail := downtimeDetail (secondsBetween start env.now) }

theorem detectDowntime_eq {threshold : WithTop ℚ} {env : DowntimeEnv} {s : EventStore}
    {t : Datetime} (hlast : s.db.lastIngested = some t.isoformat) (ht : t.utcoffset ≠ none)
    (hnow : env.now.utcoffset ≠ none) : s.detectDowntime threshold env =
      if ((secondsBetween t env.now : ℚ) : WithTop ℚ) < threshold then (.ok none, s)
      else (.ok (some (secondsBetween t env.now)), s.recordGapLocked (downtimeGap t env)) := by
  unfold detectDowntime
  rw [hlast]
  dsimp only
  rw [Datetime.fromisoformat_isoformat]
  dsimp only
  rw [subtract_aware hnow ht]
  rfl

theorem recordsOutage_iff {threshold : WithTop ℚ} {env : DowntimeEnv} {s : EventStore}
    {t : Datetime} (hlast : s.db.lastIngested = some t.isoformat) (ht : t.utcoffset ≠ none)
    (hnow : env.now.utcoffset ≠ none) :
    s.RecordsOutage threshold env ↔ threshold ≤ secondsBetween t env.now := by
  unfold RecordsOutage
  rw [detectDowntime_eq hlast ht hnow, ← not_lt]
  split_ifs with hshort
  · simp [hshort]
  · simp [hshort, recordGapLocked]

end EventStore

theorem julianday_isoformat (d : Datetime) : julianday d.isoformat =
    if sqliteReads d then some (julianDay d) else none := by
  rw [julianday, Datetime.fromisoformat_isoformat]
  rfl

theorem julianDay_sub (start stop : Datetime) :
    (julianDay stop - julianDay start) * 86400 = secondsBetween start stop := by
  unfold julianDay secondsBetween Py.dayMicroseconds
  push_cast
  ring

namespace Db

/-- `find_gaps` lists the break from one time to another. -/
def ReportsBreak (minSeconds : WithTop ℚ) (start stop : Datetime) (db : Db) : Prop :=
  ∃ gap ∈ db.findGaps minSeconds, gap.start = start.isoformat ∧ gap.stop = stop.isoformat

theorem breakBetween_isoformat (start stop : Datetime) :
    breakBetween (start.isoformat, stop.isoformat) =
      if sqliteReads start ∧ sqliteReads stop then
        some ⟨start.isoformat, stop.isoformat, secondsBetween start stop⟩
      else none := by
  unfold breakBetween
  rw [julianday_isoformat, julianday_isoformat]
  by_cases hstart : sqliteReads start = true
  · by_cases hstop : sqliteReads stop = true
    · rw [if_pos hstart, if_pos hstop, if_pos ⟨hstart, hstop⟩, ← julianDay_sub]
      rfl
    · have hboth : ¬(sqliteReads start ∧ sqliteReads stop) := fun h => hstop h.2
      rw [if_pos hstart, if_neg hstop, if_neg hboth]
      rfl
  · have hboth : ¬(sqliteReads start ∧ sqliteReads stop) := fun h => hstart h.1
    rw [if_neg hstart, if_neg hboth]
    rfl

theorem times_of_breakBetween {times : Str × Str} {b : Break} (h : breakBetween times = some b) :
    (b.prevAt, b.ingestedAt) = times := by
  unfold breakBetween at h
  cases hstart : julianday times.1 with
  | none => simp [hstart] at h
  | some start =>
    cases hstop : julianday times.2 with
    | none => simp [hstart, hstop] at h
    | some stop =>
      simp only [hstart, hstop, Option.bind_eq_bind, Option.bind_some, Option.pure_def,
        Option.some.injEq] at h
      rw [← h]

theorem mem_findGaps {minSeconds : WithTop ℚ} {db : Db} {gap : GapReport} :
    gap ∈ db.findGaps minSeconds ↔ ∃ b, (∃ times ∈ Sql.lag db.ingestionTimes,
      breakBetween times = some b) ∧ minSeconds < b.gap ∧ b.report = gap := by
  unfold findGaps
  simp only [List.mem_map, List.mem_mergeSort, List.mem_filter, List.mem_filterMap,
    decide_eq_true_eq, and_assoc]

theorem reportsBreak_iff {minSeconds : WithTop ℚ} {start stop : Datetime} {db : Db} :
    db.ReportsBreak minSeconds start stop ↔
      (start.isoformat, stop.isoformat) ∈ Sql.lag db.ingestionTimes ∧
        (sqliteReads start ∧ sqliteReads stop) ∧ minSeconds < secondsBetween start stop := by
  have hbetween := breakBetween_isoformat start stop
  constructor
  · intro h
    obtain ⟨gap, hgap, hstart, hstop⟩ := h
    obtain ⟨b, ⟨times, htimes, hb⟩, hlong, hreport⟩ := mem_findGaps.mp hgap
    have heq := times_of_breakBetween hb
    have hb₁ : b.prevAt = start.isoformat := by rw [← hstart, ← hreport]; rfl
    have hb₂ : b.ingestedAt = stop.isoformat := by rw [← hstop, ← hreport]; rfl
    rw [hb₁, hb₂] at heq
    rw [← heq] at htimes hb
    rw [hbetween] at hb
    split_ifs at hb with hreads
    rw [← Option.some.inj hb] at hlong
    exact ⟨htimes, hreads, hlong⟩
  · intro h
    obtain ⟨htimes, hreads, hlong⟩ := h
    rw [if_pos hreads] at hbetween
    refine ⟨Break.report ⟨start.isoformat, stop.isoformat, secondsBetween start stop⟩, ?_, rfl, rfl⟩
    exact mem_findGaps.mpr ⟨_, ⟨_, htimes, hbetween⟩, hlong, rfl⟩

theorem mem_ingestionTimes {db : Db} {time : Str} :
    time ∈ db.ingestionTimes ↔ ∃ row ∈ db.events.rows, row.ingestedAt = time := by
  unfold ingestionTimes
  simp only [List.mem_map, (db.events.orderBy_perm EventRow.ingestedAt).mem_iff]

theorem ingestionTimes_sorted (db : Db) : db.ingestionTimes.Pairwise (· ≤ ·) :=
  List.pairwise_map.mpr (db.events.orderBy_sorted EventRow.ingestedAt)

theorem mem_lastIngested {db : Db} {last : Str} (h : db.lastIngested = some last) :
    ∃ row ∈ db.events.rows, row.ingestedAt = last := List.mem_map.mp (List.max?_mem h)

theorem le_lastIngested {db : Db} {last : Str} (h : db.lastIngested = some last) :
    ∀ row ∈ db.events.rows, row.ingestedAt ≤ last := by
  intro row hrow
  exact (List.max?_eq_some_iff.mp h).2 _ (List.mem_map_of_mem hrow)

end Db

/-- Two times in the order of their texts, both readable for SQLite. -/
def ReadableInOrder (t now : Datetime) : Prop :=
  t.isoformat < now.isoformat ∧ sqliteReads t ∧ sqliteReads now

theorem sqliteReads_utc {d : Datetime} (h : d.utcoffset = some 0) : sqliteReads d = true := by
  obtain ⟨hyear, hyear', hmonth, hmonth', -, hday⟩ := d.date_valid
  obtain ⟨hhour, hminute, hsecond, hmicrosecond⟩ := d.time_valid
  have hdays := Py.toordinal_le hyear (show d.year < 10000 by omega) hmonth hmonth' hday
  have hlt : d.instant < endOfTime := by
    unfold Datetime.instant Datetime.wallClock endOfTime Py.dayMicroseconds
    have hend : Py.toordinal 10000 1 1 = Py.daysBeforeYear 10000 + 1 := rfl
    rw [h, hend, Option.getD_some]
    omega
  rw [sqliteReads, h, Bool.and_eq_true]
  exact ⟨rfl, decide_eq_true hlt⟩

theorem readableInOrder_utc {t now : Datetime} (ht : t.utcoffset = some 0)
    (hnow : now.utcoffset = some 0) (h : t.instant < now.instant) : ReadableInOrder t now :=
  ⟨Datetime.isoformat_lt ht hnow h, sqliteReads_utc ht, sqliteReads_utc hnow⟩

namespace EventStore

/-- An outage is recorded at `now` exactly when the break up to `now` is listed afterwards. -/
def GapsAgree (threshold : WithTop ℚ) (t : Datetime) (env : DowntimeEnv) (s : EventStore)
    (db : Db) : Prop :=
  s.RecordsOutage threshold env ↔ db.ReportsBreak threshold t env.now

variable {s s' : EventStore} {event stamped : Event} {env : AppendEnv} {t : Datetime}

/-- Nothing is stored between the last time before an append and the time of the append. -/
theorem lag_append (hlast : s.db.lastIngested = some t.isoformat)
    (happend : s.append event env = (.ok stamped, s'))
    (hstart : t.isoformat ∈ s'.db.ingestionTimes)
    (hstop : env.stamp.isoformat ∈ s'.db.ingestionTimes) :
    (t.isoformat, env.stamp.isoformat) ∈ Sql.lag s'.db.ingestionTimes ∨
      env.stamp.isoformat ≤ t.isoformat := by
  obtain ⟨row, hprepare, hsubset⟩ := append_ok happend
  rcases lt_or_ge t.isoformat env.stamp.isoformat with hlt | hge
  · left
    apply (Sql.mem_lag_iff s'.db.ingestionTimes_sorted hlt).mpr
    refine ⟨hstart, hstop, ?_⟩
    intro time htime
    obtain ⟨r, hr, rfl⟩ := Db.mem_ingestionTimes.mp htime
    rcases List.mem_append.mp (hsubset hr) with hold | hnew
    · exact .inl (Db.le_lastIngested hlast r hold)
    · right
      rw [List.mem_singleton.mp hnew, (ingestedAt_of_prepare hprepare).2]
  · exact .inr hge

theorem reportsBreak_append_iff {minSeconds : WithTop ℚ}
    (hlast : s.db.lastIngested = some t.isoformat)
    (happend : s.append event env = (.ok stamped, s'))
    (hstart : t.isoformat ∈ s'.db.ingestionTimes)
    (hstop : env.stamp.isoformat ∈ s'.db.ingestionTimes) (hne : t ≠ env.stamp) :
    s'.db.ReportsBreak minSeconds t env.stamp ↔
      ReadableInOrder t env.stamp ∧ minSeconds < secondsBetween t env.stamp := by
  rw [Db.reportsBreak_iff]
  constructor
  · intro h
    obtain ⟨hlag, hreads, hlong⟩ := h
    have hle := Sql.lag_le s'.db.ingestionTimes_sorted hlag
    have hneq : t.isoformat ≠ env.stamp.isoformat := fun heq => hne (Datetime.isoformat_injective heq)
    exact ⟨⟨lt_of_le_of_ne hle hneq, hreads⟩, hlong⟩
  · intro h
    obtain ⟨⟨hlt, hreads⟩, hlong⟩ := h
    have hlag := (lag_append hlast happend hstart hstop).resolve_right hlt.not_ge
    exact ⟨hlag, hreads, hlong⟩

theorem recordsOutage_append_iff {threshold : WithTop ℚ} {detectedAt : Datetime}
    (hlast : s.db.lastIngested = some t.isoformat) (ht : t.utcoffset ≠ none)
    (happend : s.append event env = (.ok stamped, s')) :
    s.RecordsOutage threshold ⟨env.stamp, detectedAt⟩ ↔
      threshold ≤ secondsBetween t env.stamp := by
  obtain ⟨row, hprepare, -⟩ := append_ok happend
  exact recordsOutage_iff hlast ht (ingestedAt_of_prepare hprepare).1

/-- The two agree on the gap before an append, whose ends are still stored, exactly when it is
shorter than the threshold, or longer and readable. For a clock in UTC this leaves out the gap
that is as long as the threshold. -/
theorem gapsAgree_iff (threshold : WithTop ℚ) (detectedAt : Datetime)
    (hlast : s.db.lastIngested = some t.isoformat) (ht : t.utcoffset ≠ none)
    (hlater : t.instant < env.stamp.instant) (happend : s.append event env = (.ok stamped, s'))
    (hstart : t.isoformat ∈ s'.db.ingestionTimes)
    (hstop : env.stamp.isoformat ∈ s'.db.ingestionTimes) :
    (s.GapsAgree threshold t ⟨env.stamp, detectedAt⟩ s'.db ↔
      secondsBetween t env.stamp < threshold ∨
        threshold < secondsBetween t env.stamp ∧ ReadableInOrder t env.stamp) ∧
    (t.utcoffset = some 0 → env.stamp.utcoffset = some 0 →
      (s.GapsAgree threshold t ⟨env.stamp, detectedAt⟩ s'.db ↔
        secondsBetween t env.stamp ≠ threshold)) := by
  have hne : t ≠ env.stamp := by
    intro heq
    rw [heq] at hlater
    exact lt_irrefl _ hlater
  have hagree : s.GapsAgree threshold t ⟨env.stamp, detectedAt⟩ s'.db ↔
      secondsBetween t env.stamp < threshold ∨
        threshold < secondsBetween t env.stamp ∧ ReadableInOrder t env.stamp := by
    rw [GapsAgree, recordsOutage_append_iff hlast ht happend,
      reportsBreak_append_iff hlast happend hstart hstop hne]
    constructor
    · intro h
      rcases lt_or_ge ((secondsBetween t env.stamp : ℚ) : WithTop ℚ) threshold with hlt | hge
      · exact .inl hlt
      · obtain ⟨hreads, hlong⟩ := h.mp hge
        exact .inr ⟨hlong, hreads⟩
    · intro h
      rcases h with hlt | ⟨hlong, hreads⟩
      · constructor
        · intro hge
          exact absurd hlt hge.not_gt
        · intro h
          exact absurd hlt h.2.not_gt
      · exact ⟨fun _ => ⟨hreads, hlong⟩, fun _ => hlong.le⟩
  refine ⟨hagree, fun hutc hutc' => ?_⟩
  have hreads := readableInOrder_utc hutc hutc' hlater
  rw [hagree]
  constructor
  · intro h
    rcases h with hlt | hlong
    · exact hlt.ne
    · exact hlong.1.ne'
  · intro h
    rcases lt_or_gt_of_ne h with hlt | hlong
    · exact .inl hlt
    · exact .inr ⟨hlong, hreads⟩

/-- The time of a stored event. -/
def noon : Datetime :=
  { year := 2026
    month := 3
    day := 1
    hour := 12
    minute := 0
    second := 0
    microsecond := 0
    utcoffset := some 0
    date_valid := by decide
    time_valid := by decide
    offset_valid := Datetime.utc_valid }

/-- 675 seconds later: a difference SQLite's `julianday` gives without rounding. -/
def afterNoon : Datetime :=
  { noon with
    minute := 11
    second := 15
    time_valid := by decide }

def afterNoonEnv : AppendEnv := { envWithFree none with stamp := afterNoon }

/-- A store whose one row was ingested at noon. -/
def quietStore : EventStore :=
  init { Db.empty with
    events := ⟨[{ plainRow (str "EVT-1") with ingestedAt := noon.isoformat }],
      List.nodup_singleton _⟩ } none none

theorem quietStore_append : ∃ stamped s',
    quietStore.append (.plain (str "EVT-2") (by decide)) afterNoonEnv = (.ok stamped, s') ∧
      noon.isoformat ∈ s'.db.ingestionTimes ∧ afterNoon.isoformat ∈ s'.db.ingestionTimes := by
  refine ⟨_, _, rfl, Db.mem_ingestionTimes.mpr ⟨_, List.mem_cons_self, rfl⟩,
    Db.mem_ingestionTimes.mpr ⟨_, List.mem_cons_of_mem _ List.mem_cons_self, rfl⟩⟩

theorem secondsBetween_noon : ((secondsBetween noon afterNoon : ℚ) : WithTop ℚ) = (675 : ℚ) := by
  have hinstants : afterNoon.instant - noon.instant = 675000000 := by decide
  rw [secondsBetween, hinstants]
  norm_num

/-- A break of exactly 675 seconds is recorded by the one and not listed by the other. -/
theorem not_gapsAgree : ¬∀ (threshold : WithTop ℚ) (detectedAt t : Datetime) (s s' : EventStore)
    (event stamped : Event) (env : AppendEnv), 0 < threshold →
      s.db.lastIngested = some t.isoformat → t.utcoffset = some 0 →
      env.stamp.utcoffset = some 0 → t.instant < env.stamp.instant →
      s.append event env = (.ok stamped, s') → t.isoformat ∈ s'.db.ingestionTimes →
      env.stamp.isoformat ∈ s'.db.ingestionTimes →
      s.GapsAgree threshold t ⟨env.stamp, detectedAt⟩ s'.db := by
  intro h
  obtain ⟨stamped, s', happend, hstart, hstop⟩ := quietStore_append
  have hagree := h (675 : ℚ) afterNoon noon quietStore s' _ stamped afterNoonEnv
    (by norm_num) rfl rfl rfl (by decide) happend hstart hstop
  have hrecords : quietStore.RecordsOutage (675 : ℚ) ⟨afterNoonEnv.stamp, afterNoon⟩ :=
    (recordsOutage_append_iff rfl (by decide) happend).mpr secondsBetween_noon.ge
  have hlisted := (reportsBreak_append_iff rfl happend hstart hstop (by decide)).mp
    (hagree.mp hrecords)
  exact absurd hlisted.2 secondsBetween_noon.not_gt

/-- Against a threshold of ten minutes both see the break. -/
theorem gapsAgree_iff_quiet : ∃ (stamped : Event) (s' : EventStore),
    quietStore.append (.plain (str "EVT-2") (by decide)) afterNoonEnv = (.ok stamped, s') ∧
      quietStore.GapsAgree (600 : ℚ) noon ⟨afterNoon, afterNoon⟩ s'.db := by
  obtain ⟨stamped, s', happend, hstart, hstop⟩ := quietStore_append
  have hgap : ((secondsBetween noon afterNoon : ℚ) : WithTop ℚ) ≠ (600 : ℚ) := by
    rw [secondsBetween_noon]
    norm_num
  have hagree := gapsAgree_iff (600 : ℚ) afterNoon rfl (by decide) (by decide) happend hstart hstop
  exact ⟨stamped, s', happend, (hagree.2 rfl rfl).mpr hgap⟩

end EventStore
end Ebabf
