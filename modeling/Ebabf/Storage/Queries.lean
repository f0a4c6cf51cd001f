import Ebabf.Storage.Bridge
import Ebabf.Storage.Outages
import Ebabf.Storage.RoundTrip

/-!
# What a query selects

`query` compares the texts of its bounds with the stored texts, so a bound counts by the clock it is
written in. Where every row was stamped in UTC, the rows between that clock's time and the instant
it stands for are the ones misjudged.
-/

namespace Ebabf

open Py (Str str Exc Datetime Encodes)
open Transition

/-- Every row was stamped by a clock in UTC. -/
def Db.StampedInUtc (db : Db) : Prop :=
  ∀ row ∈ db.events.rows, ∃ d : Datetime, d.utcoffset = some 0 ∧ row.ingestedAt = d.isoformat

/-- `ingested_at` as an instant. -/
def EventRow.ingestedInstant (row : EventRow) : ℤ :=
  (Datetime.fromisoformat row.ingestedAt).elim 0 Datetime.instant

theorem EventRow.ingestedInstant_eq {row : EventRow} {d : Datetime}
    (h : row.ingestedAt = d.isoformat) : row.ingestedInstant = d.instant := by
  rw [ingestedInstant, h, Datetime.fromisoformat_isoformat]
  rfl

/-- `ingested_at` as a datetime. -/
def EventRow.ingestedTime (row : EventRow) : Datetime :=
  (Datetime.fromisoformat row.ingestedAt).getD .epoch

namespace Db.StampedInUtc

variable {db : Db} {row row' : EventRow}

theorem ingestedTime (h : db.StampedInUtc) (hrow : row ∈ db.events.rows) :
    row.ingestedTime.utcoffset = some 0 ∧ row.ingestedAt = row.ingestedTime.isoformat ∧
      row.ingestedInstant = row.ingestedTime.instant := by
  obtain ⟨d, hutc, htext⟩ := h row hrow
  have htime : row.ingestedTime = d := by
    rw [EventRow.ingestedTime, htext, Datetime.fromisoformat_isoformat]
    rfl
  rw [htime]
  exact ⟨hutc, htext, EventRow.ingestedInstant_eq htext⟩

theorem ingestedAt_lt_iff (h : db.StampedInUtc) (hrow : row ∈ db.events.rows)
    (hrow' : row' ∈ db.events.rows) :
    row.ingestedAt < row'.ingestedAt ↔ row.ingestedInstant < row'.ingestedInstant := by
  obtain ⟨hutc, htext, hinstant⟩ := h.ingestedTime hrow
  obtain ⟨hutc', htext', hinstant'⟩ := h.ingestedTime hrow'
  rw [htext, htext', hinstant, hinstant']
  exact Datetime.isoformat_lt_iff hutc hutc'

theorem ingestedAt_le_iff (h : db.StampedInUtc) (hrow : row ∈ db.events.rows)
    (hrow' : row' ∈ db.events.rows) :
    row.ingestedAt ≤ row'.ingestedAt ↔ row.ingestedInstant ≤ row'.ingestedInstant := by
  rw [← not_lt, ← not_lt, h.ingestedAt_lt_iff hrow' hrow]

theorem ingestedAt_eq_iff (h : db.StampedInUtc) (hrow : row ∈ db.events.rows)
    (hrow' : row' ∈ db.events.rows) :
    row.ingestedAt = row'.ingestedAt ↔ row.ingestedInstant = row'.ingestedInstant := by
  rw [le_antisymm_iff, le_antisymm_iff, h.ingestedAt_le_iff hrow hrow',
    h.ingestedAt_le_iff hrow' hrow]

end Db.StampedInUtc

namespace EventQuery

/-- The filters that are no bounds. -/
def matchesColumns (q : EventQuery) (row : EventRow) : Bool :=
  q.tenantId.all (· == row.tenantId) && q.source.all (·.value == row.source) &&
    q.level.all (fun level => row.level == some level.value)

/-- The row matches every filter, and the bounds as instants. -/
def selects (q : EventQuery) (row : EventRow) : Bool :=
  q.matchesColumns row && q.since.all (fun since => since.instant ≤ row.ingestedInstant) &&
    q.until'.all (fun until' => row.ingestedInstant ≤ until'.instant)

/-- Both bounds are aware. -/
def Aware (q : EventQuery) : Prop :=
  (∀ since ∈ q.since, since.utcoffset ≠ none) ∧ ∀ until' ∈ q.until', until'.utcoffset ≠ none

/-- A time that the bounds admit. -/
def AdmitsInstant (q : EventQuery) (t : ℤ) : Prop :=
  (∀ since ∈ q.since, since.instant ≤ t) ∧ ∀ until' ∈ q.until', t ≤ until'.instant

/-- A time that the clocks of the bounds admit, whatever their offsets; the very time on the clock
of `since` only when that clock is in UTC. -/
def AdmitsClock (q : EventQuery) (t : ℤ) : Prop :=
  (∀ since ∈ q.since, since.wallClock < t ∨ since.wallClock = t ∧ since.utcoffset = some 0) ∧
    ∀ until' ∈ q.until', t ≤ until'.wallClock

/-- A row that the bounds judge differently by their clocks and as instants. -/
def Misjudges (q : EventQuery) (row : EventRow) : Prop :=
  q.matchesColumns row = true ∧ ¬(q.AdmitsClock row.ingestedInstant ↔
    q.AdmitsInstant row.ingestedInstant)

theorem selects_iff {q : EventQuery} {row : EventRow} : q.selects row = true ↔
    q.matchesColumns row = true ∧ q.AdmitsInstant row.ingestedInstant := by
  simp only [selects, AdmitsInstant, Bool.and_eq_true, Option.all_eq_true, decide_eq_true_eq,
    and_assoc]
  rfl

theorem matches_iff {q : EventQuery} {row : EventRow} {d : Datetime} (haware : q.Aware)
    (hutc : d.utcoffset = some 0) (hrow : row.ingestedAt = d.isoformat) :
    q.matches row = true ↔ q.matchesColumns row = true ∧ q.AdmitsClock row.ingestedInstant := by
  have hinstant : row.ingestedInstant = d.wallClock := by
    rw [EventRow.ingestedInstant_eq hrow, Datetime.instant, hutc, Option.getD_some, sub_zero]
  have hsince : (∀ since ∈ q.since, since.isoformat ≤ row.ingestedAt) ↔ ∀ since ∈ q.since,
      (since.wallClock : ℤ) < row.ingestedInstant ∨
        since.wallClock = row.ingestedInstant ∧ since.utcoffset = some 0 := by
    refine forall₂_congr fun since hmem => ?_
    rw [hrow, Datetime.isoformat_le_utc_iff (haware.1 since hmem) hutc, hinstant, Nat.cast_lt,
      Nat.cast_inj]
  have huntil : (∀ until' ∈ q.until', row.ingestedAt ≤ until'.isoformat) ↔
      ∀ until' ∈ q.until', row.ingestedInstant ≤ until'.wallClock := by
    refine forall₂_congr fun until' hmem => ?_
    rw [hrow, Datetime.utc_isoformat_le_iff (haware.2 until' hmem) hutc, hinstant, Nat.cast_le]
  have hmatches : q.matches row = true ↔ q.matchesColumns row = true ∧
      (∀ since ∈ q.since, since.isoformat ≤ row.ingestedAt) ∧
        ∀ until' ∈ q.until', row.ingestedAt ≤ until'.isoformat := by
    simp only [EventQuery.matches, Bool.and_eq_true, Option.all_eq_true, decide_eq_true_eq,
      and_assoc, matchesColumns]
    rfl
  rw [hmatches, hsince, huntil, AdmitsClock]

theorem misjudges_iff {q : EventQuery} {row : EventRow} {d : Datetime} (haware : q.Aware)
    (hutc : d.utcoffset = some 0) (hrow : row.ingestedAt = d.isoformat) :
    q.matches row ≠ q.selects row ↔ q.Misjudges row := by
  rw [ne_eq, Bool.eq_iff_iff, matches_iff haware hutc hrow, selects_iff, Misjudges]
  tauto

theorem not_misjudges_utc {q : EventQuery} (hsince : ∀ since ∈ q.since, since.utcoffset = some 0)
    (huntil : ∀ until' ∈ q.until', until'.utcoffset = some 0) (row : EventRow) :
    ¬q.Misjudges row := by
  have hclock : ∀ d : Datetime, d.utcoffset = some 0 → d.instant = d.wallClock := by
    intro d hd
    rw [Datetime.instant, hd, Option.getD_some, sub_zero]
  rintro ⟨-, hdiffer⟩
  apply hdiffer
  refine and_congr (forall₂_congr fun since hmem => ?_) (forall₂_congr fun until' hmem => ?_)
  · rw [hclock since (hsince since hmem), le_iff_lt_or_eq, and_iff_left (hsince since hmem)]
  · rw [hclock until' (huntil until' hmem)]

end EventQuery

namespace EventStore

/-- The stored rows, the latest instant first. -/
def latestFirst (s : EventStore) : List EventRow :=
  (s.db.events.orderBy fun row => toLex (row.ingestedInstant, row.eventId)).reverse

/-- The first rows that match every filter. -/
def expectedRows (q : EventQuery) (s : EventStore) : List EventRow :=
  (s.latestFirst.filter q.selects).take q.limit.toNat

/-- The query returns the events of the expected rows. -/
def Answers (limit : ℕ) (q : EventQuery) (s : EventStore) : Prop :=
  ∃ events, s.query limit q = .ok events ∧
    List.Forall₂ (fun row event => toEvent limit row = .ok event) (s.expectedRows q) events

/-- Every row that the bounds misjudge comes after as many rows as are asked for. -/
def MisjudgesBeyondLimit (q : EventQuery) (s : EventStore) : Prop :=
  ∀ before row after, s.latestFirst = before ++ row :: after → q.Misjudges row →
    q.limit ≤ (before.filter q.selects).length

variable {q : EventQuery} {s : EventStore}

/-- In UTC the order of the texts is the order of the instants. -/
theorem latestFirst_eq (h : s.db.StampedInUtc) :
    (s.db.events.orderBy fun row => toLex (row.ingestedAt, row.eventId)).reverse =
      s.latestFirst := by
  rw [latestFirst]
  congr 1
  apply Sql.Table.orderBy_congr
  · intro r hr r' hr' hle
    simpa only [Prod.Lex.toLex_le_toLex, h.ingestedAt_lt_iff hr hr',
      h.ingestedAt_eq_iff hr hr'] using hle
  · intro r _ r' _ heq
    exact (Prod.mk.inj (toLex.injective heq)).2

theorem queryRows_eq (h : s.db.StampedInUtc) (hlimit : 0 ≤ q.limit) :
    s.queryRows q = (s.latestFirst.filter q.matches).take q.limit.toNat := by
  unfold queryRows
  rw [latestFirst_eq h]
  exact if_neg (Int.not_lt.mpr hlimit)

theorem mem_latestFirst {row : EventRow} : row ∈ s.latestFirst ↔ row ∈ s.db.events.rows := by
  rw [latestFirst, List.mem_reverse, (s.db.events.orderBy_perm _).mem_iff]

theorem queryRows_eq_expectedRows_iff (h : s.db.StampedInUtc) (haware : q.Aware)
    (hlimit : 0 ≤ q.limit) :
    s.queryRows q = s.expectedRows q ↔ s.MisjudgesBeyondLimit q := by
  rw [queryRows_eq h hlimit, expectedRows, Sql.Table.take_filter_eq_iff, MisjudgesBeyondLimit]
  refine forall₃_congr fun before row after => forall_congr' fun hrows => ?_
  have hmem : row ∈ s.db.events.rows := by
    rw [← mem_latestFirst, hrows]
    exact List.mem_append_right _ (List.mem_cons_self ..)
  obtain ⟨d, hutc, hrow⟩ := h row hmem
  rw [EventQuery.misjudges_iff haware hutc hrow, Int.toNat_le]

theorem rows_unique {limit : ℕ} {rows rows' : List EventRow} {events : List Event}
    (hrows : rows ⊆ s.db.events.rows) (hrows' : rows' ⊆ s.db.events.rows)
    (h : List.Forall₂ (fun row event => toEvent limit row = .ok event) rows events)
    (h' : List.Forall₂ (fun row event => toEvent limit row = .ok event) rows' events) :
    rows = rows' := by
  induction h generalizing rows' with
  | nil =>
    cases h'
    rfl
  | @cons row event rows events hevent _ ih =>
    obtain _ | ⟨hevent', hrest'⟩ := h'
    rename_i row' rows'
    have hid := (eventId_of_toEvent hevent).symm.trans (eventId_of_toEvent hevent')
    obtain ⟨hmem, hrows⟩ := List.cons_subset.mp hrows
    obtain ⟨hmem', hrows'⟩ := List.cons_subset.mp hrows'
    rw [List.inj_on_of_nodup_map s.db.events.distinct hmem hmem' hid, ih hrows hrows' hrest']

theorem query_ok {limit : ℕ} {events : List Event} (h : s.query limit q = .ok events) :
    Sql.FitsInteger q.limit ∧ (∀ tenantId ∈ q.tenantId, Encodes tenantId) ∧
      List.Forall₂ (fun row event => toEvent limit row = .ok event) (s.queryRows q) events := by
  unfold query at h
  split_ifs at h with hbinds hfits
  refine ⟨hfits, ?_, Py.mapM_eq_ok_iff.mp h⟩
  intro tenantId hmem
  rw [Option.mem_def.mp hmem] at hbinds
  exact Py.encodeUtf8_isNone_iff.mp (Bool.not_eq_true _ ▸ hbinds)

theorem mem_rows_of_mem_select {p : EventRow → Bool} {n : ℕ} {row : EventRow}
    (h : row ∈ (s.latestFirst.filter p).take n) : row ∈ s.db.events.rows :=
  mem_latestFirst.mp (List.mem_of_mem_filter (List.mem_of_mem_take h))

theorem misjudgesBeyondLimit_of_answers {limit : ℕ} (h : s.db.StampedInUtc) (haware : q.Aware)
    (hlimit : 0 ≤ q.limit) (hanswers : s.Answers limit q) : s.MisjudgesBeyondLimit q := by
  obtain ⟨events, hquery, hevents⟩ := hanswers
  obtain ⟨-, -, hread⟩ := query_ok hquery
  rw [← queryRows_eq_expectedRows_iff h haware hlimit]
  refine rows_unique ?_ (fun row => mem_rows_of_mem_select) hread hevents
  rw [queryRows_eq h hlimit]
  exact fun row => mem_rows_of_mem_select

/-- On rows stamped in UTC, a query with aware bounds is filter, sort and limit exactly when SQLite
can bind its limit and its tenant, the rows to return can be read, and the rows that its bounds
misjudge lie beyond the limit. -/
theorem answers_iff {limit : ℕ} (h : s.db.StampedInUtc) (haware : q.Aware) (hlimit : 0 ≤ q.limit) :
    s.Answers limit q ↔ Sql.FitsInteger q.limit ∧ (∀ tenantId ∈ q.tenantId, Encodes tenantId) ∧
      (∀ row ∈ s.expectedRows q, ∃ event, toEvent limit row = .ok event) ∧
        s.MisjudgesBeyondLimit q := by
  constructor
  · intro hanswers
    have hbeyond := misjudgesBeyondLimit_of_answers h haware hlimit hanswers
    obtain ⟨events, hquery, hevents⟩ := hanswers
    obtain ⟨hfits, hencodes, -⟩ := query_ok hquery
    refine ⟨hfits, hencodes, fun row hrow => ?_, hbeyond⟩
    obtain ⟨event, -, hevent⟩ := Py.exists_mem_of_forall₂ hevents hrow
    exact ⟨event, hevent⟩
  · rintro ⟨hfits, hencodes, hreads, hbeyond⟩
    have hrows := (queryRows_eq_expectedRows_iff h haware hlimit).mpr hbeyond
    rw [← hrows] at hreads
    obtain ⟨events, hquery, hevents⟩ := query_of_readable hfits hencodes hreads
    rw [hrows] at hevents
    exact ⟨events, hquery, hevents⟩

/-- What a run of a clock in UTC leaves is stamped in UTC. -/
theorem stampedInUtc_run {ops : List Op} (h : ∀ d ∈ stamps ops, d.utcoffset = some 0)
    (maxEvents minFreeBytes : Option ℤ) :
    (run Op.step ops (init Db.empty maxEvents minFreeBytes)).db.StampedInUtc := by
  intro row hrow
  rcases mem_rows_run hrow with hold | ⟨d, hd, hstamp⟩
  · cases hold
  · exact ⟨d, h d hd, hstamp⟩

def epochStore : EventStore :=
  init { Db.empty with events := ⟨[storedRow (str "EVT-1")], List.nodup_singleton _⟩ } none none

theorem stampedInUtc_epochStore : epochStore.db.StampedInUtc := by
  intro row hrow
  rw [List.mem_singleton.mp hrow]
  exact ⟨Datetime.epoch, rfl, rfl⟩

theorem readable_epochStore : ∀ row ∈ epochStore.db.events.rows,
    ∃ event, toEvent 1 row = .ok event := by
  intro row hrow
  have hempty : Mapping.WellFormed ∅ := fun entry hentry => nomatch hentry
  have hprepare := prepare_plain (str "EVT-1") (by decide) none
  obtain ⟨read, hread, -⟩ := toEvent_of_legible ⟨hempty, hempty, hempty⟩ hprepare
    ⟨by decide, by decide, le_rfl, le_rfl, le_rfl⟩
  rw [List.mem_singleton.mp hrow]
  exact ⟨read, hread⟩

/-- The event is found from the epoch on. -/
theorem answers_since_epoch : epochStore.Answers 1 { since := some Datetime.epoch } :=
  (answers_iff stampedInUtc_epochStore ⟨by decide, by decide⟩ (by decide)).mpr
    ⟨by decide, by decide, fun row hrow => readable_epochStore row (mem_rows_of_mem_select hrow),
      fun _ row _ _ hmisjudges =>
        absurd hmisjudges (EventQuery.not_misjudges_utc (by decide) (by decide) row)⟩

/-- An hour before the epoch, on a clock two hours ahead. -/
def hourEarlierInEast : Datetime :=
  { year := 1970
    month := 1
    day := 1
    hour := 1
    minute := 0
    second := 0
    microsecond := 0
    utcoffset := some (2 * 3600 * 1000000)
    date_valid := Datetime.firstOf1970_valid
    time_valid := by decide
    offset_valid := by decide }

/-- The event is not found from an hour before the epoch on. -/
theorem not_answers_since_east : ¬∀ (q : EventQuery) (s : EventStore), s.db.StampedInUtc →
    q.Aware → 0 ≤ q.limit → Sql.FitsInteger q.limit → q.tenantId = none →
    (∀ row ∈ s.db.events.rows, ∃ event, toEvent 1 row = .ok event) → s.Answers 1 q := by
  intro h
  have haware : EventQuery.Aware { since := some hourEarlierInEast } := ⟨by decide, by decide⟩
  have hanswers := h { since := some hourEarlierInEast } epochStore stampedInUtc_epochStore haware
    (by decide) (by decide) rfl readable_epochStore
  have hbeyond :=
    misjudgesBeyondLimit_of_answers stampedInUtc_epochStore haware (by decide) hanswers
  have hlatest : epochStore.latestFirst = [storedRow (str "EVT-1")] := by
    rw [latestFirst, List.perm_singleton.mp (epochStore.db.events.orderBy_perm _)]
    rfl
  have hinstant : (storedRow (str "EVT-1")).ingestedInstant = Datetime.epoch.instant :=
    EventRow.ingestedInstant_eq rfl
  have hmisjudges : EventQuery.Misjudges { since := some hourEarlierInEast }
      (storedRow (str "EVT-1")) := by
    refine ⟨rfl, fun hsame => ?_⟩
    rw [hinstant] at hsame
    have hadmits : EventQuery.AdmitsInstant { since := some hourEarlierInEast }
        Datetime.epoch.instant := ⟨by decide, by decide⟩
    exact absurd ((hsame.mpr hadmits).1 hourEarlierInEast rfl) (by decide)
  exact absurd (hbeyond [] _ [] hlatest hmisjudges) (by decide)

end EventStore
end Ebabf
