import Ebabf.Storage.Gaps

/-!
# Asking what has been recorded

`recording_status` reads the database and the handle it is given. A halt is kept in the memory of
the handle that met it; the status command opens a handle of its own.
-/

namespace Ebabf

open Py (Str str Exc Datetime)
open Transition (run Always Visits)

/-- `datetime.fromisoformat(text)` -/
def parseIso (text : Str) : Except Exc Datetime :=
  match Datetime.fromisoformat text with
  | some d => .ok d
  | none => .error (Py.valueError (str "Invalid isoformat string: '" ++ text ++ str "'"))

namespace Db

/-- `SELECT MIN(ingested_at) FROM events` -/
def firstIngested (db : Db) : Option Str := (db.events.rows.map EventRow.ingestedAt).min?

structure Span where
  first : Option Str
  last : Option Str
  count : ℕ
  spanHours : Option ℚ

/-- `if first and last: …` -/
def spanHours (first last : Option Str) : Except Exc (Option ℚ) :=
  match first.filter (· ≠ []), last.filter (· ≠ []) with
  | some first, some last => do
    let stop ← parseIso last
    let start ← parseIso first
    let seconds ← subtract stop start
    return some (Py.roundHundredths (seconds / 3600))
  | _, _ => .ok none

/-- `span` -/
def span (db : Db) : Except Exc Span := do
  let hours ← spanHours db.firstIngested db.lastIngested
  return {
    first := db.firstIngested
    last := db.lastIngested
    count := db.rowCount
    spanHours := hours }

/-- `coverage_gap_log(limit=…)`: the records with their ids, the newest first. -/
def coverageGapLog (limit : ℕ) (db : Db) : List (CoverageGap × ℕ) :=
  (db.coverageGaps.zipIdx 1).reverse.take limit

end Db

structure RecordingStatus where
  database : Str
  events : ℕ
  firstEvent : Option Str
  lastEvent : Option Str
  spanHours : Option ℚ
  effectiveHours : Option ℚ
  gapThresholdSeconds : WithTop ℚ
  gaps : List Db.GapReport
  gapCount : ℕ
  hoursLostToGaps : ℚ
  recordedGaps : List (CoverageGap × ℕ)
  eventsDroppedToOverflow : ℕ
  freeBytes : ℕ
  maxEvents : Option ℤ
  halted : Bool
  haltedReason : Option Str

/-- `recording_status(store, gap_threshold=…)`, with the path of the database and the answer of the
filesystem about its free space. -/
def recordingStatus (path : Str) (free : Except Exc ℕ) (gapThreshold : WithTop ℚ)
    (store : EventStore) : Except Exc RecordingStatus := do
  let span ← store.db.span
  let gaps := store.db.findGaps gapThreshold
  let lostHours := Py.roundHundredths ((gaps.map Db.GapReport.durationSeconds).sum / 3600)
  let freeBytes ← free
  return {
    database := path
    events := span.count
    firstEvent := span.first
    lastEvent := span.last
    spanHours := span.spanHours
    effectiveHours := span.spanHours.map fun covered => Py.roundHundredths (covered - lostHours)
    gapThresholdSeconds := gapThreshold
    gaps := gaps
    gapCount := gaps.length
    hoursLostToGaps := lostHours
    recordedGaps := store.db.coverageGapLog 20
    eventsDroppedToOverflow := store.db.droppedEventCount
    freeBytes := freeBytes
    maxEvents := store.maxEvents
    halted := store.isHalted
    haltedReason := store.haltedReason }

/-- What one `status` command brings along: the path, the limits its handle is opened with, the
free space it reads and its threshold. -/
structure StatusCommand where
  path : Str
  maxEvents : Option ℤ
  minFreeBytes : Option ℤ
  free : Except Exc ℕ
  gapThreshold : WithTop ℚ

/-- `_status_command` up to the printing, on a database that exists: it opens a handle and asks. -/
def StatusCommand.status (command : StatusCommand) (db : Db) : Except Exc RecordingStatus :=
  recordingStatus command.path command.free command.gapThreshold
    (.init db command.maxEvents command.minFreeBytes)

theorem halted_of_recordingStatus {path : Str} {free : Except Exc ℕ} {gapThreshold : WithTop ℚ}
    {store : EventStore} {status : RecordingStatus}
    (h : recordingStatus path free gapThreshold store = .ok status) :
    status.halted = store.isHalted ∧ status.haltedReason = store.haltedReason := by
  unfold recordingStatus at h
  obtain ⟨span, -, h⟩ := Py.bind_eq_ok.mp h
  obtain ⟨freeBytes, -, h⟩ := Py.bind_eq_ok.mp h
  cases h
  exact ⟨rfl, rfl⟩

namespace StatusCommand

/-- The command says that recording has halted, and why. -/
def ReportsHalt (command : StatusCommand) (db : Db) (reason : Str) : Prop :=
  ∃ status, command.status db = .ok status ∧ status.halted = true ∧
    status.haltedReason = some reason

/-- The command reports a halt exactly when the recording handle has one. -/
def ShowsHalt (command : StatusCommand) (s : EventStore) : Prop :=
  ∀ reason, command.ReportsHalt s.db reason ↔ s.haltedReason = some reason

theorem not_reportsHalt (command : StatusCommand) (db : Db) (reason : Str) :
    ¬command.ReportsHalt db reason := by
  intro h
  obtain ⟨status, hstatus, hhalted, -⟩ := h
  rw [(halted_of_recordingStatus hstatus).1] at hhalted
  exact Bool.false_ne_true hhalted

theorem showsHalt_iff {command : StatusCommand} {s : EventStore} :
    command.ShowsHalt s ↔ s.haltedReason = none := by
  constructor
  · intro h
    cases hreason : s.haltedReason with
    | none => rfl
    | some reason => exact absurd ((h reason).mpr hreason) (command.not_reportsHalt s.db reason)
  · intro h reason
    rw [h]
    constructor
    · intro hreport
      exact absurd hreport (command.not_reportsHalt s.db reason)
    · intro hreason
      cases hreason

end StatusCommand

namespace EventStore

/-- A recording handle goes on recording exactly when no row it takes meets a closed gate. -/
theorem haltedReason_step_iff (op : Op) (s : EventStore) (hs : s.haltedReason = none) :
    (op.step s).haltedReason = none ↔ s.MeetsOpenGate op := by
  cases op with
  | reopen maxEvents minFreeBytes => exact iff_of_true rfl trivial
  | append event env =>
    change (s.append event env).2.haltedReason = none ↔ (s.Accepts event env → s.GateOpen env)
    rcases append_cases event env s with h | h | h
    · obtain ⟨e, -, happend⟩ := append_of_not_accepts h
      rw [happend]
      exact iff_of_true hs fun haccepts => absurd haccepts h
    · obtain ⟨reason, gaps, n, stamped, row, events, -, -, happend⟩ := append_of_closed h.1 h.2
      rw [happend]
      exact iff_of_false nofun fun hopen => h.2 (hopen h.1)
    · obtain ⟨stamped, row, events, n, -, -, -, happend⟩ := append_of_open h.1 h.2
      obtain ⟨db, rowCount, hframe⟩ := enforceCap_frame env (s.counted events n)
      rw [happend, hframe]
      exact iff_of_true hs fun _ => h.2

end EventStore

/-- On any database, a status command tells the truth about the recording handle in every state of
a run exactly when no append of the run has its row taken and then meets a closed gate: a store
that is halted, or free space below the floor when the check is due. -/
theorem showsHalt_run_iff (command : StatusCommand) (db : Db) (maxEvents minFreeBytes : Option ℤ)
    (ops : List EventStore.Op) :
    Visits EventStore.Op.step command.ShowsHalt ops (.init db maxEvents minFreeBytes) ↔
      Always EventStore.Op.step EventStore.MeetsOpenGate ops (.init db maxEvents minFreeBytes) := by
  apply Transition.visits_iff_always
  · intro op s hs
    rw [StatusCommand.showsHalt_iff] at hs ⊢
    exact EventStore.haltedReason_step_iff op s hs
  · exact StatusCommand.showsHalt_iff.mpr rfl

/-- The first append on a nearly full disk halts the recording, and `status` does not say so. -/
theorem not_showsHalt : ¬∀ (command : StatusCommand) (db : Db) (maxEvents minFreeBytes : Option ℤ)
    (ops : List EventStore.Op),
      command.ShowsHalt (run EventStore.Op.step ops (.init db maxEvents minFreeBytes)) := by
  intro h
  let start := EventStore.init Db.empty none (some (10 ^ 18))
  let op : EventStore.Op :=
    .append (.plain (str "EVT-1") (by decide)) (EventStore.envWithFree (some 0))
  have hshows := h ⟨str "ebabf_events.db", none, some (10 ^ 18), .ok 0, (600 : ℚ)⟩ Db.empty none
    (some (10 ^ 18)) [op]
  have hgate : start.MeetsOpenGate op :=
    (EventStore.haltedReason_step_iff op start rfl).mp (StatusCommand.showsHalt_iff.mp hshows)
  have haccepts : start.Accepts (.plain (str "EVT-1") (by decide))
      (EventStore.envWithFree (some 0)) :=
    EventStore.accepts_plain (by decide) (by decide) _ (by decide) List.not_mem_nil
  have hfloor := (hgate haccepts).2 (10 ^ 18) rfl (by decide) 0 rfl
  exact absurd hfloor (by decide)

end Ebabf
