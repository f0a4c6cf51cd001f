import Ebabf.Bootstrap.Agent
import Ebabf.Bootstrap.Hours
import Ebabf.Py.JsonDepth
import Ebabf.Py.Lines
import Ebabf.Runner.Coverage
import Ebabf.Storage.Downtime
import Ebabf.Storage.Ledger

/-!
# What the operator reads

The texts that `status` and `coverage` print. A halt is not among what a fresh handle knows, but it
has left a record; the events that are stored and those that were dropped add up to all there were;
and the coverage report says of every collector whether it runs.
-/

namespace Ebabf

open Py (Str str Exc Json decimal grouped join floatOfRatio floatOfInt HasLine)
open Float.Model (UnpackedFloat)
open Transition (run)

/-- `text or '-'` -/
def orDash (text : Option Str) : Str := (text.filter (· ≠ [])).getD (str "-")

/-- The float a number of the status is. -/
def unpacked (q : ℚ) : UnpackedFloat := (floatOfRatio q).toModel.unpack

/-- `x / n` -/
def dividedBy (x : UnpackedFloat) (n : ℤ) : UnpackedFloat := .div .binary64 x (floatOfInt n)

def spanLines (span effective : ℚ) : List Str :=
  [str "span            " ++ Py.fixedHundredths (unpacked span) ++ str " h wall clock",
   str "covered         " ++ Py.fixedHundredths (unpacked effective) ++
     str " h after removing gaps",
   str "                " ++ Py.fixedHundredths (dividedBy (unpacked effective) 24) ++
     str " of the 7-14 days a baseline needs"]

/-- `f'{cap:,}' if cap else 'unbounded'` -/
def capText (maxEvents : Option ℤ) : Str :=
  match maxEvents with
  | none => str "unbounded"
  | some cap =>
    if cap = 0 then str "unbounded"
    else (if cap < 0 then str "-" else []) ++ grouped cap.natAbs

def droppedLine (dropped : ℕ) : Str :=
  str "dropped         " ++ grouped dropped ++
    if dropped ≠ 0 then str "  <-- the data has a hole" else []

/-- `f"{threshold / 60:.0f} minutes"` -/
def thresholdMinutes (threshold : WithTop ℚ) : Str :=
  Py.fixedZero (dividedBy (match threshold with
    | ⊤ => .infinity .positive
    | (q : ℚ) => unpacked q) 60) ++ str " minutes"

def gapLine (gap : Db.GapReport) : Str :=
  str "                " ++ gap.start ++ str " -> " ++ gap.stop ++ str "  (" ++
    Py.fixedHundredths (dividedBy (unpacked gap.durationSeconds) 3600) ++ str " h)"

def gapLines (status : RecordingStatus) : List Str :=
  let minutes := thresholdMinutes status.gapThresholdSeconds
  if status.gaps = [] then [str "gaps            none over " ++ minutes]
  else
    [str "gaps            " ++ decimal status.gapCount ++ str " over " ++ minutes ++ str ", " ++
      Py.fixedHundredths (unpacked status.hoursLostToGaps) ++ str " h lost"] ++
    (status.gaps.take 10).map gapLine ++
    if 10 < status.gaps.length then
      [str "                ... and " ++ decimal (status.gaps.length - 10) ++ str " more"]
    else []

def declaredLine (gap : CoverageGap) : Str :=
  str "                [" ++ gap.kind ++ str "] " ++ gap.detail

def declaredLines (recorded : List (CoverageGap × ℕ)) : List Str :=
  if recorded = [] then []
  else
    [str "declared        " ++ decimal recorded.length ++
      str " outage(s) the agent recorded about itself"] ++
    (recorded.take 5).map fun entry => declaredLine entry.1

def haltedLines (status : RecordingStatus) : List Str :=
  if status.halted then
    [[], str "HALTED          " ++ status.haltedReason.getD (str "None"),
      str "                Nothing is being recorded. Free space, then restart."]
  else []

/-- The lines, given those of the span. -/
def statusLines (status : RecordingStatus) (spanLines : List Str) : List Str :=
  [str "database        " ++ status.database,
   str "events          " ++ grouped status.events,
   str "first event     " ++ orDash status.firstEvent,
   str "last event      " ++ orDash status.lastEvent] ++
  spanLines ++
  [str "free disk       " ++
     Py.fixedTenths (dividedBy (floatOfInt status.freeBytes) 1000000000) ++ str " GB",
   str "event cap       " ++ capText status.maxEvents,
   droppedLine status.eventsDroppedToOverflow] ++
  gapLines status ++ declaredLines status.recordedGaps ++ haltedLines status

/-- `format_status`. A span without the hours covered in it cannot be printed. -/
def formatStatus (status : RecordingStatus) : Except Exc Str :=
  match status.spanHours, status.effectiveHours with
  | none, _ => .ok (join (str "\n") (statusLines status
      [str "span            - (nothing recorded yet)"]))
  | some span, some effective =>
    .ok (join (str "\n") (statusLines status (spanLines span effective)))
  | some _, none => .error ⟨.typeError,
      str "unsupported format string passed to NoneType.__format__"⟩

/-- `{"start": …, "end": …, "duration_seconds": …}` -/
def gapDict (gap : Db.GapReport) : Json :=
  .obj [(str "start", .str gap.start), (str "end", .str gap.stop),
    (str "duration_seconds", .float (floatOfRatio gap.durationSeconds))]

def orNull (text : Option Str) : Json := text.elim .null .str

def recordedDict (entry : CoverageGap × ℕ) : Json :=
  .obj [(str "gap_id", .int entry.2), (str "detected_at", .str entry.1.detectedAt),
    (str "kind", .str entry.1.kind), (str "gap_start", orNull entry.1.gapStart),
    (str "gap_end", orNull entry.1.gapEnd),
    (str "duration_seconds", entry.1.durationSeconds.elim .null .float),
    (str "detail", .str entry.1.detail)]

/-- The dictionary that `recording_status` returns. -/
def statusDict (status : RecordingStatus) : Json :=
  .obj [(str "database", .str status.database), (str "events", .int status.events),
    (str "first_event", orNull status.firstEvent),
    (str "last_event", orNull status.lastEvent),
    (str "span_hours", status.spanHours.elim .null fun q => .float (floatOfRatio q)),
    (str "effective_hours", status.effectiveHours.elim .null fun q => .float (floatOfRatio q)),
    (str "gap_threshold_seconds", .float (match status.gapThresholdSeconds with
      | ⊤ => 1.0 / 0.0
      | (q : ℚ) => floatOfRatio q)),
    (str "gaps", .arr (status.gaps.map gapDict)), (str "gap_count", .int status.gapCount),
    (str "hours_lost_to_gaps", .float (floatOfRatio status.hoursLostToGaps)),
    (str "recorded_gaps", .arr (status.recordedGaps.map recordedDict)),
    (str "events_dropped_to_overflow", .int status.eventsDroppedToOverflow),
    (str "free_bytes", .int status.freeBytes),
    (str "max_events", status.maxEvents.elim .null .int),
    (str "halted", .bool status.halted), (str "halted_reason", orNull status.haltedReason)]

/-- `_status_command`: the exit code and what it prints, on a database if there is one. -/
def StatusCommand.output (command : StatusCommand) (json : Bool) (found : Option Db) :
    Except Exc (ℕ × Str) :=
  match found with
  | none =>
    .ok (1, str "no database at " ++ command.path ++ str ": nothing has been recorded yet")
  | some db => do
    let status ← command.status db
    if json then return (0, Json.dumps (some 2) (statusDict status))
    else do
      let text ← formatStatus status
      return (0, text)

theorem hasLine_formatStatus {status : RecordingStatus} {text line : Str}
    (h : formatStatus status = .ok text)
    (hline : ∀ spanLines, line ∈ statusLines status spanLines) : HasLine line text := by
  unfold formatStatus at h
  split at h
  · cases h
    exact Py.hasLine_join (hline _)
  · cases h
    exact Py.hasLine_join (hline _)
  · cases h

theorem not_halted_append {label : Str} (rest : Str)
    (h : label.head?.any (· ≠ Py.CodePoint.ofChar 'H') = true) :
    ¬str "HALTED" <+: label ++ rest := by
  rintro ⟨tail, heq⟩
  cases label with
  | nil => cases h
  | cons c label =>
    have hc : Py.CodePoint.ofChar 'H' = c := (List.cons.inj heq).1
    have hne : decide (c ≠ Py.CodePoint.ofChar 'H') = true := h
    exact of_decide_eq_true hne hc.symm

theorem not_halted_spanLines (span effective : ℚ) :
    ∀ line ∈ spanLines span effective, ¬str "HALTED" <+: line := by
  simp only [spanLines, List.append_assoc, List.forall_mem_cons]
  refine ⟨?_, ?_, ?_, List.forall_mem_nil _⟩
  · exact not_halted_append _ (by decide)
  · exact not_halted_append _ (by decide)
  · exact not_halted_append _ (by decide)

theorem not_halted_gapLines (status : RecordingStatus) :
    ∀ line ∈ gapLines status, ¬str "HALTED" <+: line := by
  unfold gapLines
  split_ifs
  · simp only [List.forall_mem_singleton]
    exact not_halted_append _ (by decide)
  · simp only [List.forall_mem_append, List.forall_mem_singleton, List.append_assoc,
      List.forall_mem_map, gapLine]
    exact ⟨not_halted_append _ (by decide), fun gap _ => not_halted_append _ (by decide),
      not_halted_append _ (by decide)⟩
  · simp only [List.forall_mem_append, List.forall_mem_singleton, List.append_assoc,
      List.forall_mem_map, gapLine]
    exact ⟨not_halted_append _ (by decide), fun gap _ => not_halted_append _ (by decide),
      List.forall_mem_nil _⟩

theorem not_halted_declaredLines (recorded : List (CoverageGap × ℕ)) :
    ∀ line ∈ declaredLines recorded, ¬str "HALTED" <+: line := by
  unfold declaredLines
  split_ifs
  · exact List.forall_mem_nil _
  · simp only [List.forall_mem_append, List.forall_mem_singleton, List.append_assoc,
      List.forall_mem_map, declaredLine]
    exact ⟨not_halted_append _ (by decide), fun gap _ => not_halted_append _ (by decide)⟩

theorem not_halted_statusLines {status : RecordingStatus} {spanLines : List Str}
    (hhalted : status.halted = false) (hspan : ∀ line ∈ spanLines, ¬str "HALTED" <+: line) :
    ∀ line ∈ statusLines status spanLines, ¬str "HALTED" <+: line := by
  have hnone : haltedLines status = [] := by
    rw [haltedLines, hhalted]
    rfl
  simp only [statusLines, hnone, List.forall_mem_append, List.forall_mem_cons, List.append_assoc,
    droppedLine]
  refine ⟨⟨?_, ?_, ?_, ?_, List.forall_mem_nil _⟩, hspan, ⟨?_, ?_, ?_, List.forall_mem_nil _⟩,
    not_halted_gapLines status, not_halted_declaredLines _, List.forall_mem_nil _⟩
  all_goals exact not_halted_append _ (by decide)

theorem lines_of_formatStatus {status : RecordingStatus} {text : Str}
    (h : formatStatus status = .ok text) (hhalted : status.halted = false) :
    ∃ spanLines, text = join (str "\n") (statusLines status spanLines) ∧
      ∀ line ∈ statusLines status spanLines, ¬str "HALTED" <+: line := by
  unfold formatStatus at h
  split at h
  · cases h
    refine ⟨_, rfl, not_halted_statusLines hhalted ?_⟩
    simp only [List.forall_mem_singleton]
    exact @not_halted_append (str "span            - (nothing recorded yet)") [] (by decide)
  · cases h
    exact ⟨_, rfl, not_halted_statusLines hhalted (not_halted_spanLines _ _)⟩
  · cases h

theorem status_of_output {command : StatusCommand} {db : Db} {code : ℕ} {text : Str}
    (h : command.output false (some db) = .ok (code, text)) :
    ∃ status, command.status db = .ok status ∧ formatStatus status = .ok text := by
  obtain ⟨status, hstatus, h⟩ := Py.bind_eq_ok.mp h
  obtain ⟨printed, hprinted, h⟩ := Py.bind_eq_ok.mp h
  cases h
  exact ⟨status, hstatus, hprinted⟩

theorem tables_of_status {command : StatusCommand} {db : Db} {status : RecordingStatus}
    (h : command.status db = .ok status) : status.events = db.rowCount ∧
      status.eventsDroppedToOverflow = db.droppedEventCount ∧
      status.recordedGaps = db.coverageGapLog 20 := by
  unfold StatusCommand.status recordingStatus at h
  obtain ⟨span, hspan, h⟩ := Py.bind_eq_ok.mp h
  obtain ⟨freeBytes, -, h⟩ := Py.bind_eq_ok.mp h
  obtain ⟨hours, -, hspan⟩ := Py.bind_eq_ok.mp hspan
  cases hspan
  cases h
  exact ⟨rfl, rfl, rfl⟩

/-- Where every row was stamped by an aware clock and the free space can be read, a status can be
printed. -/
theorem exists_output {command : StatusCommand} {db : Db} {free : ℕ}
    (hfree : command.free = .ok free) (hrows : db.events.rows ≠ []) (hstamped : db.StampedAware) :
    ∃ text, command.output false (some db) = .ok (0, text) := by
  obtain ⟨status, hstatus, hspan, -, heffective⟩ := @recordingStatus_ok command.path free
    command.gapThreshold (.init db command.maxEvents command.minFreeBytes) hrows hstamped
  rw [← hfree] at hstatus
  obtain ⟨text, htext⟩ : ∃ text, formatStatus status = .ok text := by
    unfold formatStatus
    rw [hspan, heffective]
    exact ⟨_, rfl⟩
  have hcommand : command.status db = .ok status := hstatus
  refine ⟨text, ?_⟩
  simp only [StatusCommand.output, hcommand, htext, bind, Except.bind, pure, Except.pure,
    Bool.false_eq_true, ↓reduceIte]

namespace EventStore

/-- The last outage on record is the halt of the handle, if it has one. -/
def HaltDeclared (s : EventStore) : Prop :=
  ∀ reason, s.haltedReason = some reason → ∃ gap, s.db.coverageGaps.getLast? = some gap ∧
    gap.kind = str "storage_halted" ∧ gap.detail = reason

theorem HaltDeclared.of_same {s s' : EventStore} (h : s.HaltDeclared)
    (hreason : s'.haltedReason = s.haltedReason)
    (hgaps : s'.db.coverageGaps = s.db.coverageGaps) : s'.HaltDeclared := by
  intro reason hhalted
  rw [hgaps]
  exact h reason (hreason ▸ hhalted)

theorem haltDeclared_of_running {s : EventStore} (h : s.haltedReason = none) :
    s.HaltDeclared := by
  intro reason hhalted
  rw [h] at hhalted
  cases hhalted

theorem haltDeclared_halt (reason : Str) (env : AppendEnv) (s : EventStore) :
    (s.halt reason env).2.HaltDeclared := by
  intro reason' hhalted
  cases hhalted
  exact ⟨_, List.getLast?_concat, rfl, rfl⟩

theorem HaltDeclared.checkFreeSpaceLocked {s : EventStore} (h : s.HaltDeclared)
    (env : AppendEnv) : (s.checkFreeSpaceLocked env).2.HaltDeclared := by
  unfold EventStore.checkFreeSpaceLocked
  split
  · exact h
  · split
    · exact h
    · split_ifs
      · exact h.of_same rfl rfl
      · split
        · exact h.of_same rfl rfl
        · split_ifs
          · exact h.of_same rfl rfl
          · exact haltDeclared_halt _ env _

theorem evictUpTo_frame (point : EvictionPoint) (maxEvents : ℤ) (droppedAt : Py.Datetime)
    (s : EventStore) :
    (s.evictUpTo point maxEvents droppedAt).haltedReason = s.haltedReason ∧
      (s.evictUpTo point maxEvents droppedAt).db.coverageGaps = s.db.coverageGaps := by
  unfold evictUpTo
  dsimp only
  split_ifs
  · exact ⟨rfl, rfl⟩
  · exact ⟨rfl, rfl⟩
  · cases point <;> exact ⟨rfl, rfl⟩

theorem HaltDeclared.enforceCapUpTo {s : EventStore} (h : s.HaltDeclared) (point : EvictionPoint)
    (env : AppendEnv) : (s.enforceCapUpTo point env).HaltDeclared := by
  unfold EventStore.enforceCapUpTo
  split
  · exact h
  · split_ifs
    · obtain ⟨hreason, hgaps⟩ := evictUpTo_frame point _ env.droppedAt s
      exact h.of_same hreason hgaps
    · exact h

theorem HaltDeclared.appendKilled {s : EventStore} (h : s.HaltDeclared) (event : Event)
    (env : AppendEnv) (cut : Option EvictionPoint) :
    (s.appendKilled event env cut).HaltDeclared := by
  unfold EventStore.appendKilled
  cases prepare event env with
  | error e => exact h
  | ok prepared =>
    obtain ⟨stamped, row⟩ := prepared
    dsimp only
    cases hinsert : s.db.insertEvent row with
    | error e => exact h
    | ok db =>
      obtain ⟨-, events, -, rfl⟩ := db_insertEvent hinsert
      have hinserted : HaltDeclared { s with db := { s.db with events } } := h.of_same rfl rfl
      cases cut with
      | none => exact hinserted
      | some point =>
        have hchecked := hinserted.checkFreeSpaceLocked env
        dsimp only
        split
        · rename_i e s' hcheck
          rw [hcheck] at hchecked
          exact hchecked
        · rename_i s' hcheck
          rw [hcheck] at hchecked
          have hcounted : HaltDeclared { s' with rowCount := s'.rowCount + 1 } :=
            hchecked.of_same rfl rfl
          exact hcounted.enforceCapUpTo point env

theorem HaltDeclared.append {s : EventStore} (h : s.HaltDeclared) (event : Event)
    (env : AppendEnv) : (s.append event env).2.HaltDeclared := by
  rw [append_snd]
  exact h.appendKilled event env _

theorem haltedReason_detectDowntime (threshold : WithTop ℚ) (env : DowntimeEnv) (s : EventStore) :
    (s.detectDowntime threshold env).2.haltedReason = s.haltedReason := by
  unfold detectDowntime
  split
  · rfl
  · split
    · rfl
    · split
      · rfl
      · split_ifs <;> rfl

theorem AgentOp.haltDeclared_step (threshold : WithTop ℚ) (op : AgentOp) (r : AgentRun)
    (h : r.store.HaltDeclared) : (op.step threshold r).store.HaltDeclared := by
  cases op with
  | start maxEvents minFreeBytes env =>
    apply haltDeclared_of_running
    exact haltedReason_detectDowntime threshold env (init r.store.db maxEvents minFreeBytes)
  | append event env => exact h.append event env
  | killed event env cut => exact h.appendKilled event env cut

end EventStore

theorem declaredLine_mem {db : Db} {gap : CoverageGap} (h : db.coverageGaps.getLast? = some gap) :
    declaredLine gap ∈ declaredLines (db.coverageGapLog 20) := by
  obtain ⟨before, hgaps⟩ := List.getLast?_eq_some_iff.mp h
  obtain ⟨older, hlog⟩ : ∃ older, db.coverageGapLog 20 = (gap, 1 + before.length) :: older := by
    refine ⟨(before.zipIdx 1).reverse.take 19, ?_⟩
    rw [Db.coverageGapLog, hgaps, List.zipIdx_append, List.reverse_append]
    rfl
  rw [hlog, declaredLines, if_neg (List.cons_ne_nil _ _)]
  exact List.mem_append_right _ List.mem_cons_self

namespace StatusCommand

theorem counts_of_output {command : StatusCommand} {db : Db} {code : ℕ} {text : Str}
    (h : command.output false (some db) = .ok (code, text)) :
    HasLine (str "events          " ++ grouped db.rowCount) text ∧
      HasLine (droppedLine db.droppedEventCount) text := by
  obtain ⟨status, hstatus, htext⟩ := status_of_output h
  obtain ⟨hevents, hdropped, -⟩ := tables_of_status hstatus
  rw [← hevents, ← hdropped]
  constructor
  · apply hasLine_formatStatus htext
    intro spanLines
    simp [statusLines]
  · apply hasLine_formatStatus htext
    intro spanLines
    simp [statusLines]

theorem declared_of_output {command : StatusCommand} {s : EventStore} {code : ℕ}
    {reason text : Str} (hdeclared : s.HaltDeclared) (hhalted : s.haltedReason = some reason)
    (h : command.output false (some s.db) = .ok (code, text)) :
    HasLine (str "                [storage_halted] " ++ reason) text := by
  obtain ⟨gap, hlast, hkind, hdetail⟩ := hdeclared reason hhalted
  obtain ⟨status, hstatus, htext⟩ := status_of_output h
  have hline : declaredLine gap = str "                [storage_halted] " ++ reason := by
    rw [declaredLine, hkind, hdetail]
    rfl
  rw [← hline]
  apply hasLine_formatStatus htext
  intro spanLines
  rw [statusLines, (tables_of_status hstatus).2.2]
  exact List.mem_append_left _ (List.mem_append_right _ (declaredLine_mem hlast))

/-- When the handle that records has halted, after any starts, appends and crashes, the text that
`status` prints lists the halt and its reason among the declared outages, while none of the lines it
is made of is the one that says recording has halted. -/
theorem output_declares_halt (threshold : WithTop ℚ) (db : Db) (maxEvents minFreeBytes : Option ℤ)
    (ops : List EventStore.AgentOp) (command : StatusCommand) {reason text : Str} {code : ℕ} :
    let r := run (EventStore.AgentOp.step threshold) ops
      ⟨.init db maxEvents minFreeBytes, none, none⟩
    r.store.haltedReason = some reason →
    command.output false (some r.store.db) = .ok (code, text) →
    HasLine (str "                [storage_halted] " ++ reason) text ∧
      ∃ status spanLines, command.status r.store.db = .ok status ∧ status.halted = false ∧
        text = join (str "\n") (statusLines status spanLines) ∧
        ∀ line ∈ statusLines status spanLines, ¬str "HALTED" <+: line := by
  intro r hhalted houtput
  have hstart : (EventStore.init db maxEvents minFreeBytes).HaltDeclared :=
    EventStore.haltDeclared_of_running rfl
  have hdeclared : r.store.HaltDeclared := Transition.run_invariant
    (fun op r h => EventStore.AgentOp.haltDeclared_step threshold op r h) ops hstart
  obtain ⟨status, hstatus, htext⟩ := status_of_output houtput
  have hnot : status.halted = false := (halted_of_recordingStatus hstatus).1
  obtain ⟨spanLines, hlines⟩ := lines_of_formatStatus htext hnot
  exact ⟨declared_of_output hdeclared hhalted houtput, status, spanLines, hstatus, hnot, hlines⟩

/-- The status command on a given disk. -/
def plainCommand : StatusCommand := ⟨str "ebabf_events.db", none, none, .ok 0, (600 : ℚ)⟩

theorem plainCommand_free : plainCommand.free = .ok 0 := rfl

theorem stampedAware_storedRow {db : Db}
    (h : db.events.rows = [EventStore.storedRow (str "EVT-1")]) : db.StampedAware := by
  intro row hrow
  rw [h] at hrow
  rw [List.mem_singleton.mp hrow]
  exact ⟨Py.Datetime.epoch, by decide, rfl⟩

/-- A nearly full disk, where an agent has tried to append. -/
def halting : EventStore.AgentRun :=
  run (EventStore.AgentOp.step (600 : ℚ))
    [.append (.plain (str "EVT-1") Event.strip_evt1) (EventStore.envWithFree (some 0))]
    ⟨.init Db.empty none (some (10 ^ 18)), none, none⟩

theorem halting_store : ∃ reason, halting.store.haltedReason = some reason ∧
    halting.store.db.events.rows = [EventStore.storedRow (str "EVT-1")] := by
  have haccepts : (EventStore.init Db.empty none (some (10 ^ 18))).Accepts
      (.plain (str "EVT-1") Event.strip_evt1) (EventStore.envWithFree (some 0)) :=
    EventStore.accepts_plain Event.strip_evt1 (by decide) _ (by decide) List.not_mem_nil
  have hclosed : ¬(EventStore.init Db.empty none (some (10 ^ 18))).GateOpen
      (EventStore.envWithFree (some 0)) := by
    intro hopen
    exact absurd (hopen.2 (10 ^ 18) rfl (by decide) 0 rfl) (by decide)
  obtain ⟨reason, gaps, n, stamped, row, events, hprepare, hrows, happend⟩ :=
    EventStore.append_of_closed haccepts hclosed
  rw [EventStore.prepare_plain] at hprepare
  cases hprepare
  refine ⟨reason, ?_, ?_⟩
  · show (EventStore.append _ _ _).2.haltedReason = _
    rw [happend]
  · show (EventStore.append _ _ _).2.db.events.rows = _
    rw [happend]
    exact hrows

/-- The halt of the first append is in the text, as an outage and not as a halt. -/
theorem output_declares_halt_full : ∃ reason text,
    halting.store.haltedReason = some reason ∧
      plainCommand.output false (some halting.store.db) = .ok (0, text) ∧
      HasLine (str "                [storage_halted] " ++ reason) text ∧
      ∃ status, plainCommand.status halting.store.db = .ok status ∧ status.halted = false := by
  obtain ⟨reason, hhalted, hrows⟩ := halting_store
  obtain ⟨text, houtput⟩ := exists_output plainCommand_free (hrows ▸ List.cons_ne_nil _ _)
    (stampedAware_storedRow hrows)
  obtain ⟨hline, status, -, hstatus, hnot, -⟩ :=
    output_declares_halt _ _ _ _ _ plainCommand hhalted houtput
  exact ⟨reason, text, hhalted, houtput, hline, status, hstatus, hnot⟩

/-- Along every run on a new database, the events and the dropped ones in the text that `status`
prints add up to all the events the table has ever taken, and one line says of a drop that it has
left a hole. -/
theorem output_accounts (maxEvents minFreeBytes : Option ℤ) (ops : List EventStore.Op)
    (command : StatusCommand) {text : Str} {code : ℕ} :
    let l := run EventStore.Ledger.step ops ⟨.init Db.empty maxEvents minFreeBytes, []⟩
    command.output false (some l.store.db) = .ok (code, text) →
    ∃ stored dropped : ℕ, stored + dropped = l.taken.length ∧
      HasLine (str "events          " ++ grouped stored) text ∧
      HasLine (droppedLine dropped) text := by
  intro l houtput
  obtain ⟨evicted, hperm, hdrops⟩ : l.Accounted :=
    EventStore.accounted_run maxEvents minFreeBytes ops
  refine ⟨l.store.db.rowCount, l.store.db.droppedEventCount, ?_, counts_of_output houtput⟩
  rw [EventStore.droppedEventCount_of_accounts hdrops, Db.rowCount, hperm.length_eq,
    List.length_append]

/-- The event whose append has halted the recording is counted. -/
theorem output_accounts_halted :
    let l := run EventStore.Ledger.step
      [.append (.plain (str "EVT-1") Event.strip_evt1) (EventStore.envWithFree (some 0))]
      ⟨.init Db.empty none (some (10 ^ 18)), []⟩
    ∃ text, plainCommand.output false (some l.store.db) = .ok (0, text) ∧
      ∃ stored dropped : ℕ, stored + dropped = l.taken.length ∧
        HasLine (str "events          " ++ grouped stored) text ∧
        HasLine (droppedLine dropped) text := by
  intro l
  obtain ⟨reason, -, hrows⟩ := halting_store
  have hsame : l.store.db = halting.store.db := rfl
  rw [← hsame] at hrows
  obtain ⟨text, houtput⟩ := exists_output plainCommand_free (hrows ▸ List.cons_ne_nil _ _)
    (stampedAware_storedRow hrows)
  exact ⟨text, houtput, output_accounts none (some (10 ^ 18)) _ plainCommand houtput⟩

end StatusCommand

namespace CoverageReport

def isComplete (report : CoverageReport) : Bool := report.unavailable == []

def unavailableDict (entry : Str × Str) : Json :=
  .obj [(str "collector", .str entry.1), (str "reason", .str entry.2)]

/-- `as_dict` -/
def asDict (report : CoverageReport) : Json :=
  .obj [(str "platform", .str report.platform), (str "active", .arr (report.active.map .str)),
    (str "unavailable", .arr (report.unavailable.map unavailableDict)),
    (str "is_complete", .bool report.isComplete)]

theorem asDict_injective : Function.Injective asDict := by
  rintro ⟨platform, active, unavailable⟩ ⟨platform', active', unavailable'⟩ h
  have hstr : Function.Injective Json.str := fun _ _ h => Json.str.inj h
  have hentry : Function.Injective unavailableDict := by
    rintro ⟨collector, reason⟩ ⟨collector', reason'⟩ h
    simp only [unavailableDict, Json.obj.injEq, List.cons.injEq, Prod.mk.injEq, Json.str.injEq,
      true_and, and_true] at h
    rw [h.1, h.2]
  simp only [asDict, Json.obj.injEq, List.cons.injEq, Prod.mk.injEq, Json.str.injEq,
    Json.arr.injEq, true_and, and_true] at h
  rw [h.1, List.map_injective_iff.mpr hstr h.2.1, List.map_injective_iff.mpr hentry h.2.2.1]

/-- What is read back from the text of a report. -/
theorem loads_asDict (depth : ℕ) (report : CoverageReport) :
    Json.loads (depth + 3) (Json.dumps (some 2) report.asDict) = .ok report.asDict := by
  have hactive : ∀ v ∈ report.active.map Json.str,
      v.WellFormed ∧ v.printable = true ∧ v.depth ≤ 0 := by
    intro v hv
    obtain ⟨name, -, rfl⟩ := List.mem_map.mp hv
    simp [Json.WellFormed, Json.printable, Json.depth]
  have hentry : ∀ v ∈ report.unavailable.map unavailableDict,
      v.WellFormed ∧ v.printable = true ∧ v.depth ≤ 1 := by
    intro v hv
    obtain ⟨entry, -, rfl⟩ := List.mem_map.mp hv
    have hkeys : [str "collector", str "reason"].Nodup := by decide
    exact ⟨⟨hkeys, trivial, trivial, trivial⟩, rfl, le_of_eq rfl⟩
  have hwell : report.asDict.WellFormed := by
    have hkeys : [str "platform", str "active", str "unavailable", str "is_complete"].Nodup := by
      decide
    refine ⟨hkeys, trivial, ?_, ?_, trivial, trivial⟩
    · exact Json.wellFormedItems_iff.mpr fun v hv => (hactive v hv).1
    · exact Json.wellFormedItems_iff.mpr fun v hv => (hentry v hv).1
  have hprint : report.asDict.printable = true := by
    have hitems := Json.printableItems_iff.mpr fun v hv => (hactive v hv).2.1
    have hentries := Json.printableItems_iff.mpr fun v hv => (hentry v hv).2.1
    simp only [asDict, Json.printable, Json.printableMembers, hitems, hentries, Bool.and_self]
  have hdepth : report.asDict.depth ≤ depth + 3 := by
    have hitems := Json.depthItems_le.mpr fun v hv => (hactive v hv).2.2
    have hentries := Json.depthItems_le.mpr fun v hv => (hentry v hv).2.2
    simp only [asDict, Json.depth, Json.depthMembers]
    omega
  rw [Json.loads_dumps_of_wellFormed hwell hprint, if_pos hdepth]

end CoverageReport

/-- What `coverage` prints of a runner. -/
def coverageText (runner : AgentRunner) : Str :=
  Json.dumps (some 2) (runner.coverage.elim (.obj []) CoverageReport.asDict)

/-- What `coverage` prints is read back as the dictionary of one report and no other. On that report
each collector that was asked for stands once, as active or with a reason, and it is called complete
exactly when every one of them is active. -/
theorem coverage_reads_back {only : Option (List Str)} {env : BuildEnv} {config : AgentConfig}
    {runner : AgentRunner} {eventStore : EventStore}
    (h : buildAgent only env config = .ok (runner, eventStore)) (depth : ℕ) :
    ∃ report, Json.loads (depth + 3) (coverageText runner) = .ok report.asDict ∧
      (∀ report' : CoverageReport, report'.asDict = report.asDict → report' = report) ∧
      AgentRunner.AccountsFor (env.registry.Wants only) report
        (runner.collectors.map Collector.name) ∧
      (report.isComplete = true ↔ ∀ name, env.registry.Wants only name → name ∈ report.active) := by
  unfold buildAgent at h
  obtain ⟨⟨collectors, report⟩, hbuilt, h⟩ := Py.bind_eq_ok.mp h
  obtain ⟨-, -, h⟩ := Py.bind_eq_ok.mp h
  cases h
  obtain ⟨hactive, hperm⟩ := CollectorRegistry.report_of_buildSupported hbuilt
  have haccounts := AgentRunner.accountsFor_of_perm hperm (env.registry.nodup_wanted only)
    (fun name => CollectorRegistry.mem_wanted) hactive
  refine ⟨report, report.loads_asDict depth, fun _ hsame =>
    CoverageReport.asDict_injective hsame, haccounts, ?_⟩
  rw [CoverageReport.isComplete, beq_iff_eq]
  constructor
  · intro hnone name hwants
    have hmem := (haccounts.total name).mpr hwants
    rw [hnone, List.map_nil, List.append_nil] at hmem
    exact hmem
  · intro hall
    rw [← List.map_eq_nil_iff (f := Prod.fst), List.eq_nil_iff_forall_not_mem]
    intro name hname
    have hwants := (haccounts.total name).mp (List.mem_append_right _ hname)
    exact haccounts.apart (hall name hwants) hname

/-- The agent of one class. -/
theorem coverage_reads_back_plain : ∃ runner eventStore,
    buildAgent none AgentRunner.plainBuild AgentRunner.enforcingConfig = .ok (runner, eventStore) ∧
    ∃ report, Json.loads 1000 (coverageText runner) = .ok report.asDict ∧
      (∀ report' : CoverageReport, report'.asDict = report.asDict → report' = report) ∧
      AgentRunner.AccountsFor (AgentRunner.plainBuild.registry.Wants none) report
        (runner.collectors.map Collector.name) ∧
      (report.isComplete = true ↔
        ∀ name, AgentRunner.plainBuild.registry.Wants none name → name ∈ report.active) := by
  have hbuilt : buildAgent none AgentRunner.plainBuild AgentRunner.enforcingConfig =
      .ok (_, _) := rfl
  exact ⟨_, _, hbuilt, coverage_reads_back hbuilt 997⟩

end Ebabf
