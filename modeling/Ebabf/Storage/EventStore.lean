import Ebabf.Py.Utf8
import Ebabf.Schema.Event
import Ebabf.Sql.Table
import Mathlib.Data.Prod.Lex

/-!
# events.db

The database is the three tables, every statement of which commits on its own; a handle is an
open connection with the counters it caches. Each method returns its outcome and the handle
afterwards. Readings of the clock and of the free space are arguments.
-/

namespace Ebabf

open Py (Str str Exc ExcType Datetime Json Dict encodeUtf8 decimal)

/-- `_FREE_SPACE_CHECK_EVERY` -/
def FREE_SPACE_CHECK_EVERY : ℕ := 500

/-- The largest SQLite file has fewer bytes than this, so no table ever holds as many rows. -/
def SQLITE_MAX_ROWS : ℕ := 2 ^ 48

def storageHalted : ExcType := .other (str "StorageHalted")

def integrityError : ExcType := .other (str "IntegrityError")

def operationalError : ExcType := .other (str "OperationalError")

/-- The columns of `events` that hold written data. -/
structure EventRow where
  eventId : Str
  timestamp : Str
  ingestedAt : Str
  hostId : Str
  tenantId : Str
  subjectPseudonym : Str
  source : Str
  rawAttributes : Str
  extractedFeatures : Str
  rawScore : Option Float
  contextModifier : Option Float
  finalScore : Option Float
  confidence : Option Float
  level : Option Str
  degradedLayers : Str
  triggeredRuleIds : Str
  decision : Option Str
  enforced : ℤ
  enforcementBlockedReason : Option Str
  explanation : Str
  schemaVersion : Str
deriving DecidableEq

namespace EventRow

/-- Every parameter bound as text. -/
def textParameters (row : EventRow) : List Str :=
  [row.eventId, row.timestamp, row.ingestedAt, row.hostId, row.tenantId, row.subjectPseudonym,
    row.source, row.rawAttributes, row.extractedFeatures] ++ row.level.toList ++
  [row.degradedLayers, row.triggeredRuleIds] ++ row.decision.toList ++
    row.enforcementBlockedReason.toList ++ [row.explanation, row.schemaVersion]

/-- SQLite's `length`: the characters before the first NUL. -/
def sqlLength (s : Str) : ℕ := (s.takeWhile fun c => c.val != 0).length

def pseudonymCheck (row : EventRow) : Bool :=
  sqlLength row.subjectPseudonym == 36 && row.subjectPseudonym.take 4 == str "USR-"

def enforcedCheck (row : EventRow) : Bool := row.enforced == 0 || row.enforced == 1

def truthfulCheck (row : EventRow) : Bool :=
  row.enforced == 0 || row.enforcementBlockedReason == none

end EventRow

/-- `json.dumps(dict(mapping), ensure_ascii=False)`, or what it raises. -/
def dumpsMapping (mapping : Mapping) : Except Exc Str := do
  let members ← mapping.entries.mapM fun (key, value) => value.toJson.map fun v => (key, v)
  return Json.dumps none (.obj members)

theorem dumpsMapping_eq (mapping : Mapping) : dumpsMapping mapping =
    (mapping.entries.mapM fun entry : Str × AnyValue =>
      entry.2.toJson.map fun v => (entry.1, v)).map fun members =>
        Json.dumps none (.obj members) := by
  show (mapping.entries.mapM fun entry : Str × AnyValue =>
    entry.2.toJson.map fun v => (entry.1, v)).bind (fun members =>
      .ok (Json.dumps none (.obj members))) = _
  cases mapping.entries.mapM fun entry : Str × AnyValue =>
      entry.2.toJson.map fun v => (entry.1, v) with
  | error e => rfl
  | ok members => rfl

def dumpsTexts (texts : List Str) : Str := Json.dumps none (.arr (texts.map .str))

/-- The parameters of the INSERT. A stamped event always has its ingestion time. -/
def EventRow.ofDict (payload : EventDict) : Except Exc EventRow := do
  let rawAttributes ← dumpsMapping payload.rawAttributes
  let extractedFeatures ← dumpsMapping payload.extractedFeatures
  let explanation ← dumpsMapping payload.explanation
  return {
    eventId := payload.eventId
    timestamp := payload.timestamp
    ingestedAt := payload.ingestedAt.getD []
    hostId := payload.hostId
    tenantId := payload.tenantId
    subjectPseudonym := payload.subjectPseudonym
    source := payload.source
    rawAttributes := rawAttributes
    extractedFeatures := extractedFeatures
    rawScore := payload.rawScore
    contextModifier := payload.contextModifier
    finalScore := payload.finalScore
    confidence := payload.confidence
    level := payload.level
    degradedLayers := dumpsTexts payload.degradedLayers
    triggeredRuleIds := dumpsTexts payload.triggeredRuleIds
    decision := payload.decision
    enforced := if payload.enforced then 1 else 0
    enforcementBlockedReason := payload.enforcementBlockedReason
    explanation := explanation
    schemaVersion := payload.schemaVersion }

structure CoverageGap where
  detectedAt : Str
  kind : Str
  gapStart : Option Str
  gapEnd : Option Str
  durationSeconds : Option Float
  detail : Str
deriving DecidableEq

structure OverflowDrop where
  droppedAt : Str
  eventCount : ℕ
  oldestIngestedAt : Str
  newestIngestedAt : Str
  levelBreakdown : Str
  reason : Str
deriving DecidableEq

abbrev EventTable := Sql.Table EventRow EventRow.eventId

/-- What is on disk. -/
structure Db where
  events : EventTable
  overflowDrops : List OverflowDrop
  coverageGaps : List CoverageGap

namespace Db

/-- A freshly created database. -/
def empty : Db := ⟨∅, [], []⟩

/-- The rows stored and the rows recorded as dropped. -/
def rowCount (db : Db) : ℕ := db.events.rows.length

def droppedEventCount (db : Db) : ℕ := (db.overflowDrops.map OverflowDrop.eventCount).sum

/-- `INSERT INTO events`: text is encoded while it is bound, then the constraints are checked. -/
def insertEvent (row : EventRow) (db : Db) : Except Exc Db :=
  if row.textParameters.any fun s => (encodeUtf8 s).isNone then
    .error ⟨.unicodeEncodeError, str "'utf-8' codec can't encode: surrogates not allowed"⟩
  else if !row.pseudonymCheck then
    .error ⟨integrityError, str ("CHECK constraint failed: length(subject_pseudonym) = 36 AND " ++
      "substr(subject_pseudonym, 1, 4) = 'USR-'")⟩
  else if !row.enforcedCheck then
    .error ⟨integrityError, str "CHECK constraint failed: enforced IN (0, 1)"⟩
  else if !row.truthfulCheck then
    .error ⟨integrityError, str
      "CHECK constraint failed: enforced = 0 OR enforcement_blocked_reason IS NULL"⟩
  else if SQLITE_MAX_ROWS ≤ db.rowCount then
    .error ⟨operationalError, str "database or disk is full"⟩
  else
    match db.events.insert row with
    | none => .error ⟨integrityError, str "UNIQUE constraint failed: events.event_id"⟩
    | some events => .ok { db with events }

end Db

/-- An open store. -/
structure EventStore where
  db : Db
  maxEvents : Option ℤ
  rowCount : ℤ
  minFreeBytes : Option ℤ
  appendsSinceSpaceCheck : ℕ
  haltedReason : Option Str

/-- What one `append` reads from outside: the clock for the stamp, the free space (nothing when
reading it fails), the clock twice for a recorded gap and once for a recorded drop. -/
structure AppendEnv where
  stamp : Datetime
  free : Option ℕ
  gapStart : Datetime
  detectedAt : Datetime
  droppedAt : Datetime

namespace EventStore

/-- `n if n else None`. -/
def orNone (n : Option ℤ) : Option ℤ := n.filter (· ≠ 0)

/-- `EventStore(db_path, max_events=…, min_free_bytes=…)`. -/
def init (db : Db) (maxEvents minFreeBytes : Option ℤ) : EventStore :=
  { db
    maxEvents := orNone maxEvents
    rowCount := db.rowCount
    minFreeBytes := orNone minFreeBytes
    appendsSinceSpaceCheck := FREE_SPACE_CHECK_EVERY
    haltedReason := none }

def isHalted (s : EventStore) : Bool := s.haltedReason.isSome

/-- `f"{n / 1e6:.0f} MB"`. -/
def megabytes (n : ℤ) : Str :=
  Py.fixedZero (.div .binary64 (Py.floatOfInt n) (Py.floatOfInt 1000000)) ++ str " MB"

def haltReason (free : ℕ) (floor : ℤ) : Str :=
  str "free space " ++ megabytes free ++ str " fell below the " ++ megabytes floor ++ str " floor"

/-- `_record_gap_locked` -/
def recordGapLocked (gap : CoverageGap) (s : EventStore) : EventStore :=
  { s with db := { s.db with coverageGaps := s.db.coverageGaps ++ [gap] } }

/-- Latch the halt, write it to `coverage_gaps` and raise. -/
def halt (reason : Str) (env : AppendEnv) (s : EventStore) : Except Exc Unit × EventStore :=
  (.error ⟨storageHalted, reason⟩,
    { s with haltedReason := some reason }.recordGapLocked
      { detectedAt := env.detectedAt.isoformat
        kind := str "storage_halted"
        gapStart := some env.gapStart.isoformat
        gapEnd := none
        durationSeconds := none
        detail := reason })

/-- `_check_free_space_locked` -/
def checkFreeSpaceLocked (env : AppendEnv) (s : EventStore) : Except Exc Unit × EventStore :=
  match s.haltedReason with
  | some reason => (.error ⟨storageHalted, reason⟩, s)
  | none =>
    match s.minFreeBytes with
    | none => (.ok (), s)
    | some floor =>
      if s.appendsSinceSpaceCheck + 1 < FREE_SPACE_CHECK_EVERY then
        (.ok (), { s with appendsSinceSpaceCheck := s.appendsSinceSpaceCheck + 1 })
      else
        match env.free with
        | none => (.ok (), { s with appendsSinceSpaceCheck := 0 })
        | some free =>
          if floor ≤ free then (.ok (), { s with appendsSinceSpaceCheck := 0 })
          else { s with appendsSinceSpaceCheck := 0 }.halt (haltReason free floor) env

/-- `_SEVERITY_RANK`, with unscored rows between low and medium. -/
def severityRank : Option RiskLevel → ℕ
  | some .normal => 0
  | some .low => 1
  | none => 2
  | some .medium => 3
  | some .high => 4
  | some .critical => 5

/-- `_SEVERITY_EXPRESSION` on the stored text of a level. -/
def severityExpression (level : Option Str) : ℕ :=
  if level = some RiskLevel.normal.value then severityRank (some .normal)
  else if level = some RiskLevel.low.value then severityRank (some .low)
  else if level = some RiskLevel.medium.value then severityRank (some .medium)
  else if level = some RiskLevel.high.value then severityRank (some .high)
  else if level = some RiskLevel.critical.value then severityRank (some .critical)
  else severityRank none

/-- The `ORDER BY` of both eviction statements. -/
def evictionOrder (row : EventRow) : ℕ ×ₗ Str ×ₗ Str :=
  toLex (severityExpression row.level, toLex (row.ingestedAt, row.eventId))

/-- `int(max_events * _EVICT_TO_RATIO)` -/
def evictTo (maxEvents : ℤ) : ℤ :=
  (Float.Model.UnpackedFloat.mul .binary64 (Py.floatOfInt maxEvents)
    (.ofScientific .binary64 95 (-2))).toInt 0 0

def evictionTarget (maxEvents : ℤ) : ℤ := max 1 (evictTo maxEvents)

def surplus (maxEvents : ℤ) (s : EventStore) : ℤ := s.rowCount - evictionTarget maxEvents

/-- The rows the first statement reads: the ones about to go. -/
def doomed (maxEvents : ℤ) (s : EventStore) : List EventRow :=
  s.db.events.select evictionOrder (s.surplus maxEvents).toNat

def levelLabel (row : EventRow) : Str := row.level.getD (str "unscored")

/-- How many doomed rows each level has. -/
def breakdown (rows : List EventRow) : Dict ℕ :=
  rows.foldl (fun d row => d.set (levelLabel row) (d.get (levelLabel row) 0 + 1)) ∅

def breakdownJson (d : Dict ℕ) : Json := .obj (d.entries.map fun (key, n) => (key, .int n))

def sortedTimes (rows : List EventRow) : List Str :=
  (rows.map EventRow.ingestedAt).mergeSort fun a b => decide (a ≤ b)

def dropRecord (maxEvents : ℤ) (rows : List EventRow) (droppedAt : Datetime) : OverflowDrop :=
  { droppedAt := droppedAt.isoformat
    eventCount := rows.length
    oldestIngestedAt := (sortedTimes rows).headD []
    newestIngestedAt := (sortedTimes rows).getLastD []
    levelBreakdown := Json.dumps none (breakdownJson (breakdown rows))
    reason := str "row count exceeded max_events=" ++ Json.intText maxEvents }

/-- How far an eviction comes before it is cut short. -/
inductive EvictionPoint
  /-- nothing beyond the first SELECT ran -/
  | selected
  /-- the DELETE committed -/
  | deleted
  /-- the cached row count was corrected -/
  | counted
  /-- the clock was read for the record -/
  | clockRead
  /-- the record of the drop committed -/
  | recorded
deriving DecidableEq

/-- `_evict_locked`, run up to `point`. -/
def evictUpTo (point : EvictionPoint) (maxEvents : ℤ) (droppedAt : Datetime) (s : EventStore) :
    EventStore :=
  if s.surplus maxEvents ≤ 0 then s
  else
    let doomed := s.doomed maxEvents
    if doomed = [] then s
    else
      let deleted : EventStore := { s with db := { s.db with
        events := s.db.events.deleteFirst evictionOrder (s.surplus maxEvents).toNat } }
      let counted : EventStore := { deleted with rowCount := deleted.rowCount - doomed.length }
      match point with
      | .selected => s
      | .deleted => deleted
      | .counted | .clockRead => counted
      | .recorded => { counted with db := { counted.db with
          overflowDrops := counted.db.overflowDrops ++ [dropRecord maxEvents doomed droppedAt] } }

/-- `_evict_locked` -/
def evictLocked (maxEvents : ℤ) (droppedAt : Datetime) (s : EventStore) : EventStore :=
  s.evictUpTo .recorded maxEvents droppedAt

/-- The store over its cap evicts. -/
def enforceCap (env : AppendEnv) (s : EventStore) : EventStore :=
  match s.maxEvents with
  | none => s
  | some maxEvents =>
    if maxEvents < s.rowCount then s.evictLocked maxEvents env.droppedAt else s

/-- The stamped event and its row, before anything is written. -/
def prepare (event : Event) (env : AppendEnv) : Except Exc (Event × EventRow) := do
  let stamped ← event.enriched fun f => { f with ingestedAt := some env.stamp }
  let row ← EventRow.ofDict stamped.toDict
  return (stamped, row)

/-- `append` -/
def append (event : Event) (env : AppendEnv) (s : EventStore) : Except Exc Event × EventStore :=
  match prepare event env with
  | .error e => (.error e, s)
  | .ok (stamped, row) =>
    match s.db.insertEvent row with
    | .error e => (.error e, s)
    | .ok db =>
      match { s with db }.checkFreeSpaceLocked env with
      | (.error e, s) => (.error e, s)
      | (.ok (), s) =>
        (.ok stamped, { s with rowCount := s.rowCount + 1 }.enforceCap env)

end EventStore
end Ebabf
