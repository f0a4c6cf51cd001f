import Ebabf.Collectors.AuthLog
import Ebabf.Py.JsonRoundTrip
import Ebabf.Py.Lines
import Ebabf.Py.Utc
import Ebabf.Schema.Event

/-!
# Authentication sources

Where authentication records come from: the journal, a log file, or nowhere. A source returns a
list, also when it could not be read. How deep the JSON decoder may still recurse is an argument.
-/

namespace Ebabf

open Py (Str str Exc Datetime Json valueError)

/-- The microseconds of a float of seconds, the part below a second rounded half to even. -/
def microsecondsOf (x : Float) : Option ℤ :=
  (Py.exactRatio x).map fun seconds =>
    let whole : ℤ := seconds.num.tdiv seconds.den
    let fraction := (Py.exactRatio (Py.floatOfRatio (seconds - whole) * 1000000.0)).getD 0
    let rounded : ℤ := Py.roundHalfEven fraction.num.natAbs fraction.den
    whole * 1000000 + (if fraction.num < 0 then -rounded else rounded : ℤ)

/-- The instant of `datetime.fromtimestamp(x, tz=timezone.utc)`; the year that is out of range is
left out of the message. -/
def fromtimestamp (x : Float) : Except Exc ℤ :=
  match microsecondsOf x with
  | none =>
    if x.isNaN then .error (valueError (str "cannot convert float NaN to integer"))
    else .error ⟨Py.overflowError, str "cannot convert float infinity to integer"⟩
  | some microseconds =>
    let instant := Datetime.epoch.instant + microseconds
    if Datetime.InCalendar instant then .ok instant
    else .error (valueError (str "year is out of range"))

/-- `strftime("%Y-%m-%d %H:%M:%S")` says no more of an instant than its second. -/
def wholeSecond (instant : ℤ) : ℤ := instant / 1000000 * 1000000

/-- How `subprocess.run(…, text=True)` ends: with an `OSError` or a `SubprocessError`, with output
that does not decode, or with the process. -/
inductive ProcessRun
  | failed
  | undecodable
  | exited (returncode : ℤ) (stdout : Str)

/-- What a read meets: `journalctl` for each second it is asked for, and the files, of which some
raise `OSError`. -/
structure AuthRecords where
  journalctl : ℤ → ProcessRun
  readText : Str → Option Str

inductive AuthSource
  | null
  | journald
  | logFile (path : Option Str)
deriving DecidableEq

namespace AuthSource

def name : AuthSource → Str
  | .null => str "none"
  | .journald => str "journald"
  | .logFile _ => str "auth_log_file"

end AuthSource

namespace JournaldAuthSource

/-- `int(micros) / 1_000_000 if micros else since` -/
def momentOf (since : Float) (micros : Json) : Except Exc Float :=
  if isTruthy micros then (Py.intOf micros).bind fun n => Py.floatOfFraction (n / 1000000)
  else .ok since

/-- `record.get("MESSAGE") or ""` -/
def messageOf (record : List (Str × Json)) : Json :=
  let message := Json.get (str "MESSAGE") record
  if isTruthy message then message else .str []

/-- `pattern.search` takes a text. -/
def parseMessage (moment : Float) : Json → Except Exc (List AuthEvent)
  | .str line => .ok (parseAuthLine line moment)
  | other => .error ⟨.typeError,
      str "expected string or bytes-like object, got '" ++ other.typeName ++ str "'"⟩

/-- What one line of output adds: `ValueError` is caught while decoding, nothing is after it. -/
def readLine (limit : ℕ) (since : Float) (line : Str) : Except Exc (List AuthEvent) :=
  match Json.loads limit line with
  | .ok (.obj record) =>
    (momentOf since (Json.get (str "__REALTIME_TIMESTAMP") record)).bind fun moment =>
      parseMessage moment (messageOf record)
  | .ok other => .error ⟨.attributeError,
      str "'" ++ other.typeName ++ str "' object has no attribute 'get'"⟩
  | .error .recursion => .error ⟨.recursionError, str "maximum recursion depth exceeded"⟩
  | .error _ => .ok []

def readLines (limit : ℕ) (since : Float) : List Str → Except Exc (List AuthEvent)
  | [] => .ok []
  | line :: lines => do
    let events ← readLine limit since line
    let rest ← readLines limit since lines
    return events ++ rest

/-- `JournaldAuthSource.read_since` -/
def readSince (limit : ℕ) (records : AuthRecords) (since : Float) : Except Exc (List AuthEvent) :=
  match fromtimestamp since with
  | .error e => .error e
  | .ok instant =>
    match records.journalctl (wholeSecond instant) with
    | .failed => .ok []
    | .undecodable => .error ⟨.other (str "UnicodeDecodeError"), str "invalid start byte"⟩
    | .exited returncode stdout =>
      if returncode ≠ 0 then .ok [] else readLines limit since (Py.splitlines stdout)

end JournaldAuthSource

/-- `AuthLogFileSource.read_since` -/
def AuthLogFileSource.readSince (path : Option Str) (records : AuthRecords) (since : Float) :
    List AuthEvent :=
  match path.bind records.readText with
  | none => []
  | some text => (Py.splitlines text).flatMap fun line => parseAuthLine line since

/-- `read_since` -/
def AuthSource.readSince (limit : ℕ) (records : AuthRecords) (since : Float) :
    AuthSource → Except Exc (List AuthEvent)
  | .null => .ok []
  | .journald => JournaldAuthSource.readSince limit records since
  | .logFile path => .ok (AuthLogFileSource.readSince path records since)

namespace JournaldAuthSource

/-- What `read_since` gets of `journalctl`, if the cutoff has a stamp. -/
def answer (records : AuthRecords) (since : Float) : Except Exc ProcessRun :=
  (fromtimestamp since).map fun instant => records.journalctl (wholeSecond instant)

theorem readSince_eq (limit : ℕ) (records : AuthRecords) (since : Float) :
    readSince limit records since = (answer records since).bind fun run =>
      match run with
      | .failed => .ok []
      | .undecodable => .error ⟨.other (str "UnicodeDecodeError"), str "invalid start byte"⟩
      | .exited returncode stdout =>
        if returncode ≠ 0 then .ok [] else readLines limit since (Py.splitlines stdout) := by
  unfold readSince answer
  cases fromtimestamp since with
  | error e => rfl
  | ok instant => rfl

/-- The events of a line that is an object with a text as its message and a timestamp that is
usable or absent. -/
def eventsOf (limit : ℕ) (since : Float) (line : Str) : List AuthEvent :=
  match Json.loads limit line with
  | .ok (.obj record) =>
    match Json.get (str "MESSAGE") record,
      momentOf since (Json.get (str "__REALTIME_TIMESTAMP") record) with
    | .str text, .ok moment => parseAuthLine text moment
    | _, _ => []
  | _ => []

/-- A value that `int(value) / 1_000_000` is defined for. -/
def Usable (micros : Json) : Prop :=
  ∃ n moment, Py.intOf micros = .ok n ∧ Py.floatOfFraction (n / 1000000) = .ok moment

/-- A line that is no JSON, or an object without the two values that the loop trips over: a message
that is neither a text nor empty, and a timestamp that is neither usable nor empty. -/
def Harmless (limit : ℕ) (line : Str) : Prop :=
  Json.loads limit line = .error .invalid ∨
    ∃ record, Json.loads limit line = .ok (.obj record) ∧
      (isTruthy (Json.get (str "MESSAGE") record) = true →
        ∃ text, Json.get (str "MESSAGE") record = .str text) ∧
      (isTruthy (Json.get (str "__REALTIME_TIMESTAMP") record) = true →
        Usable (Json.get (str "__REALTIME_TIMESTAMP") record))

theorem momentOf_ok_iff {since : Float} {micros : Json} :
    (∃ moment, momentOf since micros = .ok moment) ↔ (isTruthy micros = true → Usable micros) := by
  unfold momentOf Usable
  split_ifs with htruthy
  · cases hint : Py.intOf micros with
    | error e => simp [htruthy, Except.bind]
    | ok n => simp [htruthy, Except.bind]
  · simp [htruthy]

theorem parseAuthLine_nil (moment : Float) : parseAuthLine [] moment = [] := by
  have hfailed : failedUser [] = none := by decide +kernel
  have hsudo : sudoUser [] = none := by decide +kernel
  rw [parseAuthLine, hfailed, hsudo]
  rfl

theorem messageOf_cases (record : List (Str × Json)) :
    messageOf record = Json.get (str "MESSAGE") record ∧
        isTruthy (Json.get (str "MESSAGE") record) = true ∨
      messageOf record = .str [] ∧ isTruthy (Json.get (str "MESSAGE") record) = false := by
  unfold messageOf
  cases htruthy : isTruthy (Json.get (str "MESSAGE") record)
  · exact .inr ⟨by simp [htruthy], rfl⟩
  · exact .inl ⟨by simp [htruthy], rfl⟩

theorem readLine_of_harmless {limit : ℕ} {line : Str} (h : Harmless limit line) (since : Float) :
    readLine limit since line = .ok (eventsOf limit since line) := by
  rcases h with hinvalid | ⟨record, hrecord, hmessage, hstamp⟩
  · rw [readLine, eventsOf, hinvalid]
  · obtain ⟨moment, hmoment⟩ := (@momentOf_ok_iff since _).mpr hstamp
    rw [readLine, eventsOf, hrecord]
    dsimp only
    rw [hmoment]
    rcases messageOf_cases record with ⟨heq, htruthy⟩ | ⟨heq, hfalsy⟩
    · obtain ⟨text, htext⟩ := hmessage htruthy
      rw [heq, htext]
      rfl
    · rw [heq]
      have hempty : ∀ text, Json.get (str "MESSAGE") record = .str text → text = [] := by
        intro text htext
        rw [htext] at hfalsy
        simpa [isTruthy] using hfalsy
      cases hvalue : Json.get (str "MESSAGE") record with
      | str text =>
        rw [hempty text hvalue]
        rfl
      | _ =>
        simp only [Except.bind, parseMessage, parseAuthLine_nil]

theorem readLine_of_not_harmless {limit : ℕ} {line : Str} (h : ¬Harmless limit line)
    (since : Float) : ∃ e, readLine limit since line = .error e := by
  unfold readLine
  cases hloads : Json.loads limit line with
  | error e =>
    cases e with
    | invalid => exact absurd (.inl hloads) h
    | recursion => exact ⟨_, rfl⟩
    | outOfFuel => exact absurd hloads (Json.loads_ne_outOfFuel limit line)
  | ok value =>
    cases value with
    | obj record =>
      dsimp only
      cases hmoment : momentOf since (Json.get (str "__REALTIME_TIMESTAMP") record) with
      | error e => exact ⟨e, rfl⟩
      | ok moment =>
        have hstamp := momentOf_ok_iff.mp ⟨moment, hmoment⟩
        have hmessage : ¬ (isTruthy (Json.get (str "MESSAGE") record) = true →
            ∃ text, Json.get (str "MESSAGE") record = .str text) :=
          fun hmessage => h (.inr ⟨record, hloads, hmessage, hstamp⟩)
        rw [Classical.not_imp] at hmessage
        obtain ⟨htruthy, htext⟩ := hmessage
        rcases messageOf_cases record with ⟨heq, -⟩ | ⟨-, hfalsy⟩
        · rw [heq]
          cases hvalue : Json.get (str "MESSAGE") record with
          | str text => exact absurd ⟨text, hvalue⟩ htext
          | _ => exact ⟨_, rfl⟩
        · rw [htruthy] at hfalsy
          cases hfalsy
    | _ => exact ⟨_, rfl⟩

theorem readLines_of_harmless {limit : ℕ} {lines : List Str}
    (h : ∀ line ∈ lines, Harmless limit line) (since : Float) :
    readLines limit since lines = .ok (lines.flatMap (eventsOf limit since)) := by
  induction lines with
  | nil => rfl
  | cons line lines ih =>
    obtain ⟨hline, hlines⟩ := List.forall_mem_cons.mp h
    rw [readLines, readLine_of_harmless hline, ih hlines]
    rfl

theorem readLines_of_not_harmless {limit : ℕ} {lines : List Str}
    (h : ¬∀ line ∈ lines, Harmless limit line) (since : Float) :
    ∃ e, readLines limit since lines = .error e := by
  induction lines with
  | nil => exact absurd (List.forall_mem_nil _) h
  | cons line lines ih =>
    rw [readLines]
    by_cases hline : Harmless limit line
    · have hlines : ¬∀ line ∈ lines, Harmless limit line :=
        fun hlines => h (List.forall_mem_cons.mpr ⟨hline, hlines⟩)
      obtain ⟨e, he⟩ := ih hlines
      rw [readLine_of_harmless hline, he]
      exact ⟨e, rfl⟩
    · obtain ⟨e, he⟩ := readLine_of_not_harmless hline since
      rw [he]
      exact ⟨e, rfl⟩

/-- A successful run of `journalctl` is read to its end, each line for itself, if and only if
every line is harmless. -/
theorem readSince_concat_iff {limit : ℕ} {records : AuthRecords} {since : Float} {instant : ℤ}
    {stdout : Str} (hsince : fromtimestamp since = .ok instant)
    (hrun : records.journalctl (wholeSecond instant) = .exited 0 stdout) :
    readSince limit records since =
        .ok ((Py.splitlines stdout).flatMap (eventsOf limit since)) ↔
      ∀ line ∈ Py.splitlines stdout, Harmless limit line := by
  have hanswer : answer records since = .ok (.exited 0 stdout) := by
    rw [answer, hsince, ← hrun]
    rfl
  have hread : readSince limit records since =
      readLines limit since (Py.splitlines stdout) := by
    rw [readSince_eq, hanswer]
    rfl
  rw [hread]
  constructor
  · intro h
    by_contra hbad
    obtain ⟨e, he⟩ := readLines_of_not_harmless hbad since
    rw [he] at h
    cases h
  · exact fun h => readLines_of_harmless h since

def printing (stdout : Str) : AuthRecords where
  journalctl _ := .exited 0 stdout
  readText _ := none

theorem fromtimestamp_zero : fromtimestamp 0.0 = .ok Datetime.epoch.instant := by
  decide +kernel

/-- Two lines of which only the second is JSON. -/
theorem readSince_concat_iff_two :
    readSince 1000 (printing (str "not json\n\x7b\x7d\n")) 0.0 =
        .ok ((Py.splitlines (str "not json\n\x7b\x7d\n")).flatMap (eventsOf 1000 0.0)) ↔
      ∀ line ∈ Py.splitlines (str "not json\n\x7b\x7d\n"), Harmless 1000 line :=
  readSince_concat_iff fromtimestamp_zero rfl

/-- One record whose message is an array makes the read raise. -/
theorem not_readSince_concat :
    ¬ ∀ (limit : ℕ) (records : AuthRecords) (since : Float) (instant : ℤ) (stdout : Str),
      fromtimestamp since = .ok instant →
      records.journalctl (wholeSecond instant) = .exited 0 stdout →
      readSince limit records since =
        .ok ((Py.splitlines stdout).flatMap (eventsOf limit since)) := by
  intro h
  have hread := h 1000 (printing (str "\x7b\"MESSAGE\": [255]\x7d\n")) 0.0 _ _ fromtimestamp_zero rfl
  have hraises : (readSince 1000 (printing (str "\x7b\"MESSAGE\": [255]\x7d\n")) 0.0).isOk = false := by
    decide +kernel
  rw [hread] at hraises
  cases hraises

end JournaldAuthSource

namespace AuthSource

/-- The read fails, and the source answers as if there had been nothing to read: `journalctl` does
not run, or exits with an error, or the file does not open. -/
def Swallows (records : AuthRecords) (since : Float) : AuthSource → Prop
  | .null => False
  | .journald => JournaldAuthSource.answer records since = .ok .failed ∨
      ∃ returncode stdout, returncode ≠ 0 ∧
        JournaldAuthSource.answer records since = .ok (.exited returncode stdout)
  | .logFile path => path.bind records.readText = none

/-- The read fails with an exception that nothing catches. -/
def Raises (limit : ℕ) (records : AuthRecords) (since : Float) : AuthSource → Prop
  | .null => False
  | .journald => (∃ e, JournaldAuthSource.answer records since = .error e) ∨
      JournaldAuthSource.answer records since = .ok .undecodable ∨
      ∃ stdout, JournaldAuthSource.answer records since = .ok (.exited 0 stdout) ∧
        ¬∀ line ∈ Py.splitlines stdout, JournaldAuthSource.Harmless limit line
  | .logFile _ => False

variable {limit : ℕ} {records : AuthRecords} {since : Float} {source : AuthSource}

theorem readSince_of_swallows (h : source.Swallows records since) :
    source.readSince limit records since = .ok [] := by
  cases source with
  | null => cases h
  | journald =>
    rw [AuthSource.readSince, JournaldAuthSource.readSince_eq]
    rcases h with h | ⟨returncode, stdout, hcode, h⟩
    · rw [h]
      rfl
    · rw [h]
      exact if_pos hcode
  | logFile path =>
    have hnone : path.bind records.readText = none := h
    rw [AuthSource.readSince, AuthLogFileSource.readSince, hnone]

theorem readSince_of_raises (h : source.Raises limit records since) :
    ∃ e, source.readSince limit records since = .error e := by
  cases source with
  | null => cases h
  | journald =>
    rw [AuthSource.readSince, JournaldAuthSource.readSince_eq]
    rcases h with ⟨e, h⟩ | h | ⟨stdout, h, hbad⟩
    · rw [h]
      exact ⟨e, rfl⟩
    · rw [h]
      exact ⟨_, rfl⟩
    · rw [h]
      exact JournaldAuthSource.readLines_of_not_harmless hbad since
  | logFile path => cases h

theorem mem_readLine {line : Str} {events : List AuthEvent}
    (h : JournaldAuthSource.readLine limit since line = .ok events) :
    ∀ event ∈ events, ∃ line moment, event ∈ parseAuthLine line moment := by
  intro event hevent
  by_cases hharmless : JournaldAuthSource.Harmless limit line
  · rw [JournaldAuthSource.readLine_of_harmless hharmless] at h
    cases h
    unfold JournaldAuthSource.eventsOf at hevent
    split at hevent
    · split at hevent
      · exact ⟨_, _, hevent⟩
      · cases hevent
    · cases hevent
  · obtain ⟨e, he⟩ := JournaldAuthSource.readLine_of_not_harmless hharmless since
    rw [he] at h
    cases h

theorem mem_readLines {lines : List Str} {events : List AuthEvent}
    (h : JournaldAuthSource.readLines limit since lines = .ok events) :
    ∀ event ∈ events, ∃ line moment, event ∈ parseAuthLine line moment := by
  induction lines generalizing events with
  | nil =>
    cases h
    exact List.forall_mem_nil _
  | cons line lines ih =>
    rw [JournaldAuthSource.readLines, Py.bind_eq_ok] at h
    obtain ⟨first, hfirst, h⟩ := h
    rw [Py.bind_eq_ok] at h
    obtain ⟨rest, hrest, h⟩ := h
    cases h
    exact List.forall_mem_append.mpr ⟨mem_readLine hfirst, ih hrest⟩

theorem mem_readSince {events : List AuthEvent}
    (h : source.readSince limit records since = .ok events) :
    ∀ event ∈ events, ∃ line moment, event ∈ parseAuthLine line moment := by
  cases source with
  | null =>
    cases h
    exact List.forall_mem_nil _
  | journald =>
    rw [AuthSource.readSince, JournaldAuthSource.readSince_eq] at h
    cases hanswer : JournaldAuthSource.answer records since with
    | error e =>
      rw [hanswer] at h
      cases h
    | ok run =>
      rw [hanswer] at h
      cases run with
      | failed =>
        cases h
        exact List.forall_mem_nil _
      | undecodable => cases h
      | exited returncode stdout =>
        rw [Except.bind] at h
        dsimp only at h
        split_ifs at h with hcode
        · cases h
          exact List.forall_mem_nil _
        · exact mem_readLines h
  | logFile path =>
    cases h
    intro event hevent
    unfold AuthLogFileSource.readSince at hevent
    split at hevent
    · cases hevent
    · obtain ⟨line, -, hmem⟩ := List.mem_flatMap.mp hevent
      exact ⟨line, since, hmem⟩

end AuthSource
end Ebabf
