import Ebabf.Collectors.AuthSources
import Ebabf.Collectors.FileMonitor

/-!
# The user activity collector

A sweep reads the authentication records since the sweep before it, counts them by user, and
yields one event for each session and one for each user with failed logins and no session. An
event is yielded together with the subject it was built for.
-/

namespace Ebabf

open Py (Str str Exc Datetime Json Dict Proc)

/-- An entry of `psutil.users()`, and what `time.time()` says when its turn comes. -/
structure Session where
  name : Str
  terminal : Option Str
  host : Option Str
  started : Float
  clock : Float

/-- What a sweep meets; the session table may not be readable. -/
structure Readings where
  records : AuthRecords
  users : Option (List Session)

structure UserActivity where
  context : CollectorContext
  auth : AuthSource
  lastRead : Option Float

/-- An event and the user it was built for. -/
structure UserReport where
  subject : Str
  event : Event

/-- `counter[username] += 1` -/
def countUser (counter : Dict ℕ) (username : Str) : Dict ℕ :=
  counter.set username (counter.get username 0 + 1)

/-- One record counts in one of the two counters. -/
def tally (counters : Dict ℕ × Dict ℕ) (record : AuthEvent) : Dict ℕ × Dict ℕ :=
  match record.kind with
  | .failedAuth => (countUser counters.1 record.username, counters.2)
  | .sudo => (counters.1, countUser counters.2 record.username)

/-- The counters of failed logins and of uses of `sudo`. -/
def countersOf (records : List AuthEvent) : Dict ℕ × Dict ℕ := records.foldl tally (∅, ∅)

namespace UserActivity

/-- `self._last_read if self._last_read is not None else now.timestamp() - 3600` -/
def cutoff (m : UserActivity) : Float :=
  m.lastRead.getD (timestampOf (m.context.readings 0) - 3600.0)

/-- The collector once the clock is read; the cutoff moves before anything else does. -/
def clocked (m : UserActivity) : UserActivity :=
  { m with
    context := { m.context with readings := fun n => m.context.readings (n + 1) }
    lastRead := some (timestampOf (m.context.readings 0)) }

def authAvailable (m : UserActivity) : Bool := m.auth != .null

def countOrNull (available : Bool) (count : ℕ) : Json := if available then .int count else .null

def textOrNull (text : Option Str) : Json := (text.map Json.str).getD .null

/-- `round(time.time() - session.started, 3) if session.started else None` -/
def sessionDuration (session : Session) : Json :=
  if session.started != 0.0 then .float (Py.roundThousandths (session.clock - session.started))
  else .null

/-- `bool(session.host and session.host not in {"", ":0"})` -/
def isRemote (session : Session) : Bool :=
  match session.host with
  | none => false
  | some host => host != [] && host != str ":0"

/-- The attributes of the event of a session. -/
def describeSession (m : UserActivity) (now : Datetime) (counters : Dict ℕ × Dict ℕ)
    (session : Session) : Mapping :=
  Dict.ofPairs
    [(str "activity_hour", .json (.int now.hour)),
     (str "failed_auth_count",
       .json (countOrNull m.authAvailable (counters.1.get session.name 0))),
     (str "sudo_usage_pattern",
       .json (countOrNull m.authAvailable (counters.2.get session.name 0))),
     (str "session_duration", .json (sessionDuration session)),
     (str "session_terminal", .json (textOrNull session.terminal)),
     (str "session_is_remote", .json (.bool (isRemote session))),
     (str "auth_source", .json (.str m.auth.name)),
     (str "auth_log_readable", .json (.bool m.authAvailable))]

/-- The attributes of the event of a user with failed logins and no session. -/
def describeAbsent (m : UserActivity) (now : Datetime) (counters : Dict ℕ × Dict ℕ)
    (username : Str) (count : ℕ) : Mapping :=
  Dict.ofPairs
    [(str "activity_hour", .json (.int now.hour)),
     (str "failed_auth_count", .json (.int count)),
     (str "sudo_usage_pattern", .json (.int (counters.2.get username 0 : ℕ))),
     (str "session_duration", .json .null),
     (str "session_terminal", .json .null),
     (str "session_is_remote", .json .null),
     (str "auth_source", .json (.str m.auth.name)),
     (str "auth_log_readable", .json (.bool true))]

/-- The sessions that have a name; an unreadable table has none. -/
def namedSessions (s : Readings) : List Session :=
  (s.users.getD []).filter fun session => session.name != []

/-- The users with failed logins whom no session has been seen of. -/
def absentUsers (s : Readings) (failed : Dict ℕ) : List (Str × ℕ) :=
  failed.entries.filter fun entry => entry.1 ∉ (namedSessions s).map Session.name

/-- For whom events are built, and with which attributes: the sessions, then the absent users. -/
def plan (m : UserActivity) (now : Datetime) (s : Readings) (counters : Dict ℕ × Dict ℕ) :
    List (Str × Mapping) :=
  ((namedSessions s).map fun session =>
    (session.name, describeSession m now counters session)) ++
  if m.authAvailable then
    (absentUsers s counters.1).map fun entry =>
      (entry.1, describeAbsent m now counters entry.1 entry.2)
  else []

/-- `self._build_event(subject=…, raw_attributes=…)` -/
def build (subject : Str) (rawAttributes : Mapping) : Proc UserReport UserActivity Event := fun m =>
  let built := Collector.buildEvent .user subject rawAttributes none m.context
  ⟨built.outcome, [], { m with context := built.state }⟩

/-- The events in turn, until one cannot be built. -/
def yieldEvents : List (Str × Mapping) → Proc UserReport UserActivity Unit
  | [] => pure ()
  | (subject, rawAttributes) :: rest => do
    let event ← build subject rawAttributes
    Proc.emit ⟨subject, event⟩
    yieldEvents rest

/-- `collect` -/
def collect (limit : ℕ) (s : Readings) : Proc UserReport UserActivity Unit := fun m =>
  let now := m.context.readings 0
  match m.auth.readSince limit s.records m.cutoff with
  | .error e => ⟨.error e, [], m.clocked⟩
  | .ok records => yieldEvents (m.plan now s (countersOf records)) m.clocked

end UserActivity

theorem get?_countUser (users : List Str) (user : Str) :
    (users.foldl countUser ∅).get? user =
      if user ∈ users then some (users.count user) else none := by
  induction users using List.reverseRecOn with
  | nil => rfl
  | append_singleton users last ih =>
    rw [List.foldl_append, List.foldl_cons, List.foldl_nil, countUser, Dict.get?_set]
    by_cases hlast : user = last
    · subst hlast
      have hcount : (users.foldl countUser ∅).get user 0 = users.count user := by
        rw [Dict.get, ← Dict.get?, ih]
        split_ifs with hmem
        · rfl
        · exact (List.count_eq_zero.mpr hmem).symm
      simp [hcount]
    · have hne : last ≠ user := fun heq => hlast heq.symm
      simp [ih, hlast, List.count_append, hne]

theorem get_countUser (users : List Str) (user : Str) :
    (users.foldl countUser ∅).get user 0 = users.count user := by
  rw [Dict.get, ← Dict.get?, get?_countUser]
  split_ifs with hmem
  · rfl
  · exact (List.count_eq_zero.mpr hmem).symm

theorem usersOf_concat (kind : AuthKind) (records : List AuthEvent) (record : AuthEvent) :
    usersOf kind (records ++ [record]) =
      if record.kind = kind then usersOf kind records ++ [record.username]
      else usersOf kind records := by
  unfold usersOf
  split_ifs with h
  · simp [h]
  · simp [h]

/-- Each counter counts the users of its kind of records. -/
theorem countersOf_eq (records : List AuthEvent) :
    countersOf records = ((usersOf .failedAuth records).foldl countUser ∅,
      (usersOf .sudo records).foldl countUser ∅) := by
  induction records using List.reverseRecOn with
  | nil => rfl
  | append_singleton records record ih =>
    rw [countersOf, List.foldl_append, List.foldl_cons, List.foldl_nil, ← countersOf, ih,
      usersOf_concat, usersOf_concat, tally]
    cases hkind : record.kind <;> simp [List.foldl_append]

namespace UserActivity

theorem build_eq (subject : Str) (rawAttributes : Mapping) (m : UserActivity) :
    build subject rawAttributes m =
      ⟨(Collector.buildEvent .user subject rawAttributes none m.context).outcome, [],
        { m with context :=
            (Collector.buildEvent .user subject rawAttributes none m.context).state }⟩ := rfl

theorem yieldEvents_error {subject : Str} {rawAttributes : Mapping} {rest : List (Str × Mapping)}
    {m : UserActivity} {e : Exc} (h : (build subject rawAttributes m).outcome = .error e) :
    yieldEvents ((subject, rawAttributes) :: rest) m =
      ⟨.error e, [], (build subject rawAttributes m).state⟩ := by
  rw [yieldEvents, Proc.bind_of_error h]
  rfl

theorem yieldEvents_ok {subject : Str} {rawAttributes : Mapping} {rest : List (Str × Mapping)}
    {m : UserActivity} {event : Event} (h : (build subject rawAttributes m).outcome = .ok event) :
    yieldEvents ((subject, rawAttributes) :: rest) m =
      let ran := yieldEvents rest (build subject rawAttributes m).state
      ⟨ran.outcome, ⟨subject, event⟩ :: ran.trace, ran.state⟩ := by
  rw [yieldEvents, Proc.bind_of_ok h, Proc.bind_of_ok rfl]
  rfl

theorem yieldEvents_frame (plan : List (Str × Mapping)) : ∀ m : UserActivity,
    (yieldEvents plan m).state.auth = m.auth ∧ (yieldEvents plan m).state.lastRead = m.lastRead ∧
      m.context.Extends (yieldEvents plan m).state.context := by
  induction plan with
  | nil => exact fun m => ⟨rfl, rfl, .refl _⟩
  | cons entry rest ih =>
    intro m
    obtain ⟨subject, rawAttributes⟩ := entry
    have hextends := Collector.extends_buildEvent .user subject rawAttributes none m.context
    cases hbuild : (build subject rawAttributes m).outcome with
    | error e =>
      rw [yieldEvents_error hbuild]
      exact ⟨rfl, rfl, hextends⟩
    | ok event =>
      rw [yieldEvents_ok hbuild]
      obtain ⟨hauth, hlast, hrest⟩ := ih (build subject rawAttributes m).state
      exact ⟨hauth, hlast, hextends.trans hrest⟩

/-- What an event tells besides its subject. -/
def told (report : UserReport) : Str × Mapping :=
  (report.subject, report.event.fields.rawAttributes)

/-- The event carries the pseudonym of the subject it was built for. -/
def IsAbout (c : CollectorContext) (report : UserReport) : Prop :=
  c.forward.get? report.subject = some report.event.fields.subjectPseudonym

theorem yieldEvents_of_dependable {plan : List (Str × Mapping)}
    (hsubjects : ∀ entry ∈ plan, entry.1 ≠ []) : ∀ {m : UserActivity}, m.context.Dependable →
      (yieldEvents plan m).outcome = .ok () ∧ (yieldEvents plan m).trace.map told = plan ∧
        ∀ report ∈ (yieldEvents plan m).trace, IsAbout (yieldEvents plan m).state.context report := by
  induction plan with
  | nil => exact fun h => ⟨rfl, rfl, List.forall_mem_nil _⟩
  | cons entry rest ih =>
    intro m h
    obtain ⟨subject, rawAttributes⟩ := entry
    obtain ⟨hsubject, hrest⟩ := List.forall_mem_cons.mp hsubjects
    have hnow : ∀ t ∈ (none : Option Datetime), t.utcoffset ≠ none := fun t ht => nomatch ht
    obtain ⟨hstate, event, hevent⟩ :=
      Collector.buildEvent_of_dependable_getD h .user hsubject rawAttributes hnow
    have hbuild : (build subject rawAttributes m).outcome = .ok event := hevent
    obtain ⟨hok, htold, habout⟩ := ih hrest (m := (build subject rawAttributes m).state) hstate
    obtain ⟨hattributes, hpseudonym⟩ := Collector.fields_of_buildEvent hevent
    rw [yieldEvents_ok hbuild]
    refine ⟨hok, ?_, ?_⟩
    · rw [List.map_cons, htold, told, hattributes]
    · refine List.forall_mem_cons.mpr ⟨?_, habout⟩
      exact (yieldEvents_frame rest (build subject rawAttributes m).state).2.2 _ _ hpseudonym

/-- A sweep whose read raises yields nothing; the cutoff moves all the same. -/
theorem collect_of_error {limit : ℕ} {s : Readings} {m : UserActivity} {e : Exc}
    (h : m.auth.readSince limit s.records m.cutoff = .error e) :
    collect limit s m = ⟨.error e, [], m.clocked⟩ := by
  rw [collect, h]

theorem collect_of_ok {limit : ℕ} {s : Readings} {m : UserActivity} {records : List AuthEvent}
    (h : m.auth.readSince limit s.records m.cutoff = .ok records) :
    collect limit s m =
      yieldEvents (m.plan (m.context.readings 0) s (countersOf records)) m.clocked := by
  rw [collect, h]

theorem collect_frame (limit : ℕ) (s : Readings) (m : UserActivity) :
    (collect limit s m).state.auth = m.auth ∧
      (collect limit s m).state.lastRead = some (timestampOf (m.context.readings 0)) := by
  cases hread : m.auth.readSince limit s.records m.cutoff with
  | error e =>
    rw [collect_of_error hread]
    exact ⟨rfl, rfl⟩
  | ok records =>
    rw [collect_of_ok hread]
    have hframe := yieldEvents_frame (m.plan (m.context.readings 0) s (countersOf records))
      m.clocked
    exact ⟨hframe.1, hframe.2.1⟩

theorem cutoff_collect (limit : ℕ) (s : Readings) (m : UserActivity) :
    (collect limit s m).state.cutoff = timestampOf (m.context.readings 0) := by
  rw [cutoff, (collect_frame limit s m).2]
  rfl

theorem auth_collect (limit : ℕ) (s : Readings) (m : UserActivity) :
    (collect limit s m).state.auth = m.auth := (collect_frame limit s m).1

theorem dependable_clocked {m : UserActivity} (h : m.context.Dependable) :
    m.clocked.context.Dependable := h.clock

theorem name_ne_nil_of_mem {s : Readings} {session : Session} (h : session ∈ namedSessions s) :
    session.name ≠ [] := by
  simpa using (List.mem_filter.mp h).2

theorem subject_ne_nil {m : UserActivity} {now : Datetime} {s : Readings}
    {counters : Dict ℕ × Dict ℕ} (hfailed : ∀ entry ∈ counters.1.entries, entry.1 ≠ []) :
    ∀ entry ∈ m.plan now s counters, entry.1 ≠ [] := by
  intro entry hentry
  rw [plan, List.mem_append] at hentry
  rcases hentry with hentry | hentry
  · obtain ⟨session, hsession, rfl⟩ := List.mem_map.mp hentry
    exact name_ne_nil_of_mem hsession
  · split_ifs at hentry
    · obtain ⟨absent, habsent, rfl⟩ := List.mem_map.mp hentry
      exact hfailed absent (List.mem_filter.mp habsent).1
    · cases hentry

/-- A sweep that reads its records yields the planned events. -/
theorem collect_of_dependable {limit : ℕ} {s : Readings} {m : UserActivity}
    {records : List AuthEvent} (h : m.context.Dependable)
    (hread : m.auth.readSince limit s.records m.cutoff = .ok records) :
    (collect limit s m).trace.map told = m.plan (m.context.readings 0) s (countersOf records) ∧
      ∀ report ∈ (collect limit s m).trace, IsAbout (collect limit s m).state.context report := by
  have hfailed : ∀ entry ∈ (countersOf records).1.entries, entry.1 ≠ [] := by
    intro entry hentry
    have hcount : (countersOf records).1.get? entry.1 = some entry.2 := Dict.get?_eq_some.mpr hentry
    rw [countersOf_eq, get?_countUser] at hcount
    split_ifs at hcount with hmem
    obtain ⟨record, hrecord, hname⟩ := List.mem_map.mp hmem
    rw [← hname]
    obtain ⟨line, moment, htold⟩ :=
      AuthSource.mem_readSince hread record (List.mem_filter.mp hrecord).1
    exact username_ne_nil htold
  rw [collect_of_ok hread]
  exact (yieldEvents_of_dependable (subject_ne_nil hfailed) (dependable_clocked h)).2

theorem report_of_plan {limit : ℕ} {s : Readings} {m : UserActivity}
    {records : List AuthEvent} (h : m.context.Dependable)
    (hread : m.auth.readSince limit s.records m.cutoff = .ok records) {entry : Str × Mapping}
    (hentry : entry ∈ m.plan (m.context.readings 0) s (countersOf records)) :
    ∃ report ∈ (collect limit s m).trace,
      IsAbout (collect limit s m).state.context report ∧ told report = entry := by
  obtain ⟨htold, habout⟩ := collect_of_dependable h hread
  rw [← htold] at hentry
  obtain ⟨report, hreport, heq⟩ := List.mem_map.mp hentry
  exact ⟨report, hreport, habout report hreport, heq⟩

theorem mem_plan_of_session {m : UserActivity} {now : Datetime} {s : Readings}
    {counters : Dict ℕ × Dict ℕ} {session : Session} (h : session ∈ namedSessions s) :
    (session.name, describeSession m now counters session) ∈ m.plan now s counters :=
  List.mem_append_left _ (List.mem_map_of_mem h)

/-- The event says that the counts are not known. -/
def TellsUnknown (rawAttributes : Mapping) : Prop :=
  rawAttributes.get? (str "failed_auth_count") = some (.json .null) ∧
    rawAttributes.get? (str "sudo_usage_pattern") = some (.json .null) ∧
    rawAttributes.get? (str "auth_log_readable") = some (.json (.bool false))

theorem not_tellsUnknown_describeSession {m : UserActivity} (havailable : m.authAvailable = true)
    (now : Datetime) (counters : Dict ℕ × Dict ℕ) (session : Session) :
    ¬TellsUnknown (describeSession m now counters session) := by
  intro h
  have hreadable : (describeSession m now counters session).get? (str "auth_log_readable") =
      some (.json (.bool m.authAvailable)) := rfl
  rw [TellsUnknown, hreadable, havailable] at h
  cases h.2.2

theorem authAvailable_of_swallows {s : Readings} {m : UserActivity}
    (h : m.auth.Swallows s.records m.cutoff) : m.authAvailable = true := by
  unfold authAvailable
  cases hauth : m.auth with
  | null =>
    rw [hauth] at h
    cases h
  | journald => rfl
  | logFile path => rfl

/-- A read that is swallowed leaves the events of the sessions, which do not tell of it. -/
theorem tellsUnknown_of_swallows_iff {limit : ℕ} {s : Readings} {m : UserActivity}
    (h : m.context.Dependable) (hswallows : m.auth.Swallows s.records m.cutoff) :
    (∀ report ∈ (collect limit s m).trace, TellsUnknown report.event.fields.rawAttributes) ↔
      namedSessions s = [] := by
  have hread : m.auth.readSince limit s.records m.cutoff = .ok [] :=
    AuthSource.readSince_of_swallows hswallows
  constructor
  · intro hunknown
    apply List.eq_nil_iff_forall_not_mem.mpr
    intro session hsession
    obtain ⟨report, hreport, -, htold⟩ := report_of_plan h hread (mem_plan_of_session hsession)
    have hattributes : report.event.fields.rawAttributes =
        describeSession m (m.context.readings 0) (countersOf []) session := congrArg Prod.snd htold
    have hreported := hunknown report hreport
    rw [hattributes] at hreported
    exact not_tellsUnknown_describeSession (authAvailable_of_swallows hswallows) _ _ _ hreported
  · intro hsessions report hreport
    have habsent : absentUsers s (countersOf []).1 = [] := rfl
    have hplan : m.plan (m.context.readings 0) s (countersOf []) = [] := by
      rw [plan, hsessions, habsent]
      cases m.authAvailable <;> rfl
    have htold := (collect_of_dependable h hread).1
    rw [hplan, List.map_eq_nil_iff] at htold
    rw [htold] at hreport
    cases hreport

/-- After a read that fails every event says so, and the next read begins no later than the failed
one, if and only if the clock has not gone past the failed read's cutoff and, where the source
swallows the failure, there is no session with a name. -/
theorem unknown_iff {m : UserActivity} (h : m.context.Dependable) (limit : ℕ) (s : Readings) :
    (m.auth.Raises limit s.records m.cutoff ∨ m.auth.Swallows s.records m.cutoff →
      (∀ report ∈ (collect limit s m).trace, TellsUnknown report.event.fields.rawAttributes) ∧
        (collect limit s m).state.cutoff ≤ m.cutoff) ↔
    (m.auth.Raises limit s.records m.cutoff ∨ m.auth.Swallows s.records m.cutoff →
      (m.auth.Swallows s.records m.cutoff → namedSessions s = []) ∧
        timestampOf (m.context.readings 0) ≤ m.cutoff) := by
  rw [cutoff_collect]
  apply imp_congr_right
  intro hfails
  apply and_congr_left'
  by_cases hswallows : m.auth.Swallows s.records m.cutoff
  · rw [tellsUnknown_of_swallows_iff h hswallows]
    exact ⟨fun hsessions _ => hsessions, fun hsessions => hsessions hswallows⟩
  · obtain ⟨e, he⟩ := AuthSource.readSince_of_raises (hfails.resolve_right hswallows)
    rw [collect_of_error he]
    exact ⟨fun _ hswallow => absurd hswallow hswallows, fun _ => List.forall_mem_nil _⟩

/-- A session of alice. -/
def aliceSession : Session where
  name := str "alice"
  terminal := some (str "pts/0")
  host := none
  started := 0.0
  clock := 0.0

/-- What a sweep meets where a log has a text, or does not open. -/
def logging (text : Option Str) (sessions : List Session) : Readings where
  records := { journalctl := fun _ => .failed, readText := fun _ => text }
  users := some sessions

/-- A collector that reads a log. -/
def logReader : UserActivity where
  context := oneContext
  auth := .logFile (some (str "/var/log/auth.log"))
  lastRead := some 0.0

/-- A session without a name. -/
def namelessSession : Session := { aliceSession with name := [] }

/-- A log that does not open, while the one session has no name and the clock stands still. -/
theorem unknown_iff_nameless :
    logReader.auth.Swallows (logging none [namelessSession]).records logReader.cutoff ∧
      (∀ report ∈ (collect 1000 (logging none [namelessSession]) logReader).trace,
        TellsUnknown report.event.fields.rawAttributes) ∧
      (collect 1000 (logging none [namelessSession]) logReader).state.cutoff ≤
        logReader.cutoff := by
  have hswallows : logReader.auth.Swallows (logging none [namelessSession]).records
      logReader.cutoff := rfl
  have hclock : timestampOf (logReader.context.readings 0) ≤ logReader.cutoff := by
    have hepoch : timestampOf Datetime.epoch = 0.0 := by decide +kernel
    show timestampOf Datetime.epoch ≤ (0.0 : Float)
    rw [hepoch]
    decide +kernel
  exact ⟨hswallows, (unknown_iff oneContext_dependable 1000 _).mpr (fun _ => ⟨fun _ => rfl, hclock⟩)
    (.inr hswallows)⟩

/-- A log that does not open is reported as a log without failed logins. -/
theorem not_unknown :
    ¬∀ (limit : ℕ) (s : Readings) (m : UserActivity), m.context.Dependable →
      m.auth.Raises limit s.records m.cutoff ∨ m.auth.Swallows s.records m.cutoff →
      (∀ report ∈ (collect limit s m).trace, TellsUnknown report.event.fields.rawAttributes) ∧
        (collect limit s m).state.cutoff ≤ m.cutoff := by
  intro h
  have hswallows : logReader.auth.Swallows (logging none [aliceSession]).records logReader.cutoff :=
    rfl
  have hsweep := h 1000 (logging none [aliceSession]) logReader oneContext_dependable
    (.inr hswallows)
  have hsessions := (tellsUnknown_of_swallows_iff oneContext_dependable hswallows).mp hsweep.1
  have hlength := congrArg List.length hsessions
  exact absurd hlength (by decide)

/-- The event tells how many records of either kind a user has. -/
def TellsCounts (records : List AuthEvent) (user : Str) (rawAttributes : Mapping) : Prop :=
  rawAttributes.get? (str "failed_auth_count") =
      some (.json (.int ((usersOf .failedAuth records).count user : ℕ))) ∧
    rawAttributes.get? (str "sudo_usage_pattern") =
      some (.json (.int ((usersOf .sudo records).count user : ℕ)))

theorem tellsCounts_describeSession {m : UserActivity} (havailable : m.authAvailable = true)
    (now : Datetime) (records : List AuthEvent) (session : Session) :
    TellsCounts records session.name (describeSession m now (countersOf records) session) := by
  have hfailed : (describeSession m now (countersOf records) session).get?
      (str "failed_auth_count") = some (.json (countOrNull m.authAvailable
        ((countersOf records).1.get session.name 0))) := rfl
  have hsudo : (describeSession m now (countersOf records) session).get?
      (str "sudo_usage_pattern") = some (.json (countOrNull m.authAvailable
        ((countersOf records).2.get session.name 0))) := rfl
  rw [TellsCounts, hfailed, hsudo, havailable, countersOf_eq, get_countUser, get_countUser]
  exact ⟨rfl, rfl⟩

theorem tellsCounts_describeAbsent (m : UserActivity) (now : Datetime) (records : List AuthEvent)
    (user : Str) : TellsCounts records user (describeAbsent m now (countersOf records) user
      ((usersOf .failedAuth records).count user)) := by
  have hfailed : (describeAbsent m now (countersOf records) user
      ((usersOf .failedAuth records).count user)).get? (str "failed_auth_count") =
        some (.json (.int ((usersOf .failedAuth records).count user : ℕ))) := rfl
  have hsudo : (describeAbsent m now (countersOf records) user
      ((usersOf .failedAuth records).count user)).get? (str "sudo_usage_pattern") =
        some (.json (.int ((countersOf records).2.get user 0 : ℕ))) := rfl
  rw [TellsCounts, hfailed, hsudo, countersOf_eq, get_countUser]
  exact ⟨rfl, rfl⟩

theorem subject_of_mem_plan {m : UserActivity} {now : Datetime} {s : Readings}
    {records : List AuthEvent} {entry : Str × Mapping}
    (h : entry ∈ m.plan now s (countersOf records)) :
    entry.1 ∈ (namedSessions s).map Session.name ∨ entry.1 ∈ usersOf .failedAuth records := by
  rw [plan, List.mem_append] at h
  rcases h with h | h
  · obtain ⟨session, hsession, rfl⟩ := List.mem_map.mp h
    exact .inl (List.mem_map_of_mem hsession)
  · split_ifs at h
    · obtain ⟨absent, habsent, rfl⟩ := List.mem_map.mp h
      have hcount : (countersOf records).1.get? absent.1 = some absent.2 :=
        Dict.get?_eq_some.mpr (List.mem_filter.mp habsent).1
      rw [countersOf_eq, get?_countUser] at hcount
      split_ifs at hcount with hmem
      exact .inr hmem
    · cases h

/-- Every user of a record is the subject of an event with the user's counts if and only if every
user of a `sudo` record has a failed login or a session as well. -/
theorem reported_iff {m : UserActivity} (h : m.context.Dependable)
    (havailable : m.auth ≠ .null) {limit : ℕ} {s : Readings} {records : List AuthEvent}
    (hread : m.auth.readSince limit s.records m.cutoff = .ok records) :
    (∀ user, user ∈ usersOf .failedAuth records ∨ user ∈ usersOf .sudo records →
      ∃ report ∈ (collect limit s m).trace, report.subject = user ∧
        IsAbout (collect limit s m).state.context report ∧
        TellsCounts records user report.event.fields.rawAttributes) ↔
    ∀ user ∈ usersOf .sudo records,
      user ∈ usersOf .failedAuth records ∨ user ∈ (namedSessions s).map Session.name := by
  have hauth : m.authAvailable = true := by simpa [authAvailable] using havailable
  constructor
  · intro hreported user huser
    obtain ⟨report, hreport, rfl, -, -⟩ := hreported user (.inr huser)
    have hplanned : told report ∈ m.plan (m.context.readings 0) s (countersOf records) := by
      rw [← (collect_of_dependable h hread).1]
      exact List.mem_map_of_mem hreport
    exact (subject_of_mem_plan hplanned).symm
  · intro hsudo user huser
    by_cases hsession : user ∈ (namedSessions s).map Session.name
    · obtain ⟨session, hmem, rfl⟩ := List.mem_map.mp hsession
      obtain ⟨report, hreport, habout, htold⟩ :=
        report_of_plan h hread (mem_plan_of_session hmem)
      refine ⟨report, hreport, congrArg Prod.fst htold, habout, ?_⟩
      rw [show report.event.fields.rawAttributes = _ from congrArg Prod.snd htold]
      exact tellsCounts_describeSession hauth _ records session
    · have hfailed : user ∈ usersOf .failedAuth records := by
        rcases huser with huser | huser
        · exact huser
        · exact (hsudo user huser).resolve_right hsession
      have hentry : (user, (usersOf .failedAuth records).count user) ∈
          (countersOf records).1.entries := by
        apply Dict.get?_eq_some.mp
        rw [countersOf_eq, get?_countUser, if_pos hfailed]
      have hplanned : (user, describeAbsent m (m.context.readings 0) (countersOf records) user
          ((usersOf .failedAuth records).count user)) ∈
            m.plan (m.context.readings 0) s (countersOf records) := by
        rw [plan, if_pos hauth, List.mem_append]
        right
        exact List.mem_map_of_mem (f := fun entry : Str × ℕ =>
          (entry.1, describeAbsent m (m.context.readings 0) (countersOf records) entry.1 entry.2))
          (List.mem_filter.mpr ⟨hentry, by simpa using hsession⟩)
      obtain ⟨report, hreport, habout, htold⟩ := report_of_plan h hread hplanned
      refine ⟨report, hreport, congrArg Prod.fst htold, habout, ?_⟩
      rw [show report.event.fields.rawAttributes = _ from congrArg Prod.snd htold]
      exact tellsCounts_describeAbsent m _ records user

def sudoLog : Str := str "sudo: alice : COMMAND=/bin/ls\n"

def sudoRecords : List AuthEvent :=
  (Py.splitlines sudoLog).flatMap fun line => parseAuthLine line 0.0

/-- A use of `sudo` by a user who has a session. -/
theorem reported_iff_alice :
    (∀ user, user ∈ usersOf .failedAuth sudoRecords ∨ user ∈ usersOf .sudo sudoRecords →
      ∃ report ∈ (collect 1000 (logging (some sudoLog) [aliceSession]) logReader).trace,
        report.subject = user ∧
        IsAbout (collect 1000 (logging (some sudoLog) [aliceSession]) logReader).state.context
          report ∧
        TellsCounts sudoRecords user report.event.fields.rawAttributes) ↔
    ∀ user ∈ usersOf .sudo sudoRecords, user ∈ usersOf .failedAuth sudoRecords ∨
      user ∈ (namedSessions (logging (some sudoLog) [aliceSession])).map Session.name :=
  reported_iff oneContext_dependable (show AuthSource.logFile _ ≠ .null by decide) rfl

/-- A use of `sudo` by a user without a session is not reported. -/
theorem not_reported :
    ¬∀ (m : UserActivity) (limit : ℕ) (s : Readings) (records : List AuthEvent),
      m.context.Dependable → m.auth ≠ .null →
      m.auth.readSince limit s.records m.cutoff = .ok records →
      ∀ user, user ∈ usersOf .failedAuth records ∨ user ∈ usersOf .sudo records →
        ∃ report ∈ (collect limit s m).trace, report.subject = user ∧
          IsAbout (collect limit s m).state.context report ∧
          TellsCounts records user report.event.fields.rawAttributes := by
  intro h
  have hsudo : str "alice" ∈ usersOf .sudo sudoRecords := by decide +kernel
  have hfailed : str "alice" ∉ usersOf .failedAuth sudoRecords := by decide +kernel
  have hread : logReader.auth.readSince 1000 (logging (some sudoLog) []).records
      logReader.cutoff = .ok sudoRecords := rfl
  obtain ⟨report, hreport, hsubject, -⟩ := h logReader 1000 (logging (some sudoLog) [])
    sudoRecords oneContext_dependable (show AuthSource.logFile _ ≠ .null by decide) hread
    (str "alice") (.inr hsudo)
  have hplanned : told report ∈ logReader.plan (logReader.context.readings 0)
      (logging (some sudoLog) []) (countersOf sudoRecords) := by
    rw [← (collect_of_dependable oneContext_dependable hread).1]
    exact List.mem_map_of_mem hreport
  rcases subject_of_mem_plan hplanned with hmem | hmem
  · cases hmem
  · exact hfailed (hsubject ▸ hmem)

end UserActivity
end Ebabf
