import Ebabf.Collectors.UserActivity
import Mathlib.Algebra.BigOperators.Intervals

/-!
# Authentication reads over many sweeps

A run is a collector and what each of its sweeps meets. The cutoff of a sweep is the clock's
reading of the one before; what a log file returns does not depend on it, and a journal is asked
for it in whole seconds and answers up to the instant of the read.
-/

namespace Ebabf

open Py (Str str Exc Datetime Dict)

namespace UserActivity

/-- The collector before each sweep. -/
def states (limit : ℕ) (sweeps : ℕ → Readings) (m : UserActivity) : ℕ → UserActivity
  | 0 => m
  | k + 1 => (collect limit (sweeps k) (states limit sweeps m k)).state

/-- What the read of each sweep returns. -/
def reads (limit : ℕ) (sweeps : ℕ → Readings) (m : UserActivity) (k : ℕ) :
    Except Exc (List AuthEvent) :=
  (states limit sweeps m k).auth.readSince limit (sweeps k).records (states limit sweeps m k).cutoff

theorem auth_states (limit : ℕ) (sweeps : ℕ → Readings) (m : UserActivity) (k : ℕ) :
    (states limit sweeps m k).auth = m.auth := by
  induction k with
  | zero => rfl
  | succ k ih => exact (auth_collect limit (sweeps k) _).trans ih

end UserActivity

/-- Whole lines, each with its line feed. -/
def WholeLines (text : Str) : Prop := text = [] ∨ ∃ s, text = s ++ str "\n"

/-- Sweeps over a log file that is appended to, by whole lines, between them. -/
structure LogRun where
  limit : ℕ
  collector : UserActivity
  sweeps : ℕ → Readings
  path : Str
  log : ℕ → Str
  source : collector.auth = .logFile (some path)
  readable : ∀ k, (sweeps k).records.readText path = some (log k)
  whole : WholeLines (log 0)
  grows : ∀ k, ∃ added, WholeLines added ∧ log (k + 1) = log k ++ added

/-- The user whom a line tells of. -/
def toldBy : AuthKind → Str → Option Str
  | .failedAuth => failedUser
  | .sudo => sudoUser

theorem usersOf_lines (kind : AuthKind) (lines : List Str) (moment : Float) :
    usersOf kind (lines.flatMap fun line => parseAuthLine line moment) =
      lines.filterMap (toldBy kind) := by
  induction lines with
  | nil => rfl
  | cons line lines ih =>
    have hline : usersOf kind (parseAuthLine line moment) = (toldBy kind line).toList := by
      cases kind
      · exact failed_parseAuthLine line moment
      · exact sudo_parseAuthLine line moment
    have happend : ∀ events events' : List AuthEvent,
        usersOf kind (events ++ events') = usersOf kind events ++ usersOf kind events' := by
      intro events events'
      rw [usersOf, List.filter_append, List.map_append]
      rfl
    rw [List.flatMap_cons, happend, hline, ih, List.filterMap_cons]
    cases toldBy kind line <;> rfl

namespace LogRun

variable (run : LogRun)

/-- The lines that each read parses. -/
def lines (k : ℕ) : List Str := Py.splitlines (run.log k)

/-- The events that each read returns. -/
def returned (k : ℕ) : List AuthEvent :=
  match UserActivity.reads run.limit run.sweeps run.collector k with
  | .ok events => events
  | .error _ => []

/-- Every line appended after the first read and before the last one that tells of a user is parsed
by one read, and the records after the first read are as many as the lines that tell of them. -/
structure CountedOnce (last : ℕ) : Prop where
  once : ∀ i line kind, (run.lines last)[i]? = some line → (run.lines 0).length ≤ i →
    toldBy kind line ≠ none → ∃! k, k ≤ last ∧ (run.lines k)[i]? = some line
  totals : ∀ kind user, ∑ k ∈ Finset.Icc 1 last, (usersOf kind (run.returned k)).count user =
    ((run.lines last).drop (run.lines 0).length).countP fun line => toldBy kind line = some user

theorem reads_eq (k : ℕ) : UserActivity.reads run.limit run.sweeps run.collector k =
    .ok ((run.lines k).flatMap fun line => parseAuthLine line
      (UserActivity.states run.limit run.sweeps run.collector k).cutoff) := by
  rw [UserActivity.reads, UserActivity.auth_states, run.source, AuthSource.readSince,
    AuthLogFileSource.readSince, Option.bind_some, run.readable k]
  rfl

theorem count_returned (k : ℕ) (kind : AuthKind) (user : Str) :
    (usersOf kind (run.returned k)).count user =
      (run.lines k).countP fun line => toldBy kind line = some user := by
  rw [returned, run.reads_eq k, usersOf_lines, List.count, List.countP_filterMap]
  apply List.countP_congr
  intro line _
  cases toldBy kind line <;> simp

theorem splitlines_append_of_whole {text : Str} (h : WholeLines text) (added : Str) :
    Py.splitlines (text ++ added) = Py.splitlines text ++ Py.splitlines added := by
  rcases h with rfl | ⟨s, rfl⟩
  · rfl
  · exact Py.splitlines_append_newline s added

theorem whole_log (k : ℕ) : WholeLines (run.log k) := by
  induction k with
  | zero => exact run.whole
  | succ k ih =>
    obtain ⟨added, hadded, hlog⟩ := run.grows k
    rw [hlog]
    rcases hadded with rfl | ⟨s, rfl⟩
    · rw [List.append_nil]
      exact ih
    · exact .inr ⟨run.log k ++ s, (List.append_assoc _ _ _).symm⟩

theorem lines_succ (k : ℕ) : run.lines k <+: run.lines (k + 1) := by
  obtain ⟨added, -, hlog⟩ := run.grows k
  rw [lines, lines, hlog, splitlines_append_of_whole (run.whole_log k)]
  exact List.prefix_append _ _

theorem lines_prefix {j k : ℕ} (h : j ≤ k) : run.lines j <+: run.lines k := by
  induction k, h using Nat.le_induction with
  | base => exact List.prefix_refl _
  | succ k _ ih => exact ih.trans (run.lines_succ k)

/-- Nothing is told of by the lines that an earlier read has. -/
def QuietBefore (last : ℕ) : Prop :=
  ∀ k < last, ∀ line ∈ run.lines k, ∀ kind, toldBy kind line = none

theorem countP_drop (last : ℕ) (kind : AuthKind) (user : Str) :
    (run.lines last).countP (fun line => toldBy kind line = some user) =
      (run.lines 0).countP (fun line => toldBy kind line = some user) +
        ((run.lines last).drop (run.lines 0).length).countP
          fun line => toldBy kind line = some user := by
  obtain ⟨added, hadded⟩ := run.lines_prefix (Nat.zero_le last)
  rw [← hadded, List.drop_left, List.countP_append]

theorem quietBefore_of_totals {last : ℕ}
    (h : ∀ kind user, ∑ k ∈ Finset.Icc 1 last, (usersOf kind (run.returned k)).count user =
      ((run.lines last).drop (run.lines 0).length).countP
        fun line => toldBy kind line = some user) : run.QuietBefore last := by
  intro k hk line hline kind
  cases htold : toldBy kind line with
  | none => rfl
  | some user =>
    have hsum := h kind user
    have hdrop := run.countP_drop last kind user
    simp only [run.count_returned] at hsum
    -- the last read alone returns the first one's records and those appended
    have hall : ∑ j ∈ Finset.range last,
        (run.lines j).countP (fun line => toldBy kind line = some user) = 0 := by
      have hsplit := Finset.sum_range_succ
        (fun j => (run.lines j).countP fun line => toldBy kind line = some user) last
      have hfirst := Finset.sum_range_succ'
        (fun j => (run.lines j).countP fun line => toldBy kind line = some user) last
      have hshift : ∑ j ∈ Finset.range last,
          (run.lines (j + 1)).countP (fun line => toldBy kind line = some user) =
            ∑ j ∈ Finset.Icc 1 last,
              (run.lines j).countP fun line => toldBy kind line = some user := by
        rw [Finset.range_eq_Ico, Finset.sum_Ico_add' (fun j => (run.lines j).countP
          fun line => toldBy kind line = some user) 0 last 1]
        rfl
      omega
    have hzero := Finset.sum_eq_zero_iff.mp hall k (Finset.mem_range.mpr hk)
    have hpos : 0 < (run.lines k).countP fun line => toldBy kind line = some user :=
      List.countP_pos_iff.mpr ⟨line, hline, by simpa using htold⟩
    omega

/-- Every line is counted once if and only if none of the lines that an earlier read had tells of a
user, the last read alone being left to return something. -/
theorem countedOnce_iff (last : ℕ) : run.CountedOnce last ↔ run.QuietBefore last := by
  constructor
  · exact fun h => run.quietBefore_of_totals h.totals
  · intro h
    refine ⟨?_, ?_⟩
    · intro i line kind hline _ htold
      refine ⟨last, ⟨le_rfl, hline⟩, ?_⟩
      rintro k ⟨hk, hearlier⟩
      by_contra hne
      exact htold (h k (lt_of_le_of_ne hk hne) line (List.mem_of_getElem? hearlier) kind)
    · intro kind user
      have hquiet : ∀ k < last,
          (run.lines k).countP (fun line => toldBy kind line = some user) = 0 := by
        intro k hk
        rw [List.countP_eq_zero]
        intro line hline
        rw [h k hk line hline kind]
        simp
      simp only [run.count_returned]
      cases last with
      | zero => simp
      | succ last =>
        have hdrop := run.countP_drop (last + 1) kind user
        rw [hquiet 0 (Nat.succ_pos last), Nat.zero_add] at hdrop
        rw [← hdrop]
        apply Finset.sum_eq_single_of_mem (last + 1) (Finset.mem_Icc.mpr ⟨by omega, le_rfl⟩)
        intro k hk hne
        exact hquiet k (lt_of_le_of_ne (Finset.mem_Icc.mp hk).2 hne)

/-- A log that holds one use of `sudo` and does not change. -/
def steady : LogRun where
  limit := 1000
  collector := UserActivity.logReader
  sweeps _ := UserActivity.logging (some UserActivity.sudoLog) []
  path := str "/var/log/auth.log"
  log _ := UserActivity.sudoLog
  source := rfl
  readable _ := rfl
  whole := .inr ⟨str "sudo: alice : COMMAND=/bin/ls", rfl⟩
  grows _ := ⟨[], .inl rfl, (List.append_nil _).symm⟩

/-- A second sweep returns what the first one has returned, though nothing was appended. -/
theorem not_countedOnce_growing : ¬∀ (run : LogRun) (last : ℕ), run.CountedOnce last := by
  intro h
  have htotal := (h steady 1).totals .sudo (str "alice")
  rw [Finset.Icc_self, Finset.sum_singleton, steady.count_returned] at htotal
  revert htotal
  decide +kernel

end LogRun

/-- A record of the journal: its timestamp, and the line that `journalctl` prints of it. -/
structure JournalRecord where
  instant : ℤ
  line : Str

/-- What `journalctl` prints of some records. -/
def printed (records : List JournalRecord) : Str :=
  records.flatMap fun record => record.line ++ str "\n"

/-- Sweeps over a journal. `journalctl` shows the records stamped at or after the second it is
given that exist when it runs, at the instant of the read; the reads follow one another. -/
structure JournalRun where
  limit : ℕ
  collector : UserActivity
  sweeps : ℕ → Readings
  journal : List JournalRecord
  readAt : ℕ → ℤ
  source : collector.auth = .journald
  shows : ∀ k second, (sweeps k).records.journalctl second = .exited 0
    (printed (journal.filter fun record => second ≤ record.instant ∧ record.instant ≤ readAt k))
  ordered : Monotone readAt

namespace JournalRun

variable (run : JournalRun)

def cutoff (k : ℕ) : Float := (UserActivity.states run.limit run.sweeps run.collector k).cutoff

/-- The second that each read asks for. -/
def stamp (k : ℕ) : Except Exc ℤ := (fromtimestamp (run.cutoff k)).map wholeSecond

/-- The records that each read is shown. -/
def shown (k : ℕ) : List JournalRecord :=
  match run.stamp k with
  | .ok second => run.journal.filter fun record =>
      second ≤ record.instant ∧ record.instant ≤ run.readAt k
  | .error _ => []

/-- A read returns a record: the record is shown, and what is returned are the events of all that
is shown. -/
def Returns (k : ℕ) (record : JournalRecord) : Prop :=
  record ∈ run.shown k ∧ UserActivity.reads run.limit run.sweeps run.collector k =
    .ok ((run.shown k).flatMap fun record =>
      JournaldAuthSource.eventsOf run.limit (run.cutoff k) record.line)

/-- After the first sweep's cutoff, and before the last read. -/
def InRange (last : ℕ) (record : JournalRecord) : Prop :=
  (∃ instant, fromtimestamp (run.cutoff 0) = .ok instant ∧ instant < record.instant) ∧
    record.instant < run.readAt last

def CountedOnce (last : ℕ) : Prop :=
  ∀ record ∈ run.journal, run.InRange last record → ∃! k, k ≤ last ∧ run.Returns k record

/-- A line that is one line, and that the read does not trip over. -/
def Plain (record : JournalRecord) : Prop :=
  (∀ c ∈ record.line, Py.isLineBreak c = false) ∧
    JournaldAuthSource.Harmless run.limit record.line

/-- Every cutoff is a date, and the records shown are plain. -/
structure Legible (last : ℕ) : Prop where
  dated : ∀ k ≤ last, ∃ second, run.stamp k = .ok second
  plain : ∀ k ≤ last, ∀ record ∈ run.shown k, run.Plain record

/-- Every record of the range that exists at a read, and no other, is stamped before the second
that the next read asks for. -/
def Apart (last : ℕ) : Prop :=
  ∀ record ∈ run.journal, run.InRange last record → ∀ k < last, ∀ second,
    run.stamp (k + 1) = .ok second → (record.instant ≤ run.readAt k ↔ record.instant < second)

theorem splitlines_printed {records : List JournalRecord}
    (h : ∀ record ∈ records, ∀ c ∈ record.line, Py.isLineBreak c = false) :
    Py.splitlines (printed records) = records.map JournalRecord.line := by
  induction records with
  | nil => rfl
  | cons record records ih =>
    obtain ⟨hline, hrest⟩ := List.forall_mem_cons.mp h
    rw [printed, List.flatMap_cons, Py.splitlines_cons_newline hline, List.map_cons, ← ih hrest]
    rfl

theorem reads_of_legible {last : ℕ} (h : run.Legible last) {k : ℕ} (hk : k ≤ last) :
    UserActivity.reads run.limit run.sweeps run.collector k =
      .ok ((run.shown k).flatMap fun record =>
        JournaldAuthSource.eventsOf run.limit (run.cutoff k) record.line) := by
  obtain ⟨second, hsecond⟩ := h.dated k hk
  have hplain := h.plain k hk
  have hanswer : JournaldAuthSource.answer (run.sweeps k).records (run.cutoff k) =
      .ok (.exited 0 (printed (run.shown k))) := by
    unfold stamp at hsecond
    rw [JournaldAuthSource.answer, shown, stamp]
    cases hsince : fromtimestamp (run.cutoff k) with
    | error e =>
      rw [hsince] at hsecond
      cases hsecond
    | ok instant => exact congrArg Except.ok (run.shows k (wholeSecond instant))
  rw [UserActivity.reads, UserActivity.auth_states, run.source, AuthSource.readSince,
    ← cutoff, JournaldAuthSource.readSince_eq, hanswer]
  have hlines : Py.splitlines (printed (run.shown k)) = (run.shown k).map JournalRecord.line :=
    splitlines_printed fun record hrecord => (hplain record hrecord).1
  have hharmless : ∀ line ∈ (run.shown k).map JournalRecord.line,
      JournaldAuthSource.Harmless run.limit line := by
    intro line hline
    obtain ⟨record, hrecord, rfl⟩ := List.mem_map.mp hline
    exact (hplain record hrecord).2
  have hread := JournaldAuthSource.readLines_of_harmless hharmless (run.cutoff k)
  rw [List.flatMap_map] at hread
  rw [Except.bind, ← hread, ← hlines]
  rfl

theorem returns_iff {last : ℕ} (h : run.Legible last) {k : ℕ} (hk : k ≤ last) {second : ℤ}
    (hsecond : run.stamp k = .ok second) {record : JournalRecord} (hrecord : record ∈ run.journal) :
    run.Returns k record ↔ second ≤ record.instant ∧ record.instant ≤ run.readAt k := by
  rw [Returns, run.reads_of_legible h hk, shown, hsecond]
  simp [hrecord]

/-- The first read that comes at or after a record returns it, and no later one does. -/
theorem countedOnce_of_apart {last : ℕ} (hlegible : run.Legible last) (hapart : run.Apart last) :
    run.CountedOnce last := by
  intro record hrecord hrange
  have hexists : ∃ k, record.instant ≤ run.readAt k := ⟨last, le_of_lt hrange.2⟩
  have hfirst := Nat.find_spec hexists
  have hleast : ∀ k < Nat.find hexists, run.readAt k < record.instant :=
    fun k hk => not_le.mp (Nat.find_min hexists hk)
  have hlast : Nat.find hexists ≤ last := Nat.find_min' hexists (le_of_lt hrange.2)
  obtain ⟨second, hsecond⟩ := hlegible.dated _ hlast
  refine ⟨Nat.find hexists, ⟨hlast, ?_⟩, ?_⟩
  · rw [run.returns_iff hlegible hlast hsecond hrecord]
    refine ⟨?_, hfirst⟩
    cases hk : Nat.find hexists with
    | zero =>
      obtain ⟨⟨instant, hinstant, hlt⟩, -⟩ := hrange
      rw [hk, stamp, hinstant] at hsecond
      have hwhole : wholeSecond instant = second := Except.ok.inj hsecond
      unfold wholeSecond at hwhole
      omega
    | succ k =>
      rw [hk] at hsecond hlast
      have hbefore := hleast k (by omega)
      have hiff := hapart record hrecord hrange k (by omega) second hsecond
      by_contra hlt
      exact absurd (hiff.mpr (not_le.mp hlt)) (not_le.mpr hbefore)
  · rintro k ⟨hk, hreturns⟩
    obtain ⟨second', hsecond'⟩ := hlegible.dated k hk
    rw [run.returns_iff hlegible hk hsecond' hrecord] at hreturns
    rcases lt_trichotomy k (Nat.find hexists) with hlt | heq | hgt
    · exact absurd hreturns.2 (not_le.mpr (hleast k hlt))
    · exact heq
    · -- a later read asks for seconds after the record
      cases k with
      | zero => exact absurd hgt (Nat.not_lt_zero _)
      | succ k =>
        have hread : record.instant ≤ run.readAt k :=
          hfirst.trans (run.ordered (by omega))
        have hlt := (hapart record hrecord hrange k (by omega) second' hsecond').mp hread
        exact absurd hreturns.1 (not_le.mpr hlt)

/-- The seconds that the reads ask for follow one another. -/
def Forward (last : ℕ) : Prop :=
  ∀ j k a b, j ≤ k → k ≤ last → run.stamp j = .ok a → run.stamp k = .ok b → a ≤ b

/-- A record on the wrong side of a read and the next read's second is returned twice or never. -/
theorem apart_of_countedOnce {last : ℕ} (hlegible : run.Legible last)
    (hforward : run.Forward last) (hcounted : run.CountedOnce last) : run.Apart last := by
  intro record hrecord hrange k hk second hsecond
  obtain ⟨j, ⟨hj, hreturns⟩, hunique⟩ := hcounted record hrecord hrange
  obtain ⟨secondJ, hsecondJ⟩ := hlegible.dated j hj
  obtain ⟨secondK, hsecondK⟩ := hlegible.dated k hk.le
  rw [run.returns_iff hlegible hj hsecondJ hrecord] at hreturns
  constructor
  · intro hread
    by_contra hlt
    -- both reads return it
    have hstamps := hforward k (k + 1) _ _ (Nat.le_succ k) hk hsecondK hsecond
    have hthis := hunique k ⟨hk.le, (run.returns_iff hlegible hk.le hsecondK hrecord).mpr
      ⟨hstamps.trans (not_lt.mp hlt), hread⟩⟩
    have hnext := hunique (k + 1) ⟨hk, (run.returns_iff hlegible hk hsecond hrecord).mpr
      ⟨not_lt.mp hlt, hread.trans (run.ordered (Nat.le_succ k))⟩⟩
    omega
  · intro hlt
    by_contra hread
    -- the read that returns it comes after this one, and asks for later seconds
    have hjk : k < j := by
      by_contra hle
      exact hread (hreturns.2.trans (run.ordered (not_lt.mp hle)))
    have hstamps := hforward (k + 1) j _ _ hjk hj hsecond hsecondJ
    omega

/-- Sweeps at the epoch, by a clock that stands still, with a read every two microseconds. -/
def atEpoch (journal : List JournalRecord) : JournalRun where
  limit := 1000
  collector := { context := oneContext, auth := .journald, lastRead := some 0.0 }
  sweeps k :=
    { records :=
        { journalctl := fun second => .exited 0 (printed (journal.filter fun record =>
            second ≤ record.instant ∧ record.instant ≤ Datetime.epoch.instant + 2 * (k + 1)))
          readText := fun _ => none }
      users := none }
  journal
  readAt k := Datetime.epoch.instant + 2 * (k + 1)
  source := rfl
  shows _ _ := rfl
  ordered := by
    intro j k hjk
    dsimp only
    omega

/-- A record without a message, so many microseconds after the epoch. -/
def quietRecord (later : ℤ) : JournalRecord where
  instant := Datetime.epoch.instant + later
  line := str "\x7b\x7d"

theorem plain_quietRecord (journal : List JournalRecord) (later : ℤ) :
    (atEpoch journal).Plain (quietRecord later) := by
  refine ⟨?_, .inr ⟨[], rfl, ?_, ?_⟩⟩
  · have hline : ((str "\x7b\x7d").all fun c => !Py.isLineBreak c) = true := by decide
    intro c hc
    simpa using List.all_eq_true.mp hline c hc
  · intro htruthy
    cases htruthy
  · intro htruthy
    cases htruthy

theorem stamp_atEpoch (journal : List JournalRecord) {k : ℕ} (hk : k ≤ 1) :
    (atEpoch journal).stamp k = .ok Datetime.epoch.instant := by
  have hcutoff : (atEpoch journal).cutoff k = 0.0 := by
    cases k with
    | zero => rfl
    | succ k =>
      obtain rfl : k = 0 := by omega
      have hepoch : timestampOf Datetime.epoch = 0.0 := by decide +kernel
      rw [cutoff, UserActivity.states, UserActivity.cutoff_collect]
      exact hepoch
  rw [stamp, hcutoff, JournaldAuthSource.fromtimestamp_zero]
  rfl

theorem legible_atEpoch (later : ℤ) : (atEpoch [quietRecord later]).Legible 1 where
  dated := fun k hk => ⟨_, stamp_atEpoch _ hk⟩
  plain := by
    intro k hk record hrecord
    rw [shown, stamp_atEpoch _ hk] at hrecord
    rw [List.mem_singleton.mp (List.mem_filter.mp hrecord).1]
    exact plain_quietRecord _ later

end JournalRun

end Ebabf
