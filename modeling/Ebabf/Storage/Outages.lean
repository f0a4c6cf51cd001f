import Ebabf.Storage.Gaps
import Ebabf.Storage.Storable

/-!
# Outages

Eviction takes rows from anywhere in the timeline, so the neighbours that `find_gaps` compares need
not have been appended one after the other. Between the times of two successive appends no row is
ever stored, and the break across them is listed as long as a row is left on either side.
-/

namespace Ebabf

open Py (Str str Datetime)
open Transition

/-- A row is stored that was ingested at such a time. -/
def Db.Holds (p : Datetime → Prop) (db : Db) : Prop :=
  ∃ d : Datetime, d.isoformat ∈ db.ingestionTimes ∧ p d

namespace EventStore

/-- The reading of the clock that stamps the row of an append. -/
def Op.stamp : Op → Option Datetime
  | .append _ env => some env.stamp
  | .reopen _ _ => none

/-- The stamps of a run, in its order. -/
def stamps (ops : List Op) : List Datetime := ops.filterMap Op.stamp

/-- A clock in UTC that never goes back. -/
structure SteadyClock (times : List Datetime) : Prop where
  utc : ∀ d ∈ times, d.utcoffset = some 0
  sorted : times.Pairwise fun d d' => d.instant ≤ d'.instant

/-- Nothing is recorded: an append does not return, and a handle is closed before it has halted. -/
def Quiet (s : EventStore) : Op → Prop
  | .append event env => ∀ stamped, (s.append event env).1 ≠ .ok stamped
  | .reopen _ _ => s.haltedReason = none

theorem mem_rows_step {op : Op} {s : EventStore} {row : EventRow}
    (h : row ∈ (op.step s).db.events.rows) :
    row ∈ s.db.events.rows ∨ ∃ d ∈ op.stamp, row.ingestedAt = d.isoformat := by
  cases op with
  | reopen maxEvents minFreeBytes => exact .inl h
  | append event env =>
    change row ∈ (s.append event env).2.db.events.rows at h
    have hsplit : ∀ {stamped row'}, prepare event env = .ok (stamped, row') →
        row ∈ s.db.events.rows ++ [row'] →
        row ∈ s.db.events.rows ∨ ∃ d ∈ some env.stamp, row.ingestedAt = d.isoformat := by
      intro stamped row' hprepare hmem
      rcases List.mem_append.mp hmem with hold | hnew
      · exact .inl hold
      · right
        rw [List.mem_singleton.mp hnew]
        exact ⟨env.stamp, rfl, (ingestedAt_of_prepare hprepare).2⟩
    rcases append_cases event env s with hcase | hcase | hcase
    · obtain ⟨e, -, happend⟩ := append_of_not_accepts hcase
      rw [happend] at h
      exact .inl h
    · obtain ⟨reason, gaps, n, stamped, row', events, hprepare, hrows, happend⟩ :=
        append_of_closed hcase.1 hcase.2
      rw [happend] at h
      exact hsplit hprepare (hrows ▸ h)
    · obtain ⟨stamped, hstamped⟩ := (append_ok_iff event env s).mpr hcase
      obtain ⟨row', hprepare, hsubset⟩ := append_ok (Prod.ext hstamped rfl)
      exact hsplit hprepare (hsubset h)

theorem mem_rows_run {ops : List Op} {s : EventStore} {row : EventRow}
    (h : row ∈ (run Op.step ops s).db.events.rows) :
    row ∈ s.db.events.rows ∨ ∃ d ∈ stamps ops, row.ingestedAt = d.isoformat := by
  induction ops generalizing s with
  | nil => exact .inl h
  | cons op ops ih =>
    have hstamps : ∀ d, d ∈ stamps (op :: ops) ↔ d ∈ op.stamp ∨ d ∈ stamps ops := by
      intro d
      unfold stamps
      cases hop : op.stamp <;> simp [hop, eq_comm]
    rcases ih h with hrow | ⟨d, hd, hrow⟩
    · rcases mem_rows_step hrow with hold | ⟨d, hd, hnew⟩
      · exact .inl hold
      · exact .inr ⟨d, (hstamps d).mpr (.inl hd), hnew⟩
    · exact .inr ⟨d, (hstamps d).mpr (.inr hd), hrow⟩

theorem rows_step_of_quiet {op : Op} {s : EventStore} (hquiet : s.Quiet op)
    (hrunning : (op.step s).haltedReason = none) :
    s.haltedReason = none ∧ (op.step s).db.events.rows = s.db.events.rows := by
  cases op with
  | reopen maxEvents minFreeBytes => exact ⟨hquiet, rfl⟩
  | append event env =>
    change (s.append event env).2.haltedReason = none at hrunning
    change s.haltedReason = none ∧ (s.append event env).2.db.events.rows = s.db.events.rows
    rcases append_cases event env s with hcase | hcase | hcase
    · obtain ⟨e, -, happend⟩ := append_of_not_accepts hcase
      rw [happend] at hrunning ⊢
      exact ⟨hrunning, rfl⟩
    · obtain ⟨reason, gaps, n, stamped, row, events, -, -, happend⟩ := append_of_closed hcase.1 hcase.2
      rw [happend] at hrunning
      cases hrunning
    · obtain ⟨stamped, hstamped⟩ := (append_ok_iff event env s).mpr hcase
      exact absurd hstamped (hquiet stamped)

/-- A store that still records after steps that record nothing has kept its rows. -/
theorem rows_run_of_quiet {ops : List Op} {s : EventStore} (hquiet : Always Op.step Quiet ops s)
    (hrunning : (run Op.step ops s).haltedReason = none) :
    s.haltedReason = none ∧ (run Op.step ops s).db.events.rows = s.db.events.rows := by
  induction ops generalizing s with
  | nil => exact ⟨hrunning, rfl⟩
  | cons op ops ih =>
    rw [always_cons] at hquiet
    obtain ⟨hnext, hrest⟩ := ih hquiet.2 hrunning
    obtain ⟨hhere, hstep⟩ := rows_step_of_quiet hquiet.1 hnext
    refine ⟨hhere, ?_⟩
    rw [run_cons, hrest, hstep]

end EventStore

/-- The text of a time that is not after `t`. -/
def NotAfter (t : Datetime) (time : Str) : Prop :=
  ∃ d : Datetime, time = d.isoformat ∧ d.instant ≤ t.instant

theorem notAfter_isoformat {t d : Datetime} : NotAfter t d.isoformat ↔ d.instant ≤ t.instant := by
  constructor
  · intro h
    obtain ⟨d', heq, hd'⟩ := h
    rwa [Datetime.isoformat_injective heq]
  · intro h
    exact ⟨d, rfl, h⟩

/-- Where every stored time is in UTC and on one side of an outage, with rows on both sides, a
break across the outage is listed. -/
theorem Db.reportsBreak_across {minSeconds : WithTop ℚ} {t₁ t₂ : Datetime} {db : Db}
    (hlt : t₁.instant < t₂.instant) (hlong : minSeconds < secondsBetween t₁ t₂)
    (hsides : ∀ time ∈ db.ingestionTimes, ∃ d : Datetime, time = d.isoformat ∧
      d.utcoffset = some 0 ∧ (d.instant ≤ t₁.instant ∨ t₂.instant ≤ d.instant))
    (hlow : db.Holds fun d => d.instant ≤ t₁.instant)
    (hhigh : db.Holds fun d => t₂.instant ≤ d.instant) :
    ∃ start stop, db.ReportsBreak minSeconds start stop ∧ start.instant ≤ t₁.instant ∧
      t₂.instant ≤ stop.instant := by
  have hdown : db.ingestionTimes.Pairwise fun a b => NotAfter t₁ b → NotAfter t₁ a := by
    refine db.ingestionTimes_sorted.imp_of_mem ?_
    intro a b ha hb hle hearly
    obtain ⟨d, ha, hutc, hside⟩ := hsides a ha
    obtain ⟨d', hb, hutc', -⟩ := hsides b hb
    rw [ha, hb] at hle
    rw [hb, notAfter_isoformat] at hearly
    rw [ha, notAfter_isoformat]
    rcases hside with hd | hd
    · exact hd
    · have hgt : d'.isoformat < d.isoformat := Datetime.isoformat_lt hutc' hutc (by omega)
      exact absurd hle hgt.not_ge
  have hlow' : ∃ time ∈ db.ingestionTimes, NotAfter t₁ time := by
    obtain ⟨d, hmem, hd⟩ := hlow
    exact ⟨d.isoformat, hmem, notAfter_isoformat.mpr hd⟩
  have hhigh' : ∃ time ∈ db.ingestionTimes, ¬NotAfter t₁ time := by
    obtain ⟨d, hmem, hd⟩ := hhigh
    exact ⟨d.isoformat, hmem, notAfter_isoformat.not.mpr (by omega)⟩
  obtain ⟨a, b, hlag, ha, hb⟩ := Sql.exists_lag_across hdown hlow' hhigh'
  obtain ⟨hmem, hmem'⟩ := Sql.mem_of_mem_lag hlag
  obtain ⟨start, hstart, hutc, -⟩ := hsides a hmem
  obtain ⟨stop, hstop, hutc', hside'⟩ := hsides b hmem'
  rw [hstart, notAfter_isoformat] at ha
  rw [hstop, notAfter_isoformat] at hb
  rw [hstart, hstop] at hlag
  have hlater : t₂.instant ≤ stop.instant := hside'.resolve_left hb
  have hlonger : secondsBetween t₁ t₂ ≤ secondsBetween start stop := by
    unfold secondsBetween
    have hinstants : t₂.instant - t₁.instant ≤ stop.instant - start.instant := by omega
    have hcast : ((t₂.instant - t₁.instant : ℤ) : ℚ) ≤ (stop.instant - start.instant : ℤ) := by
      exact_mod_cast hinstants
    exact div_le_div_of_nonneg_right hcast (by norm_num)
  refine ⟨start, stop, Db.reportsBreak_iff.mpr ⟨hlag, ⟨sqliteReads_utc hutc, sqliteReads_utc hutc'⟩,
    ?_⟩, ha, hlater⟩
  exact hlong.trans_le (by exact_mod_cast hlonger)

namespace EventStore

theorem SteadyClock.sides {before between after : List Op} {event₁ event₂ : Event}
    {env₁ env₂ : AppendEnv} (h : SteadyClock
      (stamps (before ++ .append event₁ env₁ :: between ++ .append event₂ env₂ :: after)))
    {d : Datetime} (hd : d ∈ stamps (before ++ [.append event₁ env₁]) ∨
      d ∈ stamps (.append event₂ env₂ :: after)) :
    d.utcoffset = some 0 ∧ (d.instant ≤ env₁.stamp.instant ∨ env₂.stamp.instant ≤ d.instant) := by
  have hstamps : stamps (before ++ .append event₁ env₁ :: between ++ .append event₂ env₂ :: after) =
      stamps before ++ env₁.stamp :: (stamps between ++ env₂.stamp :: stamps after) := by
    simp [stamps, Op.stamp]
  have hearly : stamps (before ++ [.append event₁ env₁]) = stamps before ++ [env₁.stamp] := by
    simp [stamps, Op.stamp]
  have hlate : stamps (.append event₂ env₂ :: after) = env₂.stamp :: stamps after := by
    simp [stamps, Op.stamp]
  rw [hstamps] at h
  rw [hearly, hlate] at hd
  have hsorted := h.sorted
  rw [List.pairwise_append, List.pairwise_cons, List.pairwise_append, List.pairwise_cons] at hsorted
  obtain ⟨-, ⟨-, -, ⟨hafter, -⟩, -⟩, hacross⟩ := hsorted
  rcases hd with hd | hd
  · refine ⟨h.utc d ?_, .inl ?_⟩
    · apply List.mem_append.mpr
      rcases List.mem_append.mp hd with hbefore | hfirst
      · exact .inl hbefore
      · exact .inr (List.mem_cons.mpr (.inl (List.mem_singleton.mp hfirst)))
    · rcases List.mem_append.mp hd with hbefore | hfirst
      · exact hacross d hbefore env₁.stamp (List.mem_cons_self ..)
      · rw [List.mem_singleton.mp hfirst]
  · refine ⟨h.utc d ?_, .inr ?_⟩
    · exact List.mem_append_right _ (List.mem_cons_of_mem _ (List.mem_append_right _ hd))
    · rcases List.mem_cons.mp hd with rfl | hlater
      · exact le_refl _
      · exact hafter d hlater

/-- Along a steady clock an outage between two successive appends that return is listed: some break
longer than the threshold starts no later and ends no earlier, as long as a row from before the
outage and a row from after it are left. Handles may be closed and opened at any time, but one that
has halted between the two appends stays the one in use. -/
theorem reportsBreak_of_outage {minSeconds : WithTop ℚ} {maxEvents minFreeBytes : Option ℤ}
    {before between after : List Op} {event₁ event₂ : Event} {env₁ env₂ : AppendEnv} :
    let start := init Db.empty maxEvents minFreeBytes
    let first := run Op.step before start
    let second := run Op.step between (first.append event₁ env₁).2
    let last := run Op.step after (second.append event₂ env₂).2
    SteadyClock (stamps (before ++ .append event₁ env₁ :: between ++ .append event₂ env₂ :: after)) →
    (∃ stamped, (first.append event₁ env₁).1 = .ok stamped) →
    Always Op.step Quiet between (first.append event₁ env₁).2 →
    (∃ stamped, (second.append event₂ env₂).1 = .ok stamped) →
    env₁.stamp.instant < env₂.stamp.instant →
    minSeconds < secondsBetween env₁.stamp env₂.stamp →
    last.db.Holds (fun d => d.instant ≤ env₁.stamp.instant) →
    last.db.Holds (fun d => env₂.stamp.instant ≤ d.instant) →
    ∃ gapStart gapStop, last.db.ReportsBreak minSeconds gapStart gapStop ∧
      gapStart.instant ≤ env₁.stamp.instant ∧ env₂.stamp.instant ≤ gapStop.instant := by
  intro start first second last hclock hfirst hquiet hsecond hlt hlong hlow hhigh
  have hrunning : second.haltedReason = none := ((append_ok_iff event₂ env₂ second).mp hsecond).2.1
  have hkept := (rows_run_of_quiet hquiet hrunning).2
  have hbefore : (first.append event₁ env₁).2 =
      run Op.step (before ++ [.append event₁ env₁]) start :=
    (run_append Op.step before [.append event₁ env₁] start).symm
  refine Db.reportsBreak_across hlt hlong ?_ hlow hhigh
  intro time htime
  obtain ⟨row, hrow, rfl⟩ := Db.mem_ingestionTimes.mp htime
  -- the row was stamped by the first append or earlier, or by the second append or later
  have hstamped : ∃ d : Datetime, row.ingestedAt = d.isoformat ∧
      (d ∈ stamps (before ++ [.append event₁ env₁]) ∨
        d ∈ stamps (.append event₂ env₂ :: after)) := by
    have hlast : row ∈ (run Op.step (.append event₂ env₂ :: after) second).db.events.rows := hrow
    rcases mem_rows_run hlast with hold | ⟨d, hd, htext⟩
    · rw [hkept, hbefore] at hold
      rcases mem_rows_run hold with hempty | ⟨d, hd, htext⟩
      · cases hempty
      · exact ⟨d, htext, .inl hd⟩
    · exact ⟨d, htext, .inr hd⟩
  obtain ⟨d, htext, hd⟩ := hstamped
  obtain ⟨hutc, hside⟩ := hclock.sides hd
  exact ⟨d, htext, hutc, hside⟩

theorem append_plain_unlimited {eventId : Str} (h : Py.strip eventId ≠ [])
    (hencodes : Py.Encodes eventId) {env : AppendEnv} (haware : env.stamp.utcoffset ≠ none)
    {s : EventStore}
    (hlimits : s.maxEvents = none ∧ s.minFreeBytes = none ∧ s.haltedReason = none)
    (hroom : s.db.rowCount < SQLITE_MAX_ROWS)
    (hfresh : eventId ∉ s.db.events.rows.map EventRow.eventId) :
    ∃ (stamped : Event) (row : EventRow) (events : EventTable) (n : ℕ),
      s.append (.plain eventId h) env = (.ok stamped, s.counted events n) ∧
      events.rows = s.db.events.rows ++ [row] ∧ row.eventId = eventId ∧
      row.ingestedAt = env.stamp.isoformat := by
  have hlength : (Event.plain eventId h).fields.subjectPseudonym.length = 36 := rfl
  have haccepts : s.Accepts (.plain eventId h) env :=
    accepts_of_storable hlength hfresh (storable_plain h hencodes) haware hroom
  obtain ⟨stamped, row, db, hprepare, hinsert⟩ := haccepts
  obtain ⟨events, n, happend, hrows⟩ :=
    append_of_unlimited hlimits ⟨stamped, row, db, hprepare, hinsert⟩ hprepare
  exact ⟨stamped, row, events, n, happend, hrows, eventId_of_prepare hprepare,
    (ingestedAt_of_prepare hprepare).2⟩

/-- Two appends 675 seconds apart, with the handle replaced in between. -/
theorem reportsBreak_of_outage_quiet :
    let first := init Db.empty none none
    let second := Op.step (.reopen none none) (first.append (.plain (str "EVT-1") (by decide))
      { envWithFree none with stamp := noon }).2
    let last := (second.append (.plain (str "EVT-2") (by decide)) afterNoonEnv).2
    ∃ gapStart gapStop, last.db.ReportsBreak (300 : ℚ) gapStart gapStop ∧
      gapStart.instant ≤ noon.instant ∧
      afterNoon.instant ≤ gapStop.instant := by
  intro first second last
  obtain ⟨stamped₁, row₁, events₁, n₁, happend₁, hrows₁, hid₁, htime₁⟩ :=
    @append_plain_unlimited (str "EVT-1") (by decide) (by decide)
      { envWithFree none with stamp := noon } (by decide) first ⟨rfl, rfl, rfl⟩
      (by decide) List.not_mem_nil
  have hdb : second.db.events.rows = [row₁] := by
    show (first.append _ _).2.db.events.rows = [row₁]
    rw [happend₁]
    exact hrows₁
  have hroom : second.db.rowCount < SQLITE_MAX_ROWS := by
    rw [Db.rowCount, hdb]
    exact (by decide : 1 < SQLITE_MAX_ROWS)
  have hfresh : str "EVT-2" ∉ second.db.events.rows.map EventRow.eventId := by
    rw [hdb, List.map_singleton, hid₁]
    decide
  obtain ⟨stamped₂, row₂, events₂, n₂, happend₂, hrows₂, -, htime₂⟩ :=
    @append_plain_unlimited (str "EVT-2") (by decide) (by decide) afterNoonEnv (by decide)
      second ⟨rfl, rfl, rfl⟩ hroom hfresh
  have hlast : last.db.events.rows = [row₁, row₂] := by
    show (second.append _ _).2.db.events.rows = _
    rw [happend₂]
    exact hrows₂.trans (by rw [hdb]; rfl)
  have htimes : noon.isoformat ∈ last.db.ingestionTimes ∧
      afterNoon.isoformat ∈ last.db.ingestionTimes := by
    constructor
    · exact Db.mem_ingestionTimes.mpr ⟨row₁, by rw [hlast]; simp, htime₁⟩
    · exact Db.mem_ingestionTimes.mpr ⟨row₂, by rw [hlast]; simp, htime₂⟩
  have hquiet : Always Op.step Quiet [.reopen none none]
      (first.append (.plain (str "EVT-1") (by decide))
        { envWithFree none with stamp := noon }).2 := by
    rw [always_cons]
    refine ⟨?_, always_nil _ _⟩
    rw [happend₁]
    rfl
  refine @reportsBreak_of_outage (300 : ℚ) none none [] [.reopen none none] [] _ _ _ _ ?_
    ⟨stamped₁, congrArg Prod.fst happend₁⟩ hquiet ⟨stamped₂, congrArg Prod.fst happend₂⟩
    (by decide) ?_ ⟨_, htimes.1, le_refl _⟩ ⟨_, htimes.2, le_refl _⟩
  · exact ⟨by decide, by decide⟩
  · have hlong := secondsBetween_noon
    have hshort : ((300 : ℚ) : WithTop ℚ) < (675 : ℚ) := WithTop.coe_lt_coe.mpr (by norm_num)
    exact hshort.trans_eq hlong.symm

end EventStore
end Ebabf
