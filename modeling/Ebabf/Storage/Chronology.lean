import Ebabf.Bootstrap.Status
import Ebabf.Storage.Eviction
import Ebabf.Storage.Queries

/-!
# Text order is time order

`ingested_at` is stored and compared as text. Where every stamp is in UTC, the statements that
sort the column or take its ends see the events in the order of their instants.
-/

namespace Ebabf

open Py (Str str Datetime)

/-- `ORDER BY severity ASC, ingested_at ASC, event_id ASC`, with instants for texts. -/
def EventStore.evictionInstants (row : EventRow) : ℕ ×ₗ ℤ ×ₗ Str :=
  toLex (severityExpression row.level, toLex (row.ingestedInstant, row.eventId))

namespace Db

/-- The times of the rows, in the order of `ORDER BY ingested_at`. -/
def sortedTimes (db : Db) : List Datetime :=
  (db.events.orderBy EventRow.ingestedAt).map EventRow.ingestedTime

variable {db : Db}

theorem mem_orderBy {ω : Type} [LinearOrder ω] {order : EventRow → ω} {row : EventRow} :
    row ∈ db.events.orderBy order ↔ row ∈ db.events.rows :=
  (db.events.orderBy_perm order).mem_iff

theorem ingestionTimes_eq (h : db.StampedInUtc) :
    db.ingestionTimes = db.sortedTimes.map Datetime.isoformat := by
  rw [ingestionTimes, sortedTimes, List.map_map]
  apply List.map_congr_left
  intro row hrow
  exact (h.ingestedTime (mem_orderBy.mp hrow)).2.1

theorem sortedTimes_sorted (h : db.StampedInUtc) :
    db.sortedTimes.Pairwise fun a b => a.instant ≤ b.instant := by
  rw [sortedTimes, List.pairwise_map]
  refine (db.events.orderBy_sorted EventRow.ingestedAt).imp_of_mem ?_
  intro row row' hrow hrow' hle
  have hinstants := (h.ingestedAt_le_iff (mem_orderBy.mp hrow) (mem_orderBy.mp hrow')).mp hle
  rwa [(h.ingestedTime (mem_orderBy.mp hrow)).2.2,
    (h.ingestedTime (mem_orderBy.mp hrow')).2.2] at hinstants

theorem sortedTimes_perm (db : Db) :
    db.sortedTimes.Perm (db.events.rows.map EventRow.ingestedTime) :=
  (db.events.orderBy_perm EventRow.ingestedAt).map EventRow.ingestedTime

theorem ingestionTimes_perm (db : Db) :
    db.ingestionTimes.Perm (db.events.rows.map EventRow.ingestedAt) :=
  (db.events.orderBy_perm EventRow.ingestedAt).map EventRow.ingestedAt

theorem firstIngested_eq (h : db.StampedInUtc) :
    db.firstIngested = db.sortedTimes.head?.map Datetime.isoformat := by
  rw [firstIngested, Sql.min?_eq_head? db.ingestionTimes_perm db.ingestionTimes_sorted,
    ingestionTimes_eq h, List.head?_map]

theorem lastIngested_eq (h : db.StampedInUtc) :
    db.lastIngested = db.sortedTimes.getLast?.map Datetime.isoformat := by
  rw [lastIngested, Sql.max?_eq_getLast? db.ingestionTimes_perm db.ingestionTimes_sorted,
    ingestionTimes_eq h, List.getLast?_map]

theorem lag_ingestionTimes (h : db.StampedInUtc) :
    Sql.lag db.ingestionTimes =
      (Sql.lag db.sortedTimes).map (Prod.map Datetime.isoformat Datetime.isoformat) := by
  rw [ingestionTimes_eq h, Sql.lag_map]

/-- The eviction takes the rows of one severity in the order of their instants. -/
theorem orderBy_evictionOrder (h : db.StampedInUtc) :
    db.events.orderBy EventStore.evictionOrder = db.events.orderBy EventStore.evictionInstants := by
  apply Sql.Table.orderBy_congr
  · intro r hr r' hr' hle
    simpa only [EventStore.evictionOrder, EventStore.evictionInstants, Prod.Lex.toLex_le_toLex,
      h.ingestedAt_lt_iff hr hr', h.ingestedAt_eq_iff hr hr'] using hle
  · intro r _ r' _ heq
    exact (Prod.mk.inj (toLex.injective (Prod.mk.inj (toLex.injective heq)).2)).2

end Db

/-- In UTC the order of the texts is that of the instants. So where every row is stamped in UTC
there are its times in their order, such that `ORDER BY` returns them, `MIN` is the first, `MAX`
the last, and `LAG` pairs each with the one before; and eviction and queries sort by instant. -/
theorem text_order_is_time_order :
    (∀ a b : Datetime, a.utcoffset = some 0 → b.utcoffset = some 0 →
      cmp a.isoformat b.isoformat = cmp a.instant b.instant) ∧
    ∀ s : EventStore, s.db.StampedInUtc →
      (∃ times : List Datetime,
        times.Perm (s.db.events.rows.map EventRow.ingestedTime) ∧
        times.Pairwise (fun a b => a.instant ≤ b.instant) ∧
        s.db.ingestionTimes = times.map Datetime.isoformat ∧
        s.db.firstIngested = times.head?.map Datetime.isoformat ∧
        s.db.lastIngested = times.getLast?.map Datetime.isoformat ∧
        Sql.lag s.db.ingestionTimes =
          (Sql.lag times).map (Prod.map Datetime.isoformat Datetime.isoformat)) ∧
      s.db.events.orderBy EventStore.evictionOrder =
        s.db.events.orderBy EventStore.evictionInstants ∧
      (s.db.events.orderBy fun row => toLex (row.ingestedAt, row.eventId)) =
        s.db.events.orderBy fun row => toLex (row.ingestedInstant, row.eventId) := by
  refine ⟨fun a b ha hb => Datetime.cmp_isoformat ha hb, fun s h => ⟨?_, ?_, ?_⟩⟩
  · exact ⟨s.db.sortedTimes, s.db.sortedTimes_perm, Db.sortedTimes_sorted h,
      Db.ingestionTimes_eq h, Db.firstIngested_eq h, Db.lastIngested_eq h,
      Db.lag_ingestionTimes h⟩
  · exact Db.orderBy_evictionOrder h
  · exact List.reverse_injective (EventStore.latestFirst_eq h)

namespace EventStore

def halfASecondLater : Datetime :=
  { noon with
    microsecond := 500000
    time_valid := by decide }

/-- A row with a fraction of a second between two rows without one, stored first. -/
def fractionStore : EventStore :=
  init { Db.empty with
    events := ⟨[{ plainRow (str "EVT-1") with ingestedAt := halfASecondLater.isoformat },
      { plainRow (str "EVT-2") with ingestedAt := afterNoon.isoformat },
      { plainRow (str "EVT-3") with ingestedAt := noon.isoformat }], by decide⟩ } none none

theorem stampedInUtc_fractionStore : fractionStore.db.StampedInUtc := by
  intro row hrow
  simp only [fractionStore, init, List.mem_cons, List.not_mem_nil, or_false] at hrow
  rcases hrow with rfl | rfl | rfl
  · exact ⟨halfASecondLater, rfl, rfl⟩
  · exact ⟨afterNoon, rfl, rfl⟩
  · exact ⟨noon, rfl, rfl⟩

theorem ingestedTimes_fractionStore :
    fractionStore.db.events.rows.map EventRow.ingestedTime =
      [halfASecondLater, afterNoon, noon] := by
  simp only [fractionStore, init, List.map_cons, List.map_nil, EventRow.ingestedTime,
    Datetime.fromisoformat_isoformat, Option.getD_some]

end EventStore

open EventStore

/-- The text without a fraction comes first, as its instant does. -/
theorem text_order_is_time_order_fractions :
    cmp noon.isoformat halfASecondLater.isoformat = .lt ∧
      fractionStore.db.ingestionTimes =
        [noon, halfASecondLater, afterNoon].map Datetime.isoformat ∧
      fractionStore.db.firstIngested = some noon.isoformat ∧
      fractionStore.db.lastIngested = some afterNoon.isoformat := by
  constructor
  · rw [text_order_is_time_order.1 noon halfASecondLater rfl rfl]
    decide
  obtain ⟨⟨times, hperm, hsorted, htimes, hfirst, hlast, -⟩, -⟩ :=
    text_order_is_time_order.2 fractionStore stampedInUtc_fractionStore
  rw [ingestedTimes_fractionStore] at hperm
  have hinjective : ∀ a ∈ [halfASecondLater, afterNoon, noon],
      ∀ b ∈ [noon, halfASecondLater, afterNoon], a.instant = b.instant → a = b := by decide
  have hthree : times = [noon, halfASecondLater, afterNoon] := by
    refine List.Perm.eq_of_pairwise ?_ hsorted (by decide) (hperm.trans (by decide))
    intro a b ha hb hle hge
    exact hinjective a (hperm.mem_iff.mp ha) b hb (le_antisymm hle hge)
  rw [hthree] at htimes hfirst hlast
  exact ⟨htimes, hfirst, hlast⟩

end Ebabf
