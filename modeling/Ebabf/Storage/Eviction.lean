import Ebabf.Py.FloatRounding
import Ebabf.Storage.EventStore

/-!
# Eviction

How many rows an eviction keeps, which ones, what its record says, and what the database holds
when it is cut short between two of its statements.
-/

namespace Ebabf.EventStore

open Py (Str str Dict Datetime Json)
open Float.Model Float.Model.UnpackedFloat

/-- The ratio as the interpreter reads it: `0.95` is a little less than 95/100. -/
theorem ratio_eq : UnpackedFloat.ofScientific .binary64 95 (-2) =
    .finite .positive 8556839292003942 (-53) (by decide) := by rfl

/-- The arithmetic of the rounding: `w` is the scale of the product's integer part, `u` that of
its last kept bit, and `k` the integer part of `0.95 n`. -/
theorem ratio_floor {n k m r u v w : ℕ} (hk : k = 95 * n / 100) (hm : m * 2 ^ 53 = n * w)
    (hw : w = u * v) (hv : 32 ≤ v) (hu : 0 < u) (hhalf : 4 * m < 5 * u)
    (hup : 2 * (r * u) ≤ 2 * (m * 8556839292003942) + u)
    (hlow : 2 * (m * 8556839292003942) ≤ 2 * (r * u) + u) : r / v = k := by
  have hwide : 32 * u ≤ w := by
    rw [hw, Nat.mul_comm]
    exact Nat.mul_le_mul_left u hv
  have hfive : 95 * n = 100 * k ∨ 100 * k + 5 ≤ 95 * n ∧ 95 * n ≤ 100 * k + 95 := by omega
  have hscaled : 95 * (m * 2 ^ 53) = 95 * n * w := by rw [hm, Nat.mul_assoc]
  have hrest : 95 * n * w = 100 * (k * w) ∨
      100 * (k * w) + 5 * w ≤ 95 * n * w ∧ 95 * n * w ≤ 100 * (k * w) + 95 * w := by
    rcases hfive with h | ⟨h₁, h₂⟩
    · left
      rw [h, Nat.mul_assoc]
    · right
      have h₃ := Nat.mul_le_mul_right w h₁
      have h₄ := Nat.mul_le_mul_right w h₂
      constructor <;> linarith
  have hkw : k * w = k * v * u := by rw [hw]; ring
  generalize 95 * n * w = x at hscaled hrest
  generalize k * w = y at hkw hrest
  refine Nat.div_eq_of_lt_le ?_ ?_
  · have h : k * v * u < (r + 1) * u := by
      rw [← hkw, Nat.add_mul, Nat.one_mul]
      generalize r * u = z at *
      rcases hrest with h | ⟨h₁, -⟩ <;> linarith
    exact Nat.lt_succ_iff.mp (Nat.lt_of_mul_lt_mul_right h)
  · have h : r * u < (k + 1) * v * u := by
      rw [Nat.add_mul, Nat.add_mul, Nat.one_mul, ← hkw, Nat.mul_comm v u, ← hw]
      generalize r * u = z at *
      rcases hrest with h | ⟨-, h₂⟩ <;> linarith
    exact Nat.lt_of_mul_lt_mul_right h

/-- For every cap a table can exceed, the float product rounds down to `⌊0.95 n⌋`. -/
theorem evictTo_eq {n : ℕ} (hn : 0 < n) (hlt : n < 2 ^ 48) : evictTo n = (95 * n / 100 : ℕ) := by
  have hlog : n.log2 ≤ 47 := Nat.lt_succ_iff.mp ((Nat.log2_lt hn.ne').mpr hlt)
  set l := n.log2 with hl
  set m := n * 2 ^ (52 - l) with hm
  obtain ⟨hmlow, hmhigh⟩ : 2 ^ 52 ≤ m ∧ m < 2 ^ 53 := Py.normalized_bounds hn (by omega)
  set p := m * 8556839292003942 with hp
  have hplog : p.log2 = 104 ∨ p.log2 = 105 := by
    have h₁ : p.log2 < 106 := (Nat.log2_lt (by omega)).mpr (by omega)
    have h₂ : 104 ≤ p.log2 := (Nat.le_log2 (by omega)).mpr (by omega)
    omega
  have hproduct : evictTo n =
      (roundWithAccuracy .binary64 .positive p (l - 105 : ℤ) .exact).toInt 0 0 := by
    have hexp : (l : ℤ) - 52 + -53 = l - 105 := by omega
    rw [evictTo, Py.floatOfInt_eq hn (by omega), ratio_eq, UnpackedFloat.mul, hexp]
    rfl
  have hs : Py.shiftAmount .binary64 p (l - 105 : ℤ) = p.log2 - 52 := by
    rw [Py.shiftAmount_binary64]
    omega
  set s := p.log2 - 52 with hs_def
  have hbounds := Py.roundedMantissa_bounds p s
  set r := ((⟨p, false, false⟩ : ExtendedMantissa) >>> s).roundedMantissa with hr
  have hphigh : p < 2 ^ (s + 53) := by
    have hself := Nat.lt_log2_self (n := p)
    rwa [show p.log2 + 1 = s + 53 by omega] at hself
  have hrhigh : r ≤ 2 ^ 53 := Py.roundedMantissa_le hphigh
  have hrlog : r.log2 ≤ 53 := by
    rcases Nat.eq_zero_or_pos r with h0 | h0
    · rw [h0]
      decide
    · exact Nat.lt_succ_iff.mp ((Nat.log2_lt h0.ne').mpr (by omega))
  set t := 105 - l - s with ht
  have hkeep : Py.shiftAmount .binary64 r (-t) ≤ t :=
    Py.shiftAmount_fraction hrlog (by omega) (by omega)
  rw [hproduct, Py.toInt_roundWithAccuracy (r := r) (t := t) (by rw [hs]) (by rw [hs]; omega) hkeep]
  congr 1
  refine ratio_floor (w := 2 ^ (105 - l)) rfl ?_ ?_ ?_ (Nat.two_pow_pos s) ?_ hbounds.1 hbounds.2
  · rw [hm, Nat.mul_assoc, ← pow_add]
    congr 2
    omega
  · rw [← pow_add]
    congr 1
    omega
  · calc 32 = 2 ^ 5 := rfl
      _ ≤ 2 ^ t := Nat.pow_le_pow_right (by decide) (by omega)
  · -- half a unit at the product's scale outweighs what `0.95` falls short by
    rcases hplog with h | h
    · rw [show s = 52 by omega] at hphigh ⊢
      omega
    · rw [show s = 53 by omega]
      omega

theorem one_le_evictionTarget (maxEvents : ℤ) : 1 ≤ evictionTarget maxEvents := le_max_left _ _

theorem evictionTarget_eq {n : ℕ} (hn : 0 < n) (hlt : n < SQLITE_MAX_ROWS) :
    evictionTarget n = (max 1 (95 * n / 100) : ℕ) := by
  rw [evictionTarget, evictTo_eq hn hlt]
  simp

theorem evictionTarget_le {n : ℕ} (hn : 0 < n) (hlt : n < SQLITE_MAX_ROWS) :
    evictionTarget n ≤ n := by
  rw [evictionTarget_eq hn hlt]
  omega

section Rows

variable (maxEvents : ℤ) (droppedAt : Datetime) (s : EventStore)

theorem evictionOrder_injective (r t : EventRow) (h : evictionOrder r = evictionOrder t) :
    r.eventId = t.eventId := by
  have h₁ := congrArg (fun x => (ofLex (ofLex x).2).2) h
  exact h₁

theorem length_doomed :
    (s.doomed maxEvents).length = min (s.surplus maxEvents).toNat s.db.rowCount :=
  s.db.events.length_select evictionOrder _

theorem doomed_eq_nil : s.doomed maxEvents = [] ↔
    s.surplus maxEvents ≤ 0 ∨ s.db.events.rows = [] := by
  rw [← List.length_eq_zero_iff, length_doomed, Db.rowCount, ← List.length_eq_zero_iff]
  omega

theorem evictUpTo_of_doomed_eq_nil {maxEvents : ℤ} {s : EventStore}
    (h : s.doomed maxEvents = []) (point : EvictionPoint) :
    s.evictUpTo point maxEvents droppedAt = s := by
  unfold evictUpTo
  split_ifs
  · rfl
  · exact if_pos h

/-- What the DELETE leaves. -/
def deletedDb : Db :=
  { s.db with events := s.db.events.deleteFirst evictionOrder (s.surplus maxEvents).toNat }

theorem rowCount_deletedDb :
    (s.deletedDb maxEvents).rowCount + (s.doomed maxEvents).length = s.db.rowCount := by
  rw [length_doomed, Db.rowCount, deletedDb, Sql.Table.length_deleteFirst, Db.rowCount]
  omega

theorem surplus_pos {maxEvents : ℤ} {s : EventStore} (h : s.doomed maxEvents ≠ []) :
    0 < s.surplus maxEvents := by
  by_contra hcon
  exact h ((s.doomed_eq_nil maxEvents).mpr (.inl (Int.not_lt.mp hcon)))

/-- What is on disk when an eviction with rows to drop is cut short. -/
theorem db_evictUpTo {maxEvents : ℤ} {s : EventStore} (h : s.doomed maxEvents ≠ [])
    (point : EvictionPoint) : (s.evictUpTo point maxEvents droppedAt).db =
      match point with
      | .selected => s.db
      | .deleted | .counted | .clockRead => s.deletedDb maxEvents
      | .recorded => { s.deletedDb maxEvents with
          overflowDrops := s.db.overflowDrops ++
            [dropRecord maxEvents (s.doomed maxEvents) droppedAt] } := by
  unfold evictUpTo
  rw [if_neg (Int.not_le.mpr (surplus_pos h)), if_neg h]
  cases point <;> rfl

theorem rowCount_evictLocked {maxEvents : ℤ} {s : EventStore} (h : s.doomed maxEvents ≠ []) :
    (s.evictLocked maxEvents droppedAt).rowCount = s.rowCount - (s.doomed maxEvents).length := by
  unfold evictLocked evictUpTo
  rw [if_neg (Int.not_le.mpr (surplus_pos h)), if_neg h]

theorem evictLocked_frame : ∃ db rowCount,
    s.evictLocked maxEvents droppedAt = { s with db, rowCount } := by
  by_cases h : s.doomed maxEvents = []
  · exact ⟨s.db, s.rowCount, evictUpTo_of_doomed_eq_nil droppedAt h .recorded⟩
  · unfold evictLocked evictUpTo
    rw [if_neg (Int.not_le.mpr (surplus_pos h)), if_neg h]
    exact ⟨_, _, rfl⟩

end Rows

theorem breakdown_concat (rows : List EventRow) (row : EventRow) :
    breakdown (rows ++ [row]) =
      (breakdown rows).set (levelLabel row) ((breakdown rows).get (levelLabel row) 0 + 1) := by
  rw [breakdown, List.foldl_append]
  rfl

theorem get_breakdown (rows : List EventRow) (label : Str) :
    (breakdown rows).get label 0 = rows.countP fun row => levelLabel row = label := by
  induction rows using List.reverseRecOn with
  | nil => rfl
  | append_singleton rows row ih =>
    rw [breakdown_concat, Dict.get_set, List.countP_append, List.countP_singleton]
    by_cases h : label = levelLabel row
    · subst h
      simp [ih]
    · simp [h, Ne.symm h, ih]

theorem sum_breakdown (rows : List EventRow) : (breakdown rows).values.sum = rows.length := by
  induction rows using List.reverseRecOn with
  | nil => rfl
  | append_singleton rows row ih =>
    rw [breakdown_concat, Dict.sum_values_count, ih, List.length_append, List.length_singleton]

theorem sortedTimes_perm (rows : List EventRow) :
    (sortedTimes rows).Perm (rows.map EventRow.ingestedAt) := List.mergeSort_perm _ _

theorem sortedTimes_sorted (rows : List EventRow) : (sortedTimes rows).Pairwise (· ≤ ·) := by
  have h := @List.pairwise_mergeSort Str (fun a b => decide (a ≤ b))
    (fun a b c hab hbc => by
      rw [decide_eq_true_eq] at hab hbc ⊢
      exact hab.trans hbc)
    (fun a b => by
      rw [Bool.or_eq_true, decide_eq_true_eq, decide_eq_true_eq]
      exact le_total _ _) (rows.map EventRow.ingestedAt)
  exact h.imp fun hab => by simpa using hab

/-- A drop record that tells the truth about the rows it stands for. -/
structure Accounts (drop : OverflowDrop) (removed : List EventRow) : Prop where
  event_count : drop.eventCount = removed.length
  level_breakdown : ∃ d : Dict ℕ, drop.levelBreakdown = Json.dumps none (breakdownJson d) ∧
    (∀ label, d.get label 0 = removed.countP fun row => row.level.getD (str "unscored") = label) ∧
    d.values.sum = drop.eventCount
  oldest : drop.oldestIngestedAt ∈ removed.map EventRow.ingestedAt ∧
    ∀ row ∈ removed, drop.oldestIngestedAt ≤ row.ingestedAt
  newest : drop.newestIngestedAt ∈ removed.map EventRow.ingestedAt ∧
    ∀ row ∈ removed, row.ingestedAt ≤ drop.newestIngestedAt

theorem Accounts.perm {drop : OverflowDrop} {rows removed : List EventRow}
    (h : Accounts drop rows) (hperm : rows.Perm removed) : Accounts drop removed := by
  obtain ⟨d, htext, hcount, hsum⟩ := h.level_breakdown
  have hmap := hperm.map EventRow.ingestedAt
  exact {
    event_count := h.event_count.trans hperm.length_eq
    level_breakdown := ⟨d, htext, fun label => (hcount label).trans (hperm.countP_eq _), hsum⟩
    oldest := ⟨hmap.mem_iff.mp h.oldest.1, fun row hrow => h.oldest.2 row (hperm.mem_iff.mpr hrow)⟩
    newest := ⟨hmap.mem_iff.mp h.newest.1,
      fun row hrow => h.newest.2 row (hperm.mem_iff.mpr hrow)⟩ }

theorem accounts_dropRecord (maxEvents : ℤ) {rows : List EventRow} (hne : rows ≠ [])
    (droppedAt : Datetime) : Accounts (dropRecord maxEvents rows droppedAt) rows := by
  have hsorted := sortedTimes_sorted rows
  have hperm := sortedTimes_perm rows
  have hmem : ∀ row ∈ rows, row.ingestedAt ∈ sortedTimes rows := fun row hrow =>
    hperm.mem_iff.mpr (List.mem_map_of_mem hrow)
  have htimes : sortedTimes rows ≠ [] := by
    intro h
    rw [h, List.nil_perm, List.map_eq_nil_iff] at hperm
    exact hne hperm
  refine ⟨rfl, ⟨breakdown rows, rfl, get_breakdown rows, sum_breakdown rows⟩, ?_, ?_⟩
  · obtain ⟨t, ts, ht⟩ := List.exists_cons_of_ne_nil htimes
    simp only [dropRecord, ht, List.headD_cons]
    rw [ht] at hsorted hperm hmem
    refine ⟨hperm.mem_iff.mp List.mem_cons_self, fun row hrow => ?_⟩
    rcases List.mem_cons.mp (hmem row hrow) with h | h
    · exact h ▸ le_rfl
    · exact (List.pairwise_cons.mp hsorted).1 _ h
  · obtain ⟨ts, t, ht⟩ := (List.eq_nil_or_concat (sortedTimes rows)).resolve_left htimes
    rw [List.concat_eq_append] at ht
    simp only [dropRecord, ht, List.getLastD_concat]
    rw [ht] at hsorted hperm hmem
    refine ⟨hperm.mem_iff.mp (List.mem_append_right _ List.mem_cons_self), fun row hrow => ?_⟩
    rcases List.mem_append.mp (hmem row hrow) with h | h
    · exact (List.pairwise_append.mp hsorted).2.2 _ h _ List.mem_cons_self
    · rw [List.mem_singleton] at h
      exact h ▸ le_rfl

/-- The levels from the least worth keeping to the most; an unscored row has none. -/
def levelsByValue : List (Option RiskLevel) :=
  [some .normal, some .low, none, some .medium, some .high, some .critical]

/-- The level a stored text names. -/
def storedLevel (text : Option Str) : Option RiskLevel :=
  RiskLevel.all.find? fun level => text = some level.value

/-- What a row is worth: its level first, then when it was ingested, then its id. -/
def valueOrder (row : EventRow) : ℕ ×ₗ Str ×ₗ Str :=
  toLex (levelsByValue.idxOf (storedLevel row.level), toLex (row.ingestedAt, row.eventId))

theorem severityRank_eq (level : Option RiskLevel) :
    severityRank level = levelsByValue.idxOf level := by
  cases level with
  | none => rfl
  | some level => cases level <;> rfl

theorem severityExpression_eq (text : Option Str) :
    severityExpression text = levelsByValue.idxOf (storedLevel text) := by
  unfold severityExpression
  split_ifs with h₀ h₁ h₂ h₃ h₄
  all_goals rw [severityRank_eq]
  · rw [h₀]
    rfl
  · rw [h₁]
    rfl
  · rw [h₂]
    rfl
  · rw [h₃]
    rfl
  · rw [h₄]
    rfl
  · have hnone : storedLevel text = none := by
      rw [storedLevel, List.find?_eq_none]
      intro level _
      cases level <;> simpa
    rw [hnone]

/-- Both statements order the rows by what they are worth. -/
theorem evictionOrder_eq : evictionOrder = valueOrder := by
  funext row
  rw [evictionOrder, valueOrder, severityExpression_eq]

/-- `after` is what is left of `before` when only its top `count` rows in the order are kept. -/
structure TopRows {ρ ω : Type} [LT ω] (order : ρ → ω) (count : ℕ) (before after : List ρ) :
    Prop where
  kept : after.Sublist before
  length_eq : after.length = count
  least : ∀ r ∈ before, r ∉ after → ∀ k ∈ after, order r < order k

theorem TopRows.perm {ρ ω : Type} [Preorder ω] {order : ρ → ω} {count : ℕ}
    {before after after' : List ρ} (hnodup : before.Nodup) (h : TopRows order count before after)
    (h' : TopRows order count before after') : after.Perm after' := by
  have hafter : after.Nodup := h.kept.nodup hnodup
  have hsub : after ⊆ after' := by
    intro r hr
    by_contra hnot
    -- as many rows are kept either way, so another one has taken the place of `r`
    obtain ⟨k, hk, hknot⟩ : ∃ k ∈ after', k ∉ after := by
      by_contra hcon
      push Not at hcon
      have hperm : after'.Perm after :=
        (List.subperm_of_subset (h'.kept.nodup hnodup) hcon).perm_of_length_le
          (by rw [h.length_eq, h'.length_eq])
      exact hnot (hperm.mem_iff.mpr hr)
    have hlt : order r < order k := h'.least r (h.kept.subset hr) hnot k hk
    have hgt : order k < order r := h.least k (h'.kept.subset hk) hknot r hr
    exact lt_asymm hlt hgt
  exact (List.subperm_of_subset hafter hsub).perm_of_length_le (by rw [h.length_eq, h'.length_eq])

theorem topRows_deletedDb {maxEvents : ℤ} {s : EventStore}
    (hcount : s.rowCount = s.db.rowCount) (hsurplus : 0 ≤ s.surplus maxEvents) :
    TopRows valueOrder (evictionTarget maxEvents).toNat s.db.events.rows
      (s.deletedDb maxEvents).events.rows := by
  have htarget := one_le_evictionTarget maxEvents
  rw [← evictionOrder_eq]
  refine ⟨s.db.events.deleteFirst_sublist evictionOrder _, ?_, fun r hr hnot k hk => ?_⟩
  · rw [deletedDb, Sql.Table.length_deleteFirst]
    simp only [surplus, Db.rowCount] at *
    omega
  · refine s.db.events.select_lt_deleteFirst evictionOrder _
      (fun r _ t _ h => evictionOrder_injective r t h) ?_ hk
    have hperm := s.db.events.select_append_deleteFirst_perm evictionOrder (s.surplus maxEvents).toNat
    exact (List.mem_append.mp (hperm.mem_iff.mpr hr)).resolve_right hnot

/-- The rows the first statement read are the rows the second one removed. -/
theorem doomed_perm (maxEvents : ℤ) (s : EventStore) :
    (s.doomed maxEvents).Perm
      (s.db.events.rows.filter fun row => row ∉ (s.deletedDb maxEvents).events.rows) := by
  set after := (s.deletedDb maxEvents).events.rows with hafter
  have hperm := s.db.events.select_append_deleteFirst_perm evictionOrder (s.surplus maxEvents).toNat
  have hnodup : s.db.events.rows.Nodup := s.db.events.distinct.of_map
  have hdisjoint := (List.nodup_append.mp (hperm.nodup_iff.mpr hnodup)).2.2
  have hfilter := hperm.filter fun row => row ∉ after
  rw [List.filter_append, List.filter_eq_self.mpr, List.filter_eq_nil_iff.mpr, List.append_nil]
    at hfilter
  · exact hfilter
  · intro row hrow
    have hrow : row ∈ after := hrow
    simpa using hrow
  · intro row hrow
    have hnot : row ∉ after := fun hmem => hdisjoint row hrow row hmem rfl
    simpa using hnot

/-- Stored rows and recorded drops together are as many as before. -/
def NoUnrecordedDrop (before after : Db) : Prop :=
  after.rowCount + after.droppedEventCount = before.rowCount + before.droppedEventCount

/-- The durable state between the DELETE and the INSERT of the record. -/
theorem unrecorded_between {maxEvents : ℤ} {s : EventStore} (h : s.doomed maxEvents ≠ [])
    (droppedAt : Datetime) (point : EvictionPoint) (hselected : point ≠ .selected)
    (hrecorded : point ≠ .recorded) :
    ¬NoUnrecordedDrop s.db (s.evictUpTo point maxEvents droppedAt).db := by
  have hrows := s.rowCount_deletedDb maxEvents
  have hpos := List.length_pos_of_ne_nil h
  have hdrops : (s.deletedDb maxEvents).droppedEventCount = s.db.droppedEventCount := rfl
  rw [NoUnrecordedDrop, db_evictUpTo droppedAt h]
  cases point with
  | selected => exact absurd rfl hselected
  | recorded => exact absurd rfl hrecorded
  | deleted | counted | clockRead =>
    dsimp only
    omega

theorem noUnrecordedDrop_recorded (maxEvents : ℤ) (droppedAt : Datetime) (s : EventStore) :
    NoUnrecordedDrop s.db (s.evictLocked maxEvents droppedAt).db := by
  by_cases h : s.doomed maxEvents = []
  · rw [evictLocked, evictUpTo_of_doomed_eq_nil droppedAt h, NoUnrecordedDrop]
  · have hrows := s.rowCount_deletedDb maxEvents
    rw [NoUnrecordedDrop, evictLocked, db_evictUpTo droppedAt h]
    simp only [Db.rowCount, Db.droppedEventCount, List.map_append, List.map_cons, List.map_nil,
      List.sum_append, List.sum_cons, List.sum_nil, dropRecord] at hrows ⊢
    omega

/-- An interrupted eviction leaves no unrecorded drop exactly when it stops outside the window
between its DELETE and the INSERT of its record, or has nothing to drop. -/
theorem evictUpTo_noUnrecordedDrop_iff (point : EvictionPoint) (maxEvents : ℤ)
    (droppedAt : Datetime) (s : EventStore) :
    NoUnrecordedDrop s.db (s.evictUpTo point maxEvents droppedAt).db ↔
      point = .selected ∨ point = .recorded ∨ s.surplus maxEvents ≤ 0 ∨
        s.db.events.rows = [] := by
  rw [← doomed_eq_nil]
  constructor
  · intro h
    by_contra hcon
    rw [not_or, not_or] at hcon
    exact unrecorded_between hcon.2.2 droppedAt point hcon.1 hcon.2.1 h
  · rintro (rfl | rfl | h)
    · by_cases h : s.doomed maxEvents = []
      · rw [evictUpTo_of_doomed_eq_nil droppedAt h, NoUnrecordedDrop]
      · rw [db_evictUpTo droppedAt h, NoUnrecordedDrop]
    · exact noUnrecordedDrop_recorded maxEvents droppedAt s
    · rw [evictUpTo_of_doomed_eq_nil droppedAt h, NoUnrecordedDrop]

/-- A row with nothing optional in it. -/
def plainRow (eventId : Str) : EventRow :=
  { eventId
    timestamp := str "2026-07-01T12:00:00+00:00"
    ingestedAt := str "2026-07-01T12:00:00+00:00"
    hostId := str "host"
    tenantId := str "default"
    subjectPseudonym := str "USR-0123456789abcdef0123456789abcdef"
    source := EventSource.process.value
    rawAttributes := str "\x7b\x7d"
    extractedFeatures := str "\x7b\x7d"
    rawScore := none
    contextModifier := none
    finalScore := none
    confidence := none
    level := none
    degradedLayers := str "[]"
    triggeredRuleIds := str "[]"
    decision := none
    enforced := 0
    enforcementBlockedReason := none
    explanation := str "\x7b\x7d"
    schemaVersion := SCHEMA_VERSION }

/-- Two rows under a cap of one. -/
def overfullStore : EventStore :=
  init { Db.empty with events := ⟨[plainRow (str "EVT-1"), plainRow (str "EVT-2")], by decide⟩ }
    (some 1) none

/-- Killed right after its DELETE, an eviction of one row leaves one row and no record. -/
theorem evictUpTo_deleted_unrecorded :
    ¬∀ (point : EvictionPoint) (maxEvents : ℤ) (droppedAt : Datetime) (s : EventStore),
      NoUnrecordedDrop s.db (s.evictUpTo point maxEvents droppedAt).db := by
  intro h
  have hsurplus : overfullStore.surplus 1 = 1 := by
    have htarget : evictionTarget 1 = 1 := evictionTarget_eq (n := 1) (by decide) (by decide)
    have hrows : overfullStore.rowCount = 2 := rfl
    simp only [surplus, hrows]
    omega
  refine unrecorded_between (fun hnil => ?_) Datetime.epoch .deleted (by decide) (by decide)
    (h .deleted 1 Datetime.epoch overfullStore)
  rcases (overfullStore.doomed_eq_nil 1).mp hnil with h₁ | h₁
  · omega
  · cases h₁

end Ebabf.EventStore
