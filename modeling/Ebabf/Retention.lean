import Mathlib.Data.List.Count
import Mathlib.Data.List.Perm.Subperm
import Mathlib.Order.Basic
import Mathlib.Tactic

/-!
# Retention

Rows are taken in, and from time to time all but the highest in an order are dropped. A row taken
before an eviction competes with rows that come after it; what was dropped is outranked all the
same, by as many rows as the smallest of the evictions keeps.
-/

namespace Retention

variable {ρ ω : Type} [LinearOrder ω] {order : ρ → ω} {k : ℕ} {taken kept kept' : List ρ}

/-- How many of the rows rank above one. -/
def above (order : ρ → ω) (row : ρ) (rows : List ρ) : ℕ :=
  rows.countP fun r => order row < order r

/-- Each row that was taken and is not kept has `k` rows above it that are. -/
def Retains (order : ρ → ω) (k : ℕ) (taken kept : List ρ) : Prop :=
  ∀ row ∈ taken, row ∉ kept → k ≤ above order row kept

theorem above_le_of_subperm {row : ρ} (h : kept.Subperm taken) :
    above order row kept ≤ above order row taken := h.countP_le _

theorem above_eq_length {row : ρ} (h : ∀ r ∈ kept, order row < order r) :
    above order row kept = kept.length :=
  List.countP_eq_length.mpr fun r hr => decide_eq_true (h r hr)

namespace Retains

theorem refl (order : ρ → ω) (k : ℕ) (rows : List ρ) : Retains order k rows rows :=
  fun _ hrow hnot => absurd hrow hnot

theorem take (h : Retains order k taken kept) (x : ρ) :
    Retains order k (taken ++ [x]) (kept ++ [x]) := by
  intro row hrow hnot
  rw [List.mem_append, not_or] at hnot
  have htaken : row ∈ taken := (List.mem_append.mp hrow).resolve_right hnot.2
  calc k ≤ above order row kept := h row htaken hnot.1
    _ ≤ above order row (kept ++ [x]) := above_le_of_subperm (List.sublist_append_left _ _).subperm

theorem drop (h : Retains order k taken kept) (hnodup : kept.Nodup)
    (hleast : ∀ r ∈ kept, r ∉ kept' → ∀ t ∈ kept', order r < order t) (hk : k ≤ kept'.length) :
    Retains order k taken kept' := by
  intro row htaken hnot
  by_cases hrow : row ∈ kept
  · rw [above_eq_length (hleast row hrow hnot)]
    exact hk
  -- a row dropped before is below all that is kept now, or no row above it goes
  by_cases hcut : ∃ t ∈ kept, order row < order t ∧ t ∉ kept'
  · obtain ⟨t, ht, hlt, hgone⟩ := hcut
    rw [above_eq_length fun r hr => hlt.trans (hleast t ht hgone r hr)]
    exact hk
  · have hsubset : kept.filter (fun r => order row < order r) ⊆
        kept'.filter fun r => order row < order r := by
      intro t ht
      obtain ⟨ht, hlt⟩ := List.mem_filter.mp ht
      have hkept : t ∈ kept' := by
        by_contra hgone
        exact hcut ⟨t, ht, of_decide_eq_true hlt, hgone⟩
      exact List.mem_filter.mpr ⟨hkept, hlt⟩
    have hle := ((hnodup.filter _).subperm hsubset).length_le
    rw [← List.countP_eq_length_filter, ← List.countP_eq_length_filter] at hle
    exact (h row htaken hrow).trans hle

/-- A row with fewer than `k` rows above it, of all that were taken, is kept. -/
theorem mem (h : Retains order k taken kept) (hsub : kept.Subperm taken) {row : ρ}
    (hrow : row ∈ taken) (hfew : above order row taken < k) : row ∈ kept := by
  by_contra hnot
  have hmany := (h row hrow hnot).trans (above_le_of_subperm hsub)
  omega

end Retains

end Retention
