import Mathlib.Order.Basic
import Mathlib.Order.Defs.LinearOrder
import Mathlib.Order.MinMax
import Mathlib.Data.List.Basic
import Mathlib.Tactic

/-!
# The value before

`LAG` over a sorted column pairs every value after the first with the one before it. Two different
values are paired exactly when both occur and none lies between them.
-/

namespace Sql

variable {α : Type}

/-- `SELECT LAG(x) OVER (ORDER BY x), x` over the sorted values, less the first row. -/
def lag : List α → List (α × α)
  | [] | [_] => []
  | a :: b :: l => (a, b) :: lag (b :: l)

theorem exists_lag_across {p : α → Prop} {l : List α} (hl : l.Pairwise fun a b => p b → p a)
    (hlow : ∃ a ∈ l, p a) (hhigh : ∃ b ∈ l, ¬p b) : ∃ a b, (a, b) ∈ lag l ∧ p a ∧ ¬p b := by
  fun_induction lag l with
  | case1 =>
    obtain ⟨a, ha, -⟩ := hlow
    cases ha
  | case2 x =>
    obtain ⟨a, ha, hpa⟩ := hlow
    obtain ⟨b, hb, hpb⟩ := hhigh
    rw [List.mem_singleton.mp ha] at hpa
    rw [List.mem_singleton.mp hb] at hpb
    exact absurd hpa hpb
  | case3 x y l ih =>
    have hrest := List.pairwise_cons.mp hl
    have hx : p x := by
      obtain ⟨a, ha, hpa⟩ := hlow
      rcases List.mem_cons.mp ha with rfl | ha
      · exact hpa
      · exact hrest.1 a ha hpa
    by_cases hy : p y
    · have hhigh' : ∃ b ∈ y :: l, ¬p b := by
        obtain ⟨b, hb, hpb⟩ := hhigh
        rcases List.mem_cons.mp hb with rfl | hb
        · exact absurd hx hpb
        · exact ⟨b, hb, hpb⟩
      obtain ⟨a, b, hab, hpa, hpb⟩ := ih hrest.2 ⟨y, List.mem_cons_self .., hy⟩ hhigh'
      exact ⟨a, b, List.mem_cons_of_mem _ hab, hpa, hpb⟩
    · exact ⟨x, y, List.mem_cons_self .., hx, hy⟩

theorem mem_of_mem_lag {l : List α} {a b : α} (h : (a, b) ∈ lag l) : a ∈ l ∧ b ∈ l := by
  fun_induction lag l with
  | case1 => cases h
  | case2 => cases h
  | case3 x y l ih =>
    rcases List.mem_cons.mp h with heq | h
    · cases heq
      exact ⟨List.mem_cons_self .., List.mem_cons_of_mem _ (List.mem_cons_self ..)⟩
    · exact ⟨List.mem_cons_of_mem _ (ih h).1, List.mem_cons_of_mem _ (ih h).2⟩

theorem lag_map {β : Type} (f : α → β) (l : List α) :
    lag (l.map f) = (lag l).map (Prod.map f f) := by
  fun_induction lag l with
  | case1 => rfl
  | case2 x => rfl
  | case3 x y l ih =>
    simp only [List.map_cons, lag] at ih ⊢
    rw [ih]
    rfl

variable [LinearOrder α]

theorem min?_eq_head? {l sorted : List α} (hperm : sorted.Perm l)
    (hsorted : sorted.Pairwise (· ≤ ·)) : l.min? = sorted.head? := by
  cases sorted with
  | nil => simp [hperm.symm.eq_nil]
  | cons a rest =>
    rw [List.head?_cons, List.min?_eq_some_iff]
    refine ⟨hperm.mem_iff.mp (List.mem_cons_self ..), fun b hb => ?_⟩
    rcases List.mem_cons.mp (hperm.mem_iff.mpr hb) with rfl | hrest
    · exact le_refl b
    · exact List.rel_of_pairwise_cons hsorted hrest

theorem max?_eq_getLast? {l sorted : List α} (hperm : sorted.Perm l)
    (hsorted : sorted.Pairwise (· ≤ ·)) : l.max? = sorted.getLast? := by
  rcases List.eq_nil_or_concat' sorted with rfl | ⟨rest, a, rfl⟩
  · simp [hperm.symm.eq_nil]
  · rw [List.getLast?_concat, List.max?_eq_some_iff]
    refine ⟨hperm.mem_iff.mp (by simp), fun b hb => ?_⟩
    rcases List.mem_append.mp (hperm.mem_iff.mpr hb) with hrest | hlast
    · exact (List.pairwise_append.mp hsorted).2.2 b hrest a (List.mem_singleton_self a)
    · rw [List.mem_singleton.mp hlast]

theorem lag_le {l : List α} (hl : l.Pairwise (· ≤ ·)) {a b : α} (h : (a, b) ∈ lag l) : a ≤ b := by
  fun_induction lag l with
  | case1 => cases h
  | case2 => cases h
  | case3 x y l ih =>
    rcases List.mem_cons.mp h with heq | h
    · cases heq
      exact List.rel_of_pairwise_cons hl (List.mem_cons_self ..)
    · exact ih hl.of_cons h

theorem mem_lag_iff {l : List α} (hl : l.Pairwise (· ≤ ·)) {a b : α} (hab : a < b) :
    (a, b) ∈ lag l ↔ a ∈ l ∧ b ∈ l ∧ ∀ c ∈ l, c ≤ a ∨ b ≤ c := by
  fun_induction lag l with
  | case1 => simp
  | case2 x =>
    constructor
    · intro h
      cases h
    · intro h
      obtain ⟨ha, hb, -⟩ := h
      rw [List.mem_singleton.mp ha, List.mem_singleton.mp hb] at hab
      exact absurd hab (lt_irrefl x)
  | case3 x y l ih =>
    have hrest := List.pairwise_cons.mp hl
    have hle : ∀ c ∈ y :: l, y ≤ c := by
      intro c hc
      rcases List.mem_cons.mp hc with rfl | hc
      · exact le_refl c
      · exact (List.pairwise_cons.mp hrest.2).1 c hc
    constructor
    · intro h
      rcases List.mem_cons.mp h with heq | h
      · cases heq
        refine ⟨List.mem_cons_self .., List.mem_cons_of_mem _ (List.mem_cons_self ..), ?_⟩
        intro c hc
        rcases List.mem_cons.mp hc with rfl | hc
        · exact .inl (le_refl c)
        · exact .inr (hle c hc)
      · obtain ⟨ha, hb, hbetween⟩ := (ih hrest.2).mp h
        refine ⟨List.mem_cons_of_mem _ ha, List.mem_cons_of_mem _ hb, ?_⟩
        intro c hc
        rcases List.mem_cons.mp hc with rfl | hc
        · exact .inl (hrest.1 a ha)
        · exact hbetween c hc
    · intro h
      obtain ⟨ha, hb, hbetween⟩ := h
      have hb' : b ∈ y :: l := by
        rcases List.mem_cons.mp hb with rfl | hb'
        · rcases List.mem_cons.mp ha with rfl | ha'
          · exact absurd hab (lt_irrefl a)
          · exact absurd hab (hrest.1 a ha').not_gt
        · exact hb'
      by_cases ha' : a ∈ y :: l
      · refine List.mem_cons_of_mem _ ((ih hrest.2).mpr ⟨ha', hb', ?_⟩)
        intro c hc
        exact hbetween c (List.mem_cons_of_mem _ hc)
      · obtain rfl : a = x := (List.mem_cons.mp ha).resolve_right ha'
        -- the next value is not `a` again, so it is `b`
        rcases hbetween y (List.mem_cons_of_mem _ (List.mem_cons_self ..)) with hya | hby
        · have heq := le_antisymm hya (hrest.1 y (List.mem_cons_self ..))
          exact absurd (heq ▸ List.mem_cons_self ..) ha'
        · obtain rfl := le_antisymm hby (hle b hb')
          exact List.mem_cons_self ..

end Sql
