import Mathlib.Data.List.Lex
import Mathlib.Data.List.Nodup
import Mathlib.Data.List.Perm.Basic
import Mathlib.Order.Basic
import Mathlib.Tactic

/-!
# Keyed tables

A table with a primary key is a list of rows with distinct keys. `SELECT … ORDER BY … LIMIT` and
`DELETE … WHERE key IN (SELECT … ORDER BY … LIMIT)` are the two statements treated here. When the
order is total they agree on which rows they touch: the deletion leaves exactly the rows the
selection did not return.
-/

namespace Sql

/-- Whether an integer fits the 64 bits of an SQLite one. -/
def FitsInteger (n : ℤ) : Prop := -2 ^ 63 ≤ n ∧ n < 2 ^ 63

instance (n : ℤ) : Decidable (FitsInteger n) := inferInstanceAs (Decidable (_ ∧ _))

/-- `LIMIT limit` -/
def limited {α : Type} (limit : ℤ) (rows : List α) : List α :=
  if limit < 0 then rows else rows.take limit.toNat

theorem forall₂_limited {α β : Type} {R : α → β → Prop} {rows : List α} {rows' : List β}
    (limit : ℤ) (h : List.Forall₂ R rows rows') :
    List.Forall₂ R (limited limit rows) (limited limit rows') := by
  unfold limited
  split_ifs
  · exact h
  · exact List.forall₂_take _ h

structure Table (ρ : Type) {κ : Type} (key : ρ → κ) where
  rows : List ρ
  distinct : (rows.map key).Nodup

namespace Table

variable {ρ κ ω : Type} {key : ρ → κ}

instance : EmptyCollection (Table ρ key) := ⟨⟨[], List.nodup_nil⟩⟩

@[simp] theorem rows_empty : (∅ : Table ρ key).rows = [] := rfl

@[ext] theorem ext {t u : Table ρ key} (h : t.rows = u.rows) : t = u := by
  cases t
  cases u
  cases h
  rfl

section Statements

variable [DecidableEq κ]

/-- `INSERT`; nothing when the key is taken. -/
def insert (row : ρ) (t : Table ρ key) : Option (Table ρ key) :=
  if h : key row ∈ t.rows.map key then none
  else some ⟨t.rows ++ [row], by
    rw [List.map_append]
    exact t.distinct.append (List.nodup_singleton _) (by simpa using h)⟩

/-- `DELETE … WHERE key IN (keys)`. -/
def deleteIn (keys : List κ) (t : Table ρ key) : Table ρ key :=
  ⟨t.rows.filter fun r => key r ∉ keys, t.distinct.sublist (List.filter_sublist.map key)⟩

end Statements

/-- `SELECT … ORDER BY order ASC`. -/
def orderBy [LinearOrder ω] (order : ρ → ω) (t : Table ρ key) : List ρ :=
  t.rows.mergeSort fun r s => decide (order r ≤ order s)

/-- `SELECT … ORDER BY order ASC LIMIT limit`. -/
def select [LinearOrder ω] (order : ρ → ω) (limit : ℕ) (t : Table ρ key) : List ρ :=
  (t.orderBy order).take limit

/-- `DELETE … WHERE key IN (SELECT key … ORDER BY order ASC LIMIT limit)`. -/
def deleteFirst [DecidableEq κ] [LinearOrder ω] (order : ρ → ω) (limit : ℕ) (t : Table ρ key) :
    Table ρ key :=
  t.deleteIn ((t.select order limit).map key)

theorem rows_insert [DecidableEq κ] {row : ρ} {t u : Table ρ key} (h : t.insert row = some u) :
    u.rows = t.rows ++ [row] := by
  unfold insert at h
  split_ifs at h
  cases h
  rfl

theorem insert_eq_none [DecidableEq κ] {row : ρ} {t : Table ρ key} :
    t.insert row = none ↔ key row ∈ t.rows.map key := by
  unfold insert
  split_ifs with h <;> simp [h]

theorem find?_key [DecidableEq κ] {row : ρ} {t : Table ρ key} (h : row ∈ t.rows) :
    t.rows.find? (fun r => key r = key row) = some row := by
  cases hfind : t.rows.find? fun r => key r = key row with
  | none =>
    rw [List.find?_eq_none] at hfind
    exact absurd (decide_eq_true rfl) (hfind row h)
  | some r =>
    have hkey := List.find?_some hfind
    rw [decide_eq_true_eq] at hkey
    have hmem := List.mem_of_find?_eq_some hfind
    exact congrArg some (List.inj_on_of_nodup_map t.distinct hmem h hkey)

theorem take_filter_cons_ne {p q : ρ → Bool} {x : ρ} (hp : p x = true) (hq : q x = false) (n : ℕ)
    (l : List ρ) : ((x :: l).filter p).take (n + 1) ≠ ((x :: l).filter q).take (n + 1) := by
  intro h
  have hmem : x ∈ ((x :: l).filter q).take (n + 1) := by
    rw [← h, List.filter_cons_of_pos hp, List.take_succ_cons]
    exact List.mem_cons_self ..
  have hx := (List.mem_filter.mp (List.mem_of_mem_take hmem)).2
  rw [hq] at hx
  cases hx

/-- `WHERE p … LIMIT n` and `WHERE q … LIMIT n` return the same rows exactly when every row on which
the conditions differ comes after `n` rows that are returned anyway. -/
theorem take_filter_eq_iff {p q : ρ → Bool} {n : ℕ} {l : List ρ} :
    (l.filter p).take n = (l.filter q).take n ↔
      ∀ before r after, l = before ++ r :: after → p r ≠ q r → n ≤ (before.filter q).length := by
  induction l generalizing n with
  | nil => simp
  | cons x l ih =>
    -- the first row, or one of the others behind it
    have hsplit : (∀ before r after, x :: l = before ++ r :: after → p r ≠ q r →
          n ≤ (before.filter q).length) ↔ (p x ≠ q x → n = 0) ∧
        ∀ before r after, l = before ++ r :: after → p r ≠ q r →
          n ≤ ((x :: before).filter q).length := by
      constructor
      · intro h
        refine ⟨fun hne => Nat.le_zero.mp (h [] x l rfl hne), ?_⟩
        intro before r after hl
        exact h (x :: before) r after (by rw [hl, List.cons_append])
      · intro h before r after hl hne
        cases before with
        | nil =>
          cases hl
          exact (h.1 hne).le
        | cons y before =>
          cases hl
          exact h.2 before r after rfl hne
    rw [hsplit]
    cases n with
    | zero => simp
    | succ n =>
      cases hp : p x with
      | true =>
        cases hq : q x with
        | true =>
          rw [List.filter_cons_of_pos hp, List.filter_cons_of_pos hq, List.take_succ_cons,
            List.take_succ_cons, List.cons_inj_right, ih]
          simp only [ne_eq, not_true_eq_false, false_implies, true_and, List.filter_cons_of_pos hq,
            List.length_cons, Nat.add_le_add_iff_right]
        | false =>
          refine iff_of_false (take_filter_cons_ne hp hq n l) fun h => ?_
          exact absurd (h.1 (by simp)) (Nat.succ_ne_zero n)
      | false =>
        cases hq : q x with
        | true =>
          refine iff_of_false (take_filter_cons_ne hq hp n l).symm fun h => ?_
          exact absurd (h.1 (by simp)) (Nat.succ_ne_zero n)
        | false =>
          rw [List.filter_cons_of_neg (by simp [hp]), List.filter_cons_of_neg (by simp [hq]), ih]
          simp only [ne_eq, not_true_eq_false, false_implies, true_and,
            List.filter_cons_of_neg (p := q) (by simp [hq] : ¬q x = true)]

section Order

variable [LinearOrder ω] (order : ρ → ω) (limit : ℕ) (t : Table ρ key)

theorem orderBy_perm : (t.orderBy order).Perm t.rows := List.mergeSort_perm _ _

theorem orderBy_sorted : (t.orderBy order).Pairwise fun r s => order r ≤ order s := by
  have h := @List.pairwise_mergeSort _ (fun r s => decide (order r ≤ order s))
    (fun a b c hab hbc => by
      rw [decide_eq_true_eq] at hab hbc ⊢
      exact hab.trans hbc)
    (fun a b => by
      rw [Bool.or_eq_true, decide_eq_true_eq, decide_eq_true_eq]
      exact le_total _ _) t.rows
  exact h.imp fun hab => by simpa using hab

theorem orderBy_congr {ω' : Type} [LinearOrder ω'] {order' : ρ → ω'}
    (hle : ∀ r ∈ t.rows, ∀ s ∈ t.rows, order r ≤ order s → order' r ≤ order' s)
    (hinj : ∀ r ∈ t.rows, ∀ s ∈ t.rows, order' r = order' s → key r = key s) :
    t.orderBy order = t.orderBy order' := by
  have hmem : ∀ r ∈ t.orderBy order, r ∈ t.rows := fun r => (t.orderBy_perm order).mem_iff.mp
  have hmem' : ∀ r ∈ t.orderBy order', r ∈ t.rows := fun r => (t.orderBy_perm order').mem_iff.mp
  have hsorted : (t.orderBy order).Pairwise fun r s => order' r ≤ order' s :=
    (t.orderBy_sorted order).imp_of_mem fun {r s} hr hs => hle r (hmem r hr) s (hmem s hs)
  refine List.Perm.eq_of_pairwise ?_ hsorted (t.orderBy_sorted order')
    ((t.orderBy_perm order).trans (t.orderBy_perm order').symm)
  intro r s hr hs hrs hsr
  have hkey := hinj r (hmem r hr) s (hmem' s hs) (le_antisymm hrs hsr)
  exact List.inj_on_of_nodup_map t.distinct (hmem r hr) (hmem' s hs) hkey

theorem orderBy_distinct : ((t.orderBy order).map key).Nodup :=
  ((t.orderBy_perm order).map key).nodup_iff.mpr t.distinct

theorem length_select : (t.select order limit).length = min limit t.rows.length := by
  rw [select, List.length_take, (t.orderBy_perm order).length_eq]

theorem select_subset : t.select order limit ⊆ t.rows := fun _ hr =>
  (t.orderBy_perm order).mem_iff.mp (List.mem_of_mem_take hr)

variable [DecidableEq κ]

theorem deleteFirst_sublist : (t.deleteFirst order limit).rows.Sublist t.rows :=
  List.filter_sublist

theorem deleteFirst_perm :
    (t.deleteFirst order limit).rows.Perm ((t.orderBy order).drop limit) := by
  set keys := (t.select order limit).map key with hkeys
  have hsplit : t.orderBy order = t.select order limit ++ (t.orderBy order).drop limit :=
    (List.take_append_drop limit _).symm
  have hdisjoint : ∀ r ∈ (t.orderBy order).drop limit, key r ∉ keys := by
    have hnodup := t.orderBy_distinct order
    rw [hsplit, List.map_append] at hnodup
    intro r hr hmem
    exact (List.nodup_append.mp hnodup).2.2 _ hmem _ (List.mem_map_of_mem hr) rfl
  have hfilter : (t.orderBy order).filter (fun r => key r ∉ keys) =
      (t.orderBy order).drop limit := by
    conv_lhs => rw [hsplit]
    rw [List.filter_append, List.filter_eq_nil_iff.mpr, List.nil_append, List.filter_eq_self.mpr]
    · intro r hr
      simpa using hdisjoint r hr
    · intro r hr
      simpa [hkeys] using ⟨r, hr, rfl⟩
  rw [← hfilter]
  exact (t.orderBy_perm order).symm.filter _

/-- Selection and deletion partition the table. -/
theorem select_append_deleteFirst_perm :
    (t.select order limit ++ (t.deleteFirst order limit).rows).Perm t.rows := by
  have hperm := (t.deleteFirst_perm order limit).append_left (t.select order limit)
  rw [select, List.take_append_drop] at hperm
  exact hperm.trans (t.orderBy_perm order)

theorem length_deleteFirst :
    (t.deleteFirst order limit).rows.length = t.rows.length - limit := by
  rw [(t.deleteFirst_perm order limit).length_eq, List.length_drop,
    (t.orderBy_perm order).length_eq]

/-- Every selected row comes strictly before every row the deletion leaves, provided no two rows
share a place in the order. -/
theorem select_lt_deleteFirst (hinj : ∀ r ∈ t.rows, ∀ s ∈ t.rows, order r = order s → key r = key s)
    {r s : ρ} (hr : r ∈ t.select order limit) (hs : s ∈ (t.deleteFirst order limit).rows) :
    order r < order s := by
  have hs' : s ∈ (t.orderBy order).drop limit := (t.deleteFirst_perm order limit).mem_iff.mp hs
  have hsorted := t.orderBy_sorted order
  have hnodup := t.orderBy_distinct order
  rw [← List.take_append_drop limit (t.orderBy order)] at hsorted hnodup
  have hle := (List.pairwise_append.mp hsorted).2.2 r hr s hs'
  refine lt_of_le_of_ne hle fun heq => ?_
  have hkey := hinj r (t.select_subset order limit hr) s
    ((t.deleteFirst_sublist order limit).subset hs) heq
  rw [List.map_append] at hnodup
  exact (List.nodup_append.mp hnodup).2.2 _ (List.mem_map_of_mem hr) _
    (List.mem_map_of_mem hs') hkey

end Order
end Table
end Sql
