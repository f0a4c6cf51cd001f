import Mathlib.Algebra.BigOperators.Group.List.Basic
import Mathlib.Data.List.Induction
import Mathlib.Data.List.Nodup
import Mathlib.Tactic

/-!
# Grouping by a key

A dictionary in insertion order whose values are updated in place, one item after another. When
the update computes a summary of the items seen so far, the dictionary ends up as the grouping of
the items by their keys, each group summarised.
-/

namespace Grouping

variable {κ α β : Type} [DecidableEq κ]

/-- `d[k] = f(d.get(k))` -/
def modify (k : κ) (f : Option β → β) : List (κ × β) → List (κ × β)
  | [] => [(k, f none)]
  | (k', b) :: rest => if k' = k then (k, f (some b)) :: rest else (k', b) :: modify k f rest

/-- One update for each item, under the key of the item. -/
def accumulate (key : α → κ) (add : Option β → α → β) (xs : List α) : List (κ × β) :=
  xs.foldl (fun d x => modify (key x) (fun b => add b x) d) []

/-- The keys in the order in which they first occur. -/
def keysOf (key : α → κ) (xs : List α) : List κ :=
  xs.foldl (fun ks x => if key x ∈ ks then ks else ks ++ [key x]) []

def group (key : α → κ) (xs : List α) (k : κ) : List α := xs.filter fun x => key x = k

/-- The items grouped by key, each group summarised. -/
def groupBy (key : α → κ) (summary : List α → β) (xs : List α) : List (κ × β) :=
  (keysOf key xs).map fun k => (k, summary (group key xs k))

/-- An update that computes a summary: of one item, and of one item more. -/
structure Computes (add : Option β → α → β) (summary : List α → β) : Prop where
  single : ∀ x, summary [x] = add none x
  concat : ∀ xs x, xs ≠ [] → summary (xs ++ [x]) = add (some (summary xs)) x

theorem keysOf_concat (key : α → κ) (xs : List α) (x : α) : keysOf key (xs ++ [x]) =
    if key x ∈ keysOf key xs then keysOf key xs else keysOf key xs ++ [key x] := by
  rw [keysOf, List.foldl_append]
  rfl

theorem mem_keysOf {key : α → κ} {xs : List α} {k : κ} :
    k ∈ keysOf key xs ↔ ∃ x ∈ xs, key x = k := by
  induction xs using List.reverseRecOn with
  | nil => simp [keysOf]
  | append_singleton xs x ih =>
    have hlast : (∃ y ∈ xs ++ [x], key y = k) ↔ (∃ y ∈ xs, key y = k) ∨ key x = k := by
      simp only [List.mem_append, List.mem_singleton, or_and_right, exists_or, exists_eq_left]
    rw [keysOf_concat, hlast, ← ih]
    split_ifs with hx
    · constructor
      · exact .inl
      · rintro (hk | rfl)
        · exact hk
        · exact hx
    · rw [List.mem_append, List.mem_singleton, eq_comm (a := k)]

theorem nodup_keysOf (key : α → κ) (xs : List α) : (keysOf key xs).Nodup := by
  induction xs using List.reverseRecOn with
  | nil => exact List.nodup_nil
  | append_singleton xs x ih =>
    rw [keysOf_concat]
    split_ifs with hx
    · exact ih
    · exact ih.append (List.nodup_singleton _) (by simpa using hx)

theorem modify_map (k : κ) (f : Option β → β) (g : κ → β) {ks : List κ} (h : ks.Nodup) :
    modify k f (ks.map fun k' => (k', g k')) =
      (if k ∈ ks then ks else ks ++ [k]).map fun k' =>
        (k', if k' = k then f (if k ∈ ks then some (g k) else none) else g k') := by
  induction ks with
  | nil => simp [modify]
  | cons k₀ ks ih =>
    obtain ⟨hk₀, hks⟩ := List.nodup_cons.mp h
    by_cases hk : k₀ = k
    · subst hk
      have hrest : ∀ k' ∈ ks, k' ≠ k₀ := fun k' hk' heq => hk₀ (heq ▸ hk')
      simp only [List.map_cons, modify, ↓reduceIte, List.mem_cons, true_or]
      congr 1
      refine List.map_congr_left fun k' hk' => ?_
      rw [if_neg (hrest k' hk')]
    · have hmem : k ∈ k₀ :: ks ↔ k ∈ ks := by simp [Ne.symm hk]
      simp only [List.map_cons, modify, if_neg hk, ih hks, hmem]
      split_ifs
      · simp [hk]
      · simp [hk]

theorem group_concat (key : α → κ) (xs : List α) (x : α) (k : κ) :
    group key (xs ++ [x]) k = if key x = k then group key xs k ++ [x] else group key xs k := by
  unfold group
  split_ifs with h
  · simp [h]
  · simp [h]

theorem group_eq_nil {key : α → κ} {xs : List α} {k : κ} :
    group key xs k = [] ↔ k ∉ keysOf key xs := by
  rw [mem_keysOf]
  simp [group]

/-- The accumulated dictionary is the grouping. -/
theorem accumulate_eq_groupBy (key : α → κ) {add : Option β → α → β} {summary : List α → β}
    (h : Computes add summary) (xs : List α) :
    accumulate key add xs = groupBy key summary xs := by
  induction xs using List.reverseRecOn with
  | nil => rfl
  | append_singleton xs x ih =>
    have hstep : accumulate key add (xs ++ [x]) =
        modify (key x) (fun b => add b x) (accumulate key add xs) := by
      simp [accumulate, List.foldl_append]
    rw [hstep, ih]
    unfold groupBy
    rw [modify_map _ _ _ (nodup_keysOf key xs), keysOf_concat]
    refine List.map_congr_left fun k _ => ?_
    rw [group_concat]
    by_cases hk : k = key x
    · subst hk
      by_cases hmem : key x ∈ keysOf key xs
      · have hne : group key xs (key x) ≠ [] := fun hnil => group_eq_nil.mp hnil hmem
        simp only [↓reduceIte, hmem, h.concat _ _ hne]
      · have hnil : group key xs (key x) = [] := group_eq_nil.mpr hmem
        simp only [↓reduceIte, hmem, hnil, List.nil_append, h.single]
    · simp only [if_neg hk, if_neg (Ne.symm hk)]

/-- Under a key that occurs, the grouping has the summary of its group. -/
theorem lookup_groupBy [BEq κ] [LawfulBEq κ] (key : α → κ) (summary : List α → β) (xs : List α)
    (k : κ) : (groupBy key summary xs).lookup k =
      if group key xs k = [] then none else some (summary (group key xs k)) := by
  have hlookup : ∀ ks : List κ, (ks.map fun k' => (k', summary (group key xs k'))).lookup k =
      if k ∈ ks then some (summary (group key xs k)) else none := by
    intro ks
    induction ks with
    | nil => rfl
    | cons k₀ ks ih =>
      rw [List.map_cons, List.lookup_cons, ih]
      by_cases hk : k = k₀
      · subst hk
        rw [beq_self_eq_true, if_pos List.mem_cons_self]
      · rw [beq_eq_false_iff_ne.mpr hk]
        simp [hk]
  rw [groupBy, hlookup]
  by_cases hk : k ∈ keysOf key xs
  · rw [if_pos hk, if_neg fun hnil => group_eq_nil.mp hnil hk]
  · rw [if_neg hk, if_pos (group_eq_nil.mpr hk)]

theorem sum_indicator {k : κ} {ks : List κ} (hnodup : ks.Nodup) (hk : k ∈ ks) :
    (ks.map fun k' => if k = k' then 1 else 0).sum = 1 := by
  induction ks with
  | nil => cases hk
  | cons k₀ ks ih =>
    obtain ⟨hk₀, hks⟩ := List.nodup_cons.mp hnodup
    rw [List.map_cons, List.sum_cons]
    rcases List.mem_cons.mp hk with rfl | hmem
    · have hrest : ∀ k' ∈ ks, (if k = k' then 1 else 0) = 0 := by
        intro k' hk'
        rw [if_neg]
        rintro rfl
        exact hk₀ hk'
      rw [List.map_congr_left hrest]
      simp
    · have hne : k ≠ k₀ := by
        rintro rfl
        exact hk₀ hmem
      rw [if_neg hne, ih hks hmem]

theorem sum_length_group (key : α → κ) (xs : List α) :
    ((keysOf key xs).map fun k => (group key xs k).length).sum = xs.length := by
  have hcount : ∀ (ys : List α) (ks : List κ), ks.Nodup → (∀ y ∈ ys, key y ∈ ks) →
      (ks.map fun k => (group key ys k).length).sum = ys.length := by
    intro ys ks hnodup hall
    induction ys with
    | nil => simp [group]
    | cons y ys ih =>
      obtain ⟨hy, hys⟩ := List.forall_mem_cons.mp hall
      have hsplit : ∀ k, (group key (y :: ys) k).length =
          (if key y = k then 1 else 0) + (group key ys k).length := by
        intro k
        unfold group
        rw [List.filter_cons]
        split_ifs with h₁ h₂
        · rw [List.length_cons, Nat.add_comm]
        · simp_all
        · simp_all
        · rw [Nat.zero_add]
      have hone : (ks.map fun k => if key y = k then 1 else 0).sum = 1 := by
        exact sum_indicator hnodup hy
      simp only [hsplit, List.sum_map_add, hone, ih hys, List.length_cons]
      omega
  exact hcount xs _ (nodup_keysOf key xs) fun x hx => mem_keysOf.mpr ⟨x, hx, rfl⟩

end Grouping
