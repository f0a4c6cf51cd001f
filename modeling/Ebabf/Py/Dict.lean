import Ebabf.Py.Text
import Mathlib.Data.List.Nodup

/-!
# Dictionaries

A `dict` with string keys is its entries in insertion order, no key twice. `d[k] = v` keeps the
place where a key was first written.
-/

namespace Py

section

variable {α : Type}

/-- `d[k] = v`. -/
def dictSet (k : Str) (v : α) : List (Str × α) → List (Str × α)
  | [] => [(k, v)]
  | (k', v') :: rest => if k' = k then (k, v) :: rest else (k', v') :: dictSet k v rest

/-- `dict(pairs)`. -/
def dictOf (pairs : List (Str × α)) : List (Str × α) :=
  pairs.foldl (fun d p => dictSet p.1 p.2 d) []

theorem dictSet_of_notMem {k : Str} {v : α} {members : List (Str × α)}
    (hk : k ∉ members.map Prod.fst) : dictSet k v members = members ++ [(k, v)] := by
  induction members with
  | nil => rfl
  | cons m ms ih =>
    simp only [List.map_cons, List.mem_cons, not_or] at hk
    simp only [dictSet, if_neg (Ne.symm hk.1), ih hk.2, List.cons_append]

theorem dictOf_of_nodup {members : List (Str × α)}
    (h : (members.map Prod.fst).Nodup) : dictOf members = members := by
  have hfold : ∀ (ms acc : List (Str × α)), ((acc ++ ms).map Prod.fst).Nodup →
      ms.foldl (fun d p => dictSet p.1 p.2 d) acc = acc ++ ms := by
    intro ms
    induction ms with
    | nil => simp
    | cons m ms ih =>
      intro acc hnodup
      have hm : m.1 ∉ acc.map Prod.fst := by
        simp only [List.map_append, List.map_cons] at hnodup
        exact fun hmem => (List.nodup_append.mp hnodup).2.2 _ hmem _ List.mem_cons_self rfl
      rw [List.foldl_cons, dictSet_of_notMem hm, ih _ (by simpa using hnodup)]
      simp
  exact hfold members [] h

theorem keys_dictSet (k : Str) (v : α) (members : List (Str × α)) :
    (dictSet k v members).map Prod.fst =
      if k ∈ members.map Prod.fst then members.map Prod.fst else members.map Prod.fst ++ [k] := by
  induction members with
  | nil => rfl
  | cons m ms ih =>
    by_cases hm : m.1 = k
    · simp [dictSet, hm]
    · simp only [dictSet, if_neg hm, List.map_cons, ih, List.mem_cons, Ne.symm hm, false_or]
      split_ifs <;> rfl

theorem nodup_dictSet (k : Str) (v : α) {members : List (Str × α)}
    (h : (members.map Prod.fst).Nodup) : ((dictSet k v members).map Prod.fst).Nodup := by
  rw [keys_dictSet]
  split_ifs with hk
  · exact h
  · exact h.append (List.nodup_singleton k) (by simpa using hk)

theorem lookup_cons_ite (k k₀ : Str) (v : α) (members : List (Str × α)) :
    ((k₀, v) :: members).lookup k = if k = k₀ then some v else members.lookup k := by
  rw [List.lookup_cons]
  split_ifs with h
  · rw [beq_iff_eq.mpr h]
  · rw [beq_eq_false_iff_ne.mpr h]

theorem lookup_dictSet (k k' : Str) (v : α) (members : List (Str × α)) :
    (dictSet k v members).lookup k' = if k' = k then some v else members.lookup k' := by
  induction members with
  | nil => rw [dictSet, lookup_cons_ite]
  | cons m ms ih =>
    obtain ⟨k₀, v₀⟩ := m
    by_cases hk : k₀ = k
    · rw [dictSet, if_pos hk, lookup_cons_ite, lookup_cons_ite, hk]
      split_ifs <;> rfl
    · rw [dictSet, if_neg hk, lookup_cons_ite, lookup_cons_ite, ih]
      split_ifs with h₁ h₂
      · exact absurd (h₁.symm.trans h₂) hk
      · rfl
      · rfl
      · rfl

theorem sum_dictSet_count (k : Str) {members : List (Str × ℕ)}
    (h : (members.map Prod.fst).Nodup) :
    ((dictSet k ((members.lookup k).getD 0 + 1) members).map Prod.snd).sum =
      (members.map Prod.snd).sum + 1 := by
  induction members with
  | nil => rfl
  | cons m ms ih =>
    obtain ⟨k₀, v₀⟩ := m
    rw [List.map_cons, List.nodup_cons] at h
    by_cases hk : k₀ = k
    · rw [lookup_cons_ite, if_pos hk.symm, dictSet, if_pos hk, List.map_cons, List.map_cons,
        List.sum_cons, List.sum_cons, Option.getD_some]
      omega
    · rw [lookup_cons_ite, if_neg (Ne.symm hk), dictSet, if_neg hk, List.map_cons, List.map_cons,
        List.sum_cons, List.sum_cons, ih h.2]
      omega

end

/-- A `dict` with string keys. -/
structure Dict (α : Type) where
  entries : List (Str × α)
  nodup : (entries.map Prod.fst).Nodup

namespace Dict

variable {α : Type}

instance [DecidableEq α] : DecidableEq (Dict α) := fun a b =>
  decidable_of_iff (a.entries = b.entries) (by cases a; cases b; simp)

@[ext] theorem ext {d e : Dict α} (h : d.entries = e.entries) : d = e := by
  cases d
  cases e
  cases h
  rfl

instance : EmptyCollection (Dict α) := ⟨⟨[], List.nodup_nil⟩⟩

/-- `d[k] = v`. -/
def set (k : Str) (v : α) (d : Dict α) : Dict α := ⟨dictSet k v d.entries, nodup_dictSet k v d.nodup⟩

/-- A dictionary display: `{k: v, …}`. -/
def ofPairs (pairs : List (Str × α)) : Dict α := pairs.foldl (fun d p => d.set p.1 p.2) ∅

/-- `d.get(k, default)`. -/
def get (k : Str) (default : α) (d : Dict α) : α := (d.entries.lookup k).getD default

/-- `d.get(k)`, nothing when the key is missing. -/
def get? (k : Str) (d : Dict α) : Option α := d.entries.lookup k

/-- `d.values()`. -/
def values (d : Dict α) : List α := d.entries.map Prod.snd

theorem get_set (k k' : Str) (v default : α) (d : Dict α) :
    (d.set k v).get k' default = if k' = k then v else d.get k' default := by
  rw [get, set, lookup_dictSet]
  split_ifs <;> rfl

theorem get?_set (k k' : Str) (v : α) (d : Dict α) :
    (d.set k v).get? k' = if k' = k then some v else d.get? k' :=
  lookup_dictSet k k' v d.entries

theorem get?_eq_some {k : Str} {v : α} {d : Dict α} : d.get? k = some v ↔ (k, v) ∈ d.entries := by
  have hlookup : ∀ members : List (Str × α), (members.map Prod.fst).Nodup →
      (members.lookup k = some v ↔ (k, v) ∈ members) := by
    intro members
    induction members with
    | nil => simp
    | cons m ms ih =>
      intro hnodup
      obtain ⟨k₀, v₀⟩ := m
      rw [List.map_cons, List.nodup_cons] at hnodup
      rw [lookup_cons_ite, List.mem_cons, Prod.mk.injEq]
      by_cases hk : k = k₀
      · subst hk
        have hms : (k, v) ∉ ms := fun hmem =>
          hnodup.1 (List.mem_map.mpr ⟨_, hmem, rfl⟩)
        simp [hms, eq_comm]
      · simp [hk, ih hnodup.2]
  exact hlookup d.entries d.nodup

theorem entries_ofPairs (pairs : List (Str × α)) : (ofPairs pairs).entries = dictOf pairs := by
  have hfold : ∀ (ps : List (Str × α)) (d : Dict α),
      (ps.foldl (fun d p => d.set p.1 p.2) d).entries =
        ps.foldl (fun d p => dictSet p.1 p.2 d) d.entries := by
    intro ps
    induction ps with
    | nil => intro d; rfl
    | cons p ps ih => exact fun d => ih (d.set p.1 p.2)
  exact hfold pairs ∅

theorem ofPairs_entries (d : Dict α) : ofPairs d.entries = d := by
  apply ext
  rw [entries_ofPairs, dictOf_of_nodup d.nodup]

theorem get?_ofPairs_of_nodup {pairs : List (Str × α)} (h : (pairs.map Prod.fst).Nodup) (k : Str) :
    (ofPairs pairs).get? k = pairs.lookup k := by
  rw [get?, entries_ofPairs, dictOf_of_nodup h]

section Rekey

variable {f : Str → Str}

theorem nodup_rekey (hf : Function.Injective f) (d : Dict α) :
    ((d.entries.map (Prod.map f id)).map Prod.fst).Nodup := by
  rw [List.map_map, Prod.map_fst', ← List.map_map]
  exact d.nodup.map hf

/-- The values under other keys. -/
def rekey (hf : Function.Injective f) (d : Dict α) : Dict α :=
  ⟨d.entries.map (Prod.map f id), nodup_rekey hf d⟩

theorem get?_rekey (hf : Function.Injective f) (k : Str) (d : Dict α) :
    (d.rekey hf).get? (f k) = d.get? k := by
  have hlookup : ∀ members : List (Str × α),
      (members.map (Prod.map f id)).lookup (f k) = members.lookup k := by
    intro members
    induction members with
    | nil => rfl
    | cons m ms ih =>
      obtain ⟨k', v⟩ := m
      rw [List.map_cons, Prod.map_apply, lookup_cons_ite, lookup_cons_ite, ih]
      simp only [hf.eq_iff, id]
  exact hlookup d.entries

theorem get_rekey (hf : Function.Injective f) (k : Str) (default : α) (d : Dict α) :
    (d.rekey hf).get (f k) default = d.get k default :=
  congrArg (Option.getD · default) (get?_rekey hf k d)

theorem rekey_set (hf : Function.Injective f) (k : Str) (v : α) (d : Dict α) :
    (d.set k v).rekey hf = (d.rekey hf).set (f k) v := by
  have hset : ∀ members : List (Str × α), (dictSet k v members).map (Prod.map f id) =
      dictSet (f k) v (members.map (Prod.map f id)) := by
    intro members
    induction members with
    | nil => rfl
    | cons m ms ih =>
      obtain ⟨k', v'⟩ := m
      rw [List.map_cons, Prod.map_apply, dictSet, dictSet]
      simp only [hf.eq_iff]
      split_ifs
      · rfl
      · rw [List.map_cons, ih]
        rfl
  exact ext (hset d.entries)

end Rekey

theorem sum_values_count (k : Str) (d : Dict ℕ) :
    (d.set k (d.get k 0 + 1)).values.sum = d.values.sum + 1 :=
  sum_dictSet_count k d.nodup

end Dict
end Py
