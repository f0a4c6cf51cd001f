import Ebabf.Py.Text
import Mathlib.Algebra.BigOperators.Group.List.Basic

/-!
# Paths as text

`str(Path(s))` drops empty and `.` components. A quantity that adds up over slashes is the same
before and after.
-/

namespace Py

def slash : CodePoint := CodePoint.ofChar '/'

/-- The root of a POSIX path, where exactly two leading slashes are not one. -/
def pathRoot (s : Str) : Str :=
  if s.take 2 = str "//" ∧ s.take 3 ≠ str "///" then str "//"
  else if s.take 1 = str "/" then str "/"
  else []

/-- The components of a path. -/
def pathParts (s : Str) : List Str :=
  (s.splitOn slash).filter fun part => part != [] && part != str "."

/-- `str(Path(s))` -/
def pathStr (s : Str) : Str :=
  let text := pathRoot s ++ join (str "/") (pathParts s)
  if text = [] then str "." else text

/-- `str(Path(s).parent)`; a root is its own parent. -/
def pathParent (s : Str) : Str :=
  let text := pathRoot s ++ join (str "/") (pathParts s).dropLast
  if text = [] then str "." else text

theorem pathParts_append_slash (s t : Str) :
    pathParts (s ++ slash :: t) = pathParts s ++ pathParts t := by
  simp [pathParts, List.splitOn_append_cons_self]

/-- A path begins with the components of a text that ends there or before a slash. -/
theorem pathParts_prefix {s after : Str} (h : after = [] ∨ str "/" <+: after) :
    pathParts s <+: pathParts (s ++ after) := by
  rcases h with rfl | ⟨t, rfl⟩
  · simp
  · exact ⟨pathParts t, (pathParts_append_slash s t).symm⟩

theorem join_cons_cons (sep s t : Str) (rest : List Str) :
    join sep (s :: t :: rest) = s ++ sep ++ join sep (t :: rest) := rfl

theorem join_cons (sep s : Str) (rest : List Str) :
    join sep (s :: rest) = s ++ rest.flatMap fun t => sep ++ t := by
  induction rest generalizing s with
  | nil => simp [join]
  | cons t rest ih => rw [join_cons_cons, ih, List.flatMap_cons, List.append_assoc,
      List.append_assoc]

theorem join_eq_intercalate (sep : Str) (parts : List Str) :
    join sep parts = sep.intercalate parts := by
  induction parts with
  | nil => rfl
  | cons s rest ih =>
    cases rest with
    | nil => simp [join, List.intercalate]
    | cons t rest =>
      rw [join_cons_cons, ih]
      simp [List.intercalate]

/-- A quantity that adds up over slashes and is nothing for a lone dot. -/
structure SlashAdditive (m : Str → ℕ) : Prop where
  slash : ∀ s t, m (s ++ slash :: t) = m s + m t
  nil : m [] = 0
  dot : m (str ".") = 0

variable {m : Str → ℕ}

theorem SlashAdditive.join (h : SlashAdditive m) (parts : List Str) :
    m (join (str "/") parts) = (parts.map m).sum := by
  induction parts with
  | nil => exact h.nil
  | cons s rest ih =>
    cases rest with
    | nil => simp [Py.join]
    | cons t rest =>
      have hslash : s ++ str "/" ++ Py.join (str "/") (t :: rest) =
          s ++ Py.slash :: Py.join (str "/") (t :: rest) := by
        rw [List.append_assoc]
        rfl
      rw [join_cons_cons, hslash, h.slash, ih, List.map_cons (a := s), List.sum_cons]

theorem SlashAdditive.pathStr (h : SlashAdditive m) (s : Str) : m (pathStr s) = m s := by
  have hparts : ((pathParts s).map m).sum = ((s.splitOn Py.slash).map m).sum := by
    unfold pathParts
    induction s.splitOn Py.slash with
    | nil => rfl
    | cons part parts ih =>
      rw [List.filter_cons]
      split_ifs with hkept
      · rw [List.map_cons, List.sum_cons, ih, List.map_cons, List.sum_cons]
      · rw [ih, List.map_cons, List.sum_cons]
        have hdropped : part = [] ∨ part = str "." := by
          by_contra hne
          rw [not_or] at hne
          exact hkept (by simp [hne.1, hne.2])
        rcases hdropped with rfl | rfl
        · rw [h.nil, Nat.zero_add]
        · rw [h.dot, Nat.zero_add]
  have hroot : ∀ t, m (pathRoot s ++ t) = m t := by
    intro t
    have hone : m (Py.slash :: t) = m t := by
      have := h.slash [] t
      rw [h.nil, Nat.zero_add] at this
      exact this
    unfold pathRoot
    split_ifs
    · have htwo := h.slash [] (Py.slash :: t)
      rw [h.nil, Nat.zero_add, hone] at htwo
      exact htwo
    · exact hone
    · rfl
  have htext : m (pathRoot s ++ Py.join (str "/") (pathParts s)) = m s := by
    have hwhole : Py.join (str "/") (s.splitOn Py.slash) = s := by
      rw [join_eq_intercalate]
      exact List.intercalate_splitOn Py.slash
    rw [hroot, h.join, hparts, ← h.join, hwhole]
  unfold Py.pathStr
  dsimp only
  split_ifs with hempty
  · rw [hempty, h.nil] at htext
    rw [h.dot, htext]
  · exact htext

end Py
