import Mathlib

/-!
# The order of floats

`<` on floats is the order of their ranks, and NaN has none. Hence `max` over a list of floats,
which keeps the first of several equal ones, returns an element that none exceeds.
-/

namespace Py

open Float.Model (UnpackedFloat)

/-- Where a float stands; sign first, then exponent and mantissa. -/
def floatRank : UnpackedFloat → Option (ℤ ×ₗ ℤ ×ₗ ℤ)
  | .notANumber => none
  | .infinity .negative => some (toLex (-2, toLex (0, 0)))
  | .finite .negative m e _ => some (toLex (-1, toLex (-e, -m)))
  | .zero _ => some (toLex (0, toLex (0, 0)))
  | .finite .positive m e _ => some (toLex (1, toLex (e, m)))
  | .infinity .positive => some (toLex (2, toLex (0, 0)))

theorem compare_then_eq_lt {e₁ e₂ : ℤ} {m₁ m₂ : ℕ} :
    (compare e₁ e₂).then (compare m₁ m₂) = .lt ↔ e₁ < e₂ ∨ e₁ = e₂ ∧ m₁ < m₂ := by
  rw [Ordering.then_eq_lt, compare_lt_iff_lt, compare_eq_iff_eq, compare_lt_iff_lt]

theorem compare_then_eq_gt {e₁ e₂ : ℤ} {m₁ m₂ : ℕ} :
    (compare e₁ e₂).then (compare m₁ m₂) = .gt ↔ e₂ < e₁ ∨ e₁ = e₂ ∧ m₂ < m₁ := by
  rw [Ordering.then_eq_gt, compare_gt_iff_gt, compare_eq_iff_eq, compare_gt_iff_gt]

theorem unpacked_lt_iff (a b : UnpackedFloat) :
    a.lt b = true ↔ ∃ ra ∈ floatRank a, ∃ rb ∈ floatRank b, ra < rb := by
  have hsign : compare UnpackedFloat.Sign.negative .positive = .lt := rfl
  rw [UnpackedFloat.lt, beq_iff_eq]
  rcases a with (_ | _) | _ | (_ | _) | ⟨_ | _, m₁, e₁, _⟩ <;>
    rcases b with (_ | _) | _ | (_ | _) | ⟨_ | _, m₂, e₂, _⟩ <;>
    simp [UnpackedFloat.compare, floatRank, Prod.Lex.toLex_lt_toLex, compare_then_eq_lt,
      compare_then_eq_gt, Ordering.swap_eq_lt, hsign]

theorem float_lt_iff (a b : Float) :
    a < b ↔ ∃ ra ∈ floatRank a.toModel.unpack, ∃ rb ∈ floatRank b.toModel.unpack, ra < rb := by
  rw [← unpacked_lt_iff]
  show Float.lt a b = true ↔ _
  rw [Float.lt, decide_eq_true_eq]
  rfl

theorem unpacked_beq_iff (a b : UnpackedFloat) :
    a.beq b = true ↔ ∃ ra ∈ floatRank a, ∃ rb ∈ floatRank b, ra = rb := by
  have hsign : ∀ s : UnpackedFloat.Sign, compare s s = .eq := by
    intro s
    cases s <;> rfl
  rw [UnpackedFloat.beq, beq_iff_eq]
  rcases a with (_ | _) | _ | (_ | _) | ⟨_ | _, m₁, e₁, _⟩ <;>
    rcases b with (_ | _) | _ | (_ | _) | ⟨_ | _, m₂, e₂, _⟩ <;>
    simp [UnpackedFloat.compare, floatRank, Ordering.then_eq_eq, hsign]
  all_goals exact ⟨fun h => ⟨h.1.symm, h.2.symm⟩, fun h => ⟨h.1.symm, h.2.symm⟩⟩

theorem float_beq_iff (a b : Float) :
    (a == b) = true ↔ ∃ r, r ∈ floatRank a.toModel.unpack ∧ r ∈ floatRank b.toModel.unpack := by
  constructor
  · intro h
    obtain ⟨r, ha, r', hb, rfl⟩ := (unpacked_beq_iff _ _).mp h
    exact ⟨r, ha, hb⟩
  · rintro ⟨r, ha, hb⟩
    exact (unpacked_beq_iff _ _).mpr ⟨r, ha, r, hb, rfl⟩

theorem float_beq_trans {a b c : Float} (h : (a == b) = true) (h' : (b == c) = true) :
    (a == c) = true := by
  obtain ⟨r, ha, hb⟩ := (float_beq_iff a b).mp h
  obtain ⟨r', hb', hc⟩ := (float_beq_iff b c).mp h'
  obtain rfl := Option.mem_unique hb hb'
  exact (float_beq_iff a c).mpr ⟨r, ha, hc⟩

theorem float_bne_of_lt {a b : Float} (h : a < b) : (b != a) = true := by
  obtain ⟨ra, hra, rb, hrb, hlt⟩ := (float_lt_iff a b).mp h
  rw [bne, Bool.not_eq_true', Bool.eq_false_iff]
  intro heq
  obtain ⟨rb', hrb', ra', hra', hsame⟩ := (unpacked_beq_iff _ _).mp heq
  obtain rfl := Option.mem_unique hra hra'
  obtain rfl := Option.mem_unique hrb hrb'
  exact absurd hlt (hsame ▸ lt_irrefl _)

theorem float_lt_irrefl (a : Float) : ¬a < a := by
  rw [float_lt_iff]
  rintro ⟨ra, hra, rb, hrb, hlt⟩
  obtain rfl := Option.mem_unique hra hrb
  exact lt_irrefl ra hlt

theorem float_lt_trans {a b c : Float} (hab : a < b) (hbc : b < c) : a < c := by
  rw [float_lt_iff] at *
  obtain ⟨ra, hra, rb, hrb, hlt⟩ := hab
  obtain ⟨rb', hrb', rc, hrc, hlt'⟩ := hbc
  obtain rfl := Option.mem_unique hrb hrb'
  exact ⟨ra, hra, rc, hrc, hlt.trans hlt'⟩

/-- One more value for a running `max`. -/
def maxWith (best : Option Float) (x : Float) : Option Float :=
  match best with
  | none => some x
  | some y => if y < x then some x else some y

/-- `max(xs, default=None)` -/
def maxFloat (xs : List Float) : Option Float := xs.foldl maxWith none

theorem maxFloat_concat (xs : List Float) (x : Float) :
    maxFloat (xs ++ [x]) = maxWith (maxFloat xs) x := by
  rw [maxFloat, List.foldl_append]
  rfl

theorem maxFloat_append (xs ys : List Float) :
    maxFloat (xs ++ ys) = ys.foldl maxWith (maxFloat xs) := by
  rw [maxFloat, List.foldl_append]
  rfl

/-- The maximum of a list is one of its elements, and none of them exceeds it. -/
theorem maxFloat_spec (xs : List Float) :
    (maxFloat xs = none ↔ xs = []) ∧ ∀ y ∈ maxFloat xs, y ∈ xs ∧ ∀ x ∈ xs, ¬y < x := by
  induction xs using List.reverseRecOn with
  | nil => simp [maxFloat]
  | append_singleton xs x ih =>
    obtain ⟨hnone, hmax⟩ := ih
    rw [maxFloat_concat]
    cases hbest : maxFloat xs with
    | none =>
      rw [hnone.mp hbest]
      simp [maxWith, float_lt_irrefl]
    | some best =>
      obtain ⟨hmem, hbound⟩ := hmax best hbest
      by_cases hlt : best < x
      · rw [maxWith, if_pos hlt]
        refine ⟨by simp, ?_⟩
        rintro y hy
        cases hy
        refine ⟨by simp, fun z hz => ?_⟩
        rcases List.mem_append.mp hz with hz | hz
        · exact fun hxz => hbound z hz (float_lt_trans hlt hxz)
        · rw [List.mem_singleton.mp hz]
          exact float_lt_irrefl x
      · rw [maxWith, if_neg hlt]
        refine ⟨by simp, ?_⟩
        rintro y hy
        cases hy
        refine ⟨List.mem_append_left _ hmem, fun z hz => ?_⟩
        rcases List.mem_append.mp hz with hz | hz
        · exact hbound z hz
        · rw [List.mem_singleton.mp hz]
          exact hlt

end Py
