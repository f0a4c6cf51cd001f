import Ebabf.Py.Statistics
import Mathlib.Algebra.Order.Field.Rat
import Mathlib.Algebra.Ring.Int.Parity
import Mathlib.Tactic.Linarith
import Mathlib.Tactic.Positivity
import Mathlib.Tactic.Ring

/-!
# Rounding half to even

`round` is monotone: which results are up to `n` is a matter of which side of `n + 1/2` the exact
value lies on, and that value itself goes to the even neighbour.
-/

namespace Py

/-- Values that round to at most `n`. -/
def RoundsWithin (n : ℤ) (x : ℚ) : Prop := x < n + 1 / 2 ∨ x = n + 1 / 2 ∧ Even n

theorem RoundsWithin.mono {n : ℤ} {x y : ℚ} (hle : x ≤ y) (h : RoundsWithin n y) :
    RoundsWithin n x := by
  rcases h with hlt | ⟨heq, heven⟩
  · exact .inl (hle.trans_lt hlt)
  · rcases hle.lt_or_eq with hlt | hsame
    · exact .inl (hlt.trans_eq heq)
    · exact .inr ⟨hsame.trans heq, heven⟩

theorem roundsWithin_neg {n : ℤ} {x : ℚ} : RoundsWithin n (-x) ↔ ¬RoundsWithin (-n - 1) x := by
  unfold RoundsWithin
  have hparity : Even (-n - 1) ↔ ¬Even n := by
    rw [Int.even_sub_one, even_neg]
  rw [hparity]
  push_cast
  by_cases heven : Even n
  · simp only [heven, not_true_eq_false, and_false, or_false, and_true, not_lt]
    constructor
    · rintro (h | h) <;> linarith
    · intro h
      rcases lt_or_eq_of_le (show -x ≤ n + 1 / 2 by linarith) with hlt | heq
      · exact .inl hlt
      · exact .inr heq
  · simp only [heven, not_false_eq_true, and_false, or_false, and_true, not_or, not_lt]
    constructor
    · intro h
      refine ⟨by linarith, fun heq => ?_⟩
      linarith
    · rintro ⟨hle, hne⟩
      rcases lt_or_eq_of_le hle with hlt | heq
      · linarith
      · exact absurd heq.symm hne

theorem roundHalfEven_le_iff {p q n : ℕ} (hq : 0 < q) :
    roundHalfEven p q ≤ n ↔ RoundsWithin n ((p : ℚ) / q) := by
  have hfraction : RoundsWithin n ((p : ℚ) / q) ↔
      2 * p < (2 * n + 1) * q ∨ 2 * p = (2 * n + 1) * q ∧ n % 2 = 0 := by
    have hq' : (0 : ℚ) < q := by exact_mod_cast hq
    have hlt : (p : ℚ) / q < n + 1 / 2 ↔ 2 * p < (2 * n + 1) * q := by
      rw [div_lt_iff₀ hq', ← @Nat.cast_lt ℚ]
      push_cast
      constructor <;> intro h <;> linarith
    have heq : (p : ℚ) / q = n + 1 / 2 ↔ 2 * p = (2 * n + 1) * q := by
      rw [div_eq_iff hq'.ne', ← @Nat.cast_inj ℚ]
      push_cast
      constructor <;> intro h <;> linarith
    rw [RoundsWithin, Int.cast_natCast, hlt, heq, Int.even_coe_nat, Nat.even_iff]
  rw [hfraction]
  have hdivide := Nat.div_add_mod p q
  have hrest := Nat.mod_lt p hq
  unfold roundHalfEven
  generalize p / q = d at *
  generalize p % q = r at *
  rcases lt_trichotomy d n with hbelow | heq | habove
  · have hle : q * (d + 1) ≤ q * n := Nat.mul_le_mul_left q hbelow
    refine iff_of_true ?_ (.inl ?_)
    · split_ifs <;> omega
    · rw [← hdivide]
      linarith
  · subst heq
    have hhalf : (2 * (q * d + r) < (2 * d + 1) * q ↔ 2 * r < q) ∧
        (2 * (q * d + r) = (2 * d + 1) * q ↔ 2 * r = q) := by
      constructor <;> constructor <;> intro h <;> linarith
    rw [← hdivide, hhalf.1, hhalf.2]
    split_ifs with hround
    · exact iff_of_true le_rfl hround
    · exact iff_of_false (by omega) hround
  · have hle : q * (n + 1) ≤ q * d := Nat.mul_le_mul_left q habove
    refine iff_of_false ?_ ?_
    · split_ifs <;> omega
    · rw [← hdivide]
      rintro (h | ⟨h, -⟩) <;> linarith

theorem signedRound_le_iff (k : ℕ) (q : ℚ) (n : ℤ) :
    (if q.num < 0 then -(roundHalfEven (k * q.num.natAbs) q.den : ℤ)
      else (roundHalfEven (k * q.num.natAbs) q.den : ℤ)) ≤ n ↔ RoundsWithin n (k * q) := by
  have hden := q.den_pos
  have hnat : ∀ m : ℤ, (roundHalfEven (k * q.num.natAbs) q.den : ℤ) ≤ m ↔
      RoundsWithin m (((k * q.num.natAbs : ℕ) : ℚ) / q.den) := by
    intro m
    rcases lt_or_ge m 0 with hneg | hpos
    · -- nothing that is not negative rounds to less than zero
      refine iff_of_false (by omega) ?_
      have hvalue : (0 : ℚ) ≤ ((k * q.num.natAbs : ℕ) : ℚ) / q.den := by positivity
      have hm : (m : ℚ) ≤ -1 := by exact_mod_cast Int.le_sub_one_of_lt hneg
      rintro (h | ⟨h, -⟩) <;> linarith
    · obtain ⟨m, rfl⟩ := Int.eq_ofNat_of_zero_le hpos
      rw [← roundHalfEven_le_iff hden]
      exact Int.ofNat_le
  have hvalue : (k : ℚ) * q = k * (q.num / q.den) := by rw [Rat.num_div_den]
  split_ifs with hsign
  · have habs : ((q.num.natAbs : ℕ) : ℚ) = -q.num := by
      rw [← Int.cast_natCast, Int.ofNat_natAbs_of_nonpos hsign.le, Int.cast_neg]
    have hmirror : (k : ℚ) * q = -(((k * q.num.natAbs : ℕ) : ℚ) / q.den) := by
      rw [hvalue, Nat.cast_mul, habs]
      ring
    rw [hmirror, roundsWithin_neg, ← hnat, not_le]
    omega
  · have habs : ((q.num.natAbs : ℕ) : ℚ) = q.num := by
      rw [← Int.cast_natCast, Int.natAbs_of_nonneg (Int.not_lt.mp hsign)]
    have hsame : (k : ℚ) * q = ((k * q.num.natAbs : ℕ) : ℚ) / q.den := by
      rw [hvalue, Nat.cast_mul, habs]
      ring
    rw [hsame, ← hnat]

/-- `round(q, 2)` is at most `n / 100` exactly when the hundredths round to at most `n`. -/
theorem roundHundredths_le_iff (q : ℚ) (n : ℤ) :
    roundHundredths q ≤ n / 100 ↔ RoundsWithin n (100 * q) := by
  have h := signedRound_le_iff 100 q n
  rw [Nat.cast_ofNat] at h
  rw [← h, roundHundredths, div_le_div_iff_of_pos_right (by norm_num), Int.cast_le]

theorem exists_roundHundredths (q : ℚ) : ∃ n : ℤ, roundHundredths q = n / 100 := ⟨_, rfl⟩

theorem roundHundredths_le_roundHundredths_iff {p q : ℚ} :
    roundHundredths p ≤ roundHundredths q ↔
      ∀ n : ℤ, RoundsWithin n (100 * q) → RoundsWithin n (100 * p) := by
  constructor
  · intro h n hn
    rw [← roundHundredths_le_iff] at hn ⊢
    exact h.trans hn
  · intro h
    obtain ⟨n, hn⟩ := exists_roundHundredths q
    rw [hn, roundHundredths_le_iff]
    exact h n ((roundHundredths_le_iff q n).mp hn.le)

theorem roundHundredths_of_hundredths (n : ℤ) : roundHundredths (n / 100) = n / 100 := by
  have hcancel : (100 : ℚ) * (n / 100) = n := by ring
  obtain ⟨m, hm⟩ := exists_roundHundredths ((n : ℚ) / 100)
  have hle : roundHundredths ((n : ℚ) / 100) ≤ n / 100 := by
    rw [roundHundredths_le_iff, hcancel]
    exact .inl (by linarith)
  have hge : ¬roundHundredths ((n : ℚ) / 100) ≤ ((n - 1 : ℤ) : ℚ) / 100 := by
    rw [roundHundredths_le_iff, hcancel]
    rintro (h | ⟨h, -⟩) <;> push_cast at h <;> linarith
  rw [hm] at hle hge ⊢
  rw [div_le_div_iff_of_pos_right (by norm_num), Int.cast_le] at hle hge
  rw [le_antisymm hle (by omega)]

theorem roundHundredths_nonneg {q : ℚ} (h : 0 ≤ q) : 0 ≤ roundHundredths q := by
  have hsign : ¬q.num < 0 := not_lt.mpr (Rat.num_nonneg.mpr h)
  rw [roundHundredths, if_neg hsign]
  positivity

theorem roundTenths_nonneg {q : ℚ} (h : 0 ≤ q) : 0 ≤ roundTenths q := by
  have hsign : ¬q.num < 0 := not_lt.mpr (Rat.num_nonneg.mpr h)
  rw [roundTenths, if_neg hsign]
  positivity

end Py
