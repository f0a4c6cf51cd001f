import Ebabf.Py.Float
import Mathlib

/-!
# Rounding of products of floats

What a product of two floats loses when it is rounded to the binary64 format, and hence what its
integer part is. The lemmas are about the logical model of `Float`; none of them evaluates it.
-/

namespace Py

open Float.Model Float.Model.UnpackedFloat

/-- Shifting an exact mantissa keeps the quotient, its last lost bit, and whether anything was
lost below it. -/
theorem shiftRight_exact (p s : ℕ) :
    (⟨p, false, false⟩ : ExtendedMantissa) >>> (s + 1) =
      ⟨p / 2 ^ (s + 1), p / 2 ^ s % 2 != 0, p % 2 ^ s != 0⟩ := by
  induction s with
  | zero =>
    simp [HShiftRight.hShiftRight, Nat.repeat, ExtendedMantissa.shiftRightOne, Nat.mod_one]
  | succ s ih =>
    have hstep : (⟨p, false, false⟩ : ExtendedMantissa) >>> (s + 1 + 1) =
        ((⟨p, false, false⟩ : ExtendedMantissa) >>> (s + 1)).shiftRightOne := rfl
    rw [hstep, ih, ExtendedMantissa.shiftRightOne]
    congr 1
    · rw [Nat.div_div_eq_div_mul, pow_succ 2 (s + 1)]
    · have hmod := Nat.mod_pow_succ (b := 2) (k := s) (x := p)
      have hpos : 0 < 2 ^ s := Nat.two_pow_pos s
      rw [Bool.eq_iff_iff]
      simp only [Bool.or_eq_true, bne_iff_ne, ne_eq, hmod]
      constructor
      · rintro (h | h) h0
        · have := Nat.mul_pos hpos (Nat.pos_of_ne_zero h)
          omega
        · omega
      · intro h
        by_contra hcon
        push Not at hcon
        rw [hcon.1, hcon.2] at h
        simp at h

theorem mantissa_shiftRight (p n : ℕ) :
    ((⟨p, false, false⟩ : ExtendedMantissa) >>> n).mantissa = p / 2 ^ n := by
  cases n with
  | zero => simp [HShiftRight.hShiftRight, Nat.repeat]
  | succ s => rw [shiftRight_exact]

theorem roundedMantissa_cases (q : ℕ) (round sticky : Bool) :
    (⟨q, round, sticky⟩ : ExtendedMantissa).roundedMantissa = q ∧ (round = false ∨ sticky = false) ∨
      (⟨q, round, sticky⟩ : ExtendedMantissa).roundedMantissa = q + 1 ∧ round = true := by
  cases round <;> cases sticky <;>
    simp [ExtendedMantissa.roundedMantissa, ExtendedMantissa.accuracy, Accuracy.roundToNearestEven]
  omega

/-- The rounded mantissa is within half a unit of the exact quotient. -/
theorem roundedMantissa_bounds (p n : ℕ) :
    2 * (((⟨p, false, false⟩ : ExtendedMantissa) >>> n).roundedMantissa * 2 ^ n) ≤ 2 * p + 2 ^ n ∧
      2 * p ≤
        2 * (((⟨p, false, false⟩ : ExtendedMantissa) >>> n).roundedMantissa * 2 ^ n) + 2 ^ n := by
  cases n with
  | zero =>
    simp [HShiftRight.hShiftRight, Nat.repeat, ExtendedMantissa.roundedMantissa,
      ExtendedMantissa.accuracy, Accuracy.roundToNearestEven]
  | succ s =>
    rw [shiftRight_exact]
    have hp := Nat.div_add_mod p (2 ^ (s + 1))
    have hmod := Nat.mod_pow_succ (b := 2) (k := s) (x := p)
    have hlow := Nat.mod_lt p (Nat.two_pow_pos s)
    have hbit : p / 2 ^ s % 2 < 2 := Nat.mod_lt _ (by decide)
    have hpow : 2 ^ (s + 1) = 2 * 2 ^ s := by rw [pow_succ, Nat.mul_comm]
    rcases roundedMantissa_cases (p / 2 ^ (s + 1)) (p / 2 ^ s % 2 != 0) (p % 2 ^ s != 0) with
      ⟨hr, hb⟩ | ⟨hr, hb⟩
    all_goals
      rw [hr]
      simp only [bne_eq_false_iff_eq, bne_iff_ne] at hb
      rw [hmod] at hp
      generalize p / 2 ^ (s + 1) = q at *
      generalize p % 2 ^ s = low at *
      generalize p / 2 ^ s % 2 = bit at *
      rw [hpow] at hp ⊢
      generalize 2 ^ s = w at *
    · rcases hb with rfl | rfl
      · constructor <;> nlinarith
      · interval_cases bit <;> constructor <;> nlinarith
    · obtain rfl : bit = 1 := by omega
      constructor <;> nlinarith

theorem roundedMantissa_le {p n : ℕ} (h : p < 2 ^ (n + 53)) :
    ((⟨p, false, false⟩ : ExtendedMantissa) >>> n).roundedMantissa ≤ 2 ^ 53 := by
  have hbounds := (roundedMantissa_bounds p n).1
  rw [pow_add] at h
  have hpos : 0 < 2 ^ n := Nat.two_pow_pos n
  by_contra hcon
  have hlarge := Nat.mul_le_mul_right (2 ^ n) (Nat.lt_of_not_le hcon)
  rw [Nat.succ_eq_add_one] at hlarge
  omega

/-- How far `shiftToTargetExponent` shifts. -/
def shiftAmount (spec : Format) (p : ℕ) (e : ℤ) : ℕ :=
  (spec.targetExponent (totalExponent p e) - e).toNat

theorem toInt_finite (m u : ℕ) (h : 0 < m) (lo hi : ℤ) :
    (UnpackedFloat.finite .positive m (-(u : ℤ)) h).toInt lo hi = (m / 2 ^ u : ℕ) := by
  have hleft : (-(u : ℤ) - 0).toNat = 0 := by omega
  have hright : (0 - (-(u : ℤ) - 0)).toNat = u := by omega
  simp only [UnpackedFloat.toInt, roundToInt, decreaseExponent, hleft, Nat.shiftLeft_zero,
    Nat.cast_zero, hright, shiftToExponent, ExtendedMantissa.ofMantissaAndAccuracy,
    mantissa_shiftRight]
  rfl

/-- The integer part of a rounded positive number that keeps `t` fraction bits. -/
theorem toInt_roundWithAccuracy {spec : Format} {p r t : ℕ} {e lo hi : ℤ}
    (hr : ((⟨p, false, false⟩ : ExtendedMantissa) >>> shiftAmount spec p e).roundedMantissa = r)
    (ht : e + shiftAmount spec p e = -t) (hk : shiftAmount spec r (-t) ≤ t) :
    (roundWithAccuracy spec .positive p e .exact).toInt lo hi = (r / 2 ^ t : ℕ) := by
  have hshift : ∀ m f, shiftToTargetExponent spec m f .exact =
      ((⟨m, false, false⟩ : ExtendedMantissa) >>> shiftAmount spec m f,
        f + shiftAmount spec m f) := fun m f => rfl
  have hexp : (-t + shiftAmount spec r (-t) : ℤ) = -((t - shiftAmount spec r (-t) : ℕ) : ℤ) := by
    omega
  have hdiv : r / 2 ^ shiftAmount spec r (-t) / 2 ^ (t - shiftAmount spec r (-t)) = r / 2 ^ t := by
    rw [Nat.div_div_eq_div_mul, ← pow_add, Nat.add_sub_cancel' hk]
  unfold roundWithAccuracy
  simp only [hshift, hr, ht, mantissa_shiftRight, hexp]
  split_ifs with hzero
  · rw [UnpackedFloat.toInt, ← hdiv, hzero, Nat.zero_div]
    rfl
  · rw [toInt_finite, hdiv]

theorem roundWithAccuracy_self {spec : Format} {sign : Sign} {p : ℕ} {e : ℤ}
    (h : shiftAmount spec p e = 0) (hp : 0 < p) :
    roundWithAccuracy spec sign p e .exact = .finite sign p e hp := by
  have hshift : shiftToTargetExponent spec p e .exact = (⟨p, false, false⟩, e) := by
    have hdef : shiftToTargetExponent spec p e .exact =
      ((⟨p, false, false⟩ : ExtendedMantissa) >>> shiftAmount spec p e,
        e + shiftAmount spec p e) := rfl
    rw [hdef, h]
    simp [HShiftRight.hShiftRight, Nat.repeat]
  have hround : (⟨p, false, false⟩ : ExtendedMantissa).roundedMantissa = p := rfl
  unfold roundWithAccuracy
  simp only [hshift, hround, Nat.pos_iff_ne_zero.mp hp, ↓reduceDIte]

theorem log2_mul_two_pow {n : ℕ} (hn : 0 < n) (k : ℕ) : (n * 2 ^ k).log2 = n.log2 + k := by
  have hlow := Nat.log2_self_le hn.ne'
  have hhigh := Nat.lt_log2_self (n := n)
  refine (Nat.log2_eq_iff (Nat.mul_ne_zero hn.ne' (by positivity))).mpr ⟨?_, ?_⟩
  · rw [pow_add]
    exact Nat.mul_le_mul_right _ hlow
  · rw [show n.log2 + k + 1 = n.log2 + 1 + k by omega, pow_add]
    exact Nat.mul_lt_mul_of_pos_right hhigh (by positivity)

theorem normalized_bounds {n : ℕ} (hn : 0 < n) (hlog : n.log2 ≤ 52) :
    2 ^ 52 ≤ n * 2 ^ (52 - n.log2) ∧ n * 2 ^ (52 - n.log2) < 2 ^ 53 := by
  have hwidth : (n * 2 ^ (52 - n.log2)).log2 = 52 := by
    rw [log2_mul_two_pow hn]
    omega
  exact (Nat.log2_eq_iff (Nat.mul_pos hn (Nat.two_pow_pos _)).ne').mp hwidth

theorem minExponent_binary64 : Format.binary64.minExponent = -1074 := by decide

theorem shiftAmount_binary64 {p : ℕ} {e : ℤ} (he : -1074 ≤ p.log2 + e - 52) :
    shiftAmount .binary64 p e = p.log2 - 52 := by
  have hbits : Format.binary64.mantissaBits = 53 := rfl
  simp only [shiftAmount, Format.targetExponent, totalExponent, minExponent_binary64, hbits]
  omega

theorem shiftAmount_fraction {p t : ℕ} (hp : p.log2 ≤ 53) (ht : 1 ≤ t) (ht' : t ≤ 1074) :
    shiftAmount .binary64 p (-t) ≤ t := by
  have hbits : Format.binary64.mantissaBits = 53 := rfl
  simp only [shiftAmount, Format.targetExponent, totalExponent, minExponent_binary64, hbits]
  omega

theorem floatOfInt_eq {n : ℕ} (hn : 0 < n) (hlt : n < 2 ^ 53) :
    floatOfInt n = .finite .positive (n * 2 ^ (52 - n.log2)) (n.log2 - 52)
      (Nat.mul_pos hn (Nat.two_pow_pos _)) := by
  have hlog : n.log2 ≤ 52 := Nat.lt_succ_iff.mp ((Nat.log2_lt hn.ne').mpr hlt)
  have hcompare : compare (n : ℤ) 0 = .gt := by simp [Int.compare_eq_gt, hn]
  have htarget : Format.binary64.targetExponent (totalExponent n 0) = n.log2 - 52 := by
    have hbits : Format.binary64.mantissaBits = 53 := rfl
    simp only [Format.targetExponent, totalExponent, minExponent_binary64, hbits]
    omega
  have hfit : shiftAmount .binary64 (n * 2 ^ (52 - n.log2)) (n.log2 - 52) = 0 := by
    rw [shiftAmount_binary64] <;> rw [log2_mul_two_pow hn] <;> omega
  have hamount : ((0 : ℤ) - (n.log2 - 52)).toNat = 52 - n.log2 := by omega
  have hexp : (0 : ℤ) - ((52 - n.log2 : ℕ) : ℤ) = n.log2 - 52 := by omega
  simp only [floatOfInt, UnpackedFloat.ofInt, UnpackedFloat.normalize, hcompare,
    UnpackedFloat.round, htarget, decreaseExponent, hamount, hexp, Int.toNat_natCast,
    Nat.shiftLeft_eq]
  exact roundWithAccuracy_self hfit _

end Py
