import Ebabf.Py.FloatPack
import Ebabf.Py.FloatRounding

/-!
# The float nearest to a fraction

Products, quotients and decimal literals are all rounded the same way, so each of them is the
rounding of the exact fraction it stands for.
-/

namespace Py

open Float.Model Float.Model.UnpackedFloat

/-- The integer part of a fraction, its first bit after the point, and whether any follows. -/
def extend (y : ℚ) : ExtendedMantissa :=
  ⟨⌊y⌋₊, ⌊2 * y⌋₊ % 2 != 0, decide (2 * y ≠ ⌊2 * y⌋₊)⟩

theorem extend_natCast (n : ℕ) : extend n = ⟨n, false, false⟩ := by
  have hdouble : (2 * n : ℚ) = (2 * n : ℕ) := by
    push_cast
    rfl
  rw [extend, hdouble, Nat.floor_natCast, Nat.floor_natCast, Nat.mul_mod_right]
  simp

theorem floor_two_mul_div_two (y : ℚ) : ⌊2 * y⌋₊ / 2 = ⌊y⌋₊ := by
  rw [← Nat.floor_div_natCast]
  congr 1
  push_cast
  ring

theorem residual_iff (y : ℚ) :
    (⌊2 * y⌋₊ % 2 ≠ 0 ∨ 2 * y ≠ ⌊2 * y⌋₊) ↔ y ≠ ⌊y⌋₊ := by
  constructor
  · intro h heq
    have hdouble : 2 * y = (2 * ⌊y⌋₊ : ℕ) := by
      rw [heq, Nat.floor_natCast]
      push_cast
      rfl
    rw [hdouble, Nat.floor_natCast] at h
    rcases h with h | h
    · omega
    · exact h rfl
  · intro h
    by_contra hcon
    push Not at hcon
    obtain ⟨heven, hexact⟩ := hcon
    have hhalf := floor_two_mul_div_two y
    have hdouble : ⌊2 * y⌋₊ = 2 * ⌊y⌋₊ := by omega
    rw [hdouble] at hexact
    push_cast at hexact
    exact h (by linarith)

theorem shiftRightOne_extend (y : ℚ) :
    (extend y).shiftRightOne = extend (y / 2) := by
  have hhalf : 2 * (y / 2) = y := by ring
  have hfloor : ⌊y⌋₊ / 2 = ⌊y / 2⌋₊ := by
    rw [← floor_two_mul_div_two (y / 2), hhalf]
  have hsticky : (⌊2 * y⌋₊ % 2 != 0 || decide (2 * y ≠ ⌊2 * y⌋₊)) = decide (y ≠ ⌊y⌋₊) := by
    rw [Bool.eq_iff_iff, Bool.or_eq_true, bne_iff_ne, decide_eq_true_eq, decide_eq_true_eq]
    exact residual_iff y
  simp only [ExtendedMantissa.shiftRightOne, extend, hhalf, hfloor, hsticky]

theorem shiftRight_extend (y : ℚ) (n : ℕ) : extend y >>> n = extend (y / 2 ^ n) := by
  induction n with
  | zero => simp [HShiftRight.hShiftRight, Nat.repeat]
  | succ n ih =>
    have hstep : extend y >>> (n + 1) = (extend y >>> n).shiftRightOne := rfl
    rw [hstep, ih, shiftRightOne_extend, div_div, ← pow_succ]

theorem extend_fraction (m : ℕ) {d : ℕ} (hd : 0 < d) :
    extend (m / d) = ⟨m / d, 2 * m / d % 2 != 0, 2 * m % d != 0⟩ := by
  have hdouble : (2 * (m / d) : ℚ) = (2 * m : ℕ) / d := by
    push_cast
    ring
  have hpos : (d : ℚ) ≠ 0 := by positivity
  have hexact : ((2 * m : ℕ) / d : ℚ) ≠ (2 * m / d : ℕ) ↔ 2 * m % d ≠ 0 := by
    rw [Ne, div_eq_iff hpos, not_iff_not, ← Nat.cast_mul, Nat.cast_inj]
    have hdiv := Nat.div_add_mod (2 * m) d
    rw [mul_comm d] at hdiv
    omega
  rw [extend, hdouble, Nat.floor_div_eq_div, Nat.floor_div_eq_div]
  congr 1
  rw [Bool.eq_iff_iff, decide_eq_true_eq, bne_iff_ne, hexact]

theorem extend_div (m : ℕ) {d : ℕ} (hd : 0 < d) :
    ExtendedMantissa.ofMantissaAndAccuracy (m / d) (accuracyOfFraction (m % d) d) =
      extend (m / d) := by
  have hlt := Nat.mod_lt m hd
  have hdouble : 2 * m = 2 * (m % d) + d * (2 * (m / d)) := by
    have hdiv := Nat.div_add_mod m d
    linarith
  have hquotient : 2 * m / d = 2 * (m % d) / d + 2 * (m / d) := by
    conv_lhs => rw [hdouble, Nat.add_mul_div_left _ _ hd]
  have hremainder : 2 * m % d = 2 * (m % d) % d := by
    conv_lhs => rw [hdouble, Nat.add_mul_mod_self_left]
  rw [extend_fraction m hd, hquotient, hremainder, Nat.add_mul_mod_self_left, accuracyOfFraction]
  generalize m % d = r at hlt
  split_ifs with hzero
  · rw [hzero, Nat.mul_zero, Nat.zero_div, Nat.zero_mod]
    rfl
  · rcases lt_trichotomy (2 * r) d with hless | hequal | hmore
    · rw [compare_lt_iff_lt.mpr hless, Nat.div_eq_of_lt hless, Nat.mod_eq_of_lt hless]
      simp [ExtendedMantissa.ofMantissaAndAccuracy, hzero]
    · rw [compare_eq_iff_eq.mpr hequal, hequal, Nat.div_self hd, Nat.mod_self]
      rfl
    · rw [compare_gt_iff_gt.mpr hmore]
      have hone : 2 * r / d = 1 := Nat.div_eq_of_lt_le (by omega) (by omega)
      have hrest : 2 * r % d ≠ 0 := by
        have hdiv := Nat.div_add_mod (2 * r) d
        rw [hone] at hdiv
        omega
      simp [ExtendedMantissa.ofMantissaAndAccuracy, hone, hrest]

theorem roundedMantissa_extend {y : ℚ} {k : ℕ} (hy : 0 ≤ y) (hlow : k - 1 / 2 < y)
    (hhigh : y < k + 1 / 2) : (extend y).roundedMantissa = k := by
  rcases le_or_gt (k : ℚ) y with hle | hlt
  · have hfloor : ⌊y⌋₊ = k := (Nat.floor_eq_iff hy).mpr ⟨hle, by linarith⟩
    have hdouble : ⌊2 * y⌋₊ = 2 * k := by
      rw [Nat.floor_eq_iff (by linarith)]
      push_cast
      constructor <;> linarith
    rw [extend, hfloor, hdouble, Nat.mul_mod_right]
    exact ((roundedMantissa_cases k false _).resolve_right (by simp)).1
  · have hpos : 1 ≤ k := by
      by_contra hzero
      obtain rfl : k = 0 := by omega
      simp at hlt
      linarith
    have hcast : ((k - 1 : ℕ) : ℚ) = k - 1 := by
      push_cast [hpos]
      rfl
    have hfloor : ⌊y⌋₊ = k - 1 := (Nat.floor_eq_iff hy).mpr ⟨by rw [hcast]; linarith, by
      rw [hcast]; linarith⟩
    have hdouble : ⌊2 * y⌋₊ = 2 * (k - 1) + 1 := by
      rw [Nat.floor_eq_iff (by linarith)]
      push_cast [hcast]
      constructor <;> linarith
    have hsticky : 2 * y ≠ ⌊2 * y⌋₊ := by
      rw [hdouble]
      push_cast [hcast]
      intro heq
      linarith
    rw [extend, hfloor, decide_eq_true hsticky, hdouble, Nat.mul_add_mod]
    rcases roundedMantissa_cases (k - 1) true true with ⟨-, h⟩ | ⟨h, -⟩
    · simp at h
    · simpa [Nat.sub_add_cancel hpos] using h

/-- The exponent of the units a positive fraction is rounded to. -/
def unitExponent (spec : Format) (v : ℚ) : ℤ := spec.targetExponent (Int.log 2 v + 1)

/-- The float nearest to a positive fraction. -/
def nearest (spec : Format) (s : Sign) (v : ℚ) : UnpackedFloat :=
  let e := unitExponent spec v
  let shifted := shiftToTargetExponent spec (extend (v / 2 ^ e)).roundedMantissa e .exact
  if h : shifted.1.mantissa = 0 then .zero s
  else .finite s shifted.1.mantissa shifted.2 (Nat.pos_of_ne_zero h)

theorem log_eq_of_le_of_lt {v : ℚ} {k : ℤ} (hv : 0 < v) (hlow : 2 ^ k ≤ v)
    (hhigh : v < 2 ^ (k + 1)) : Int.log 2 v = k := by
  have hle : k ≤ Int.log 2 v := (Int.zpow_le_iff_le_log one_lt_two hv).mp (by exact_mod_cast hlow)
  have hlt : Int.log 2 v < k + 1 :=
    (Int.lt_zpow_iff_log_lt one_lt_two hv).mp (by exact_mod_cast hhigh)
  omega

theorem log_of_floor {v : ℚ} {e : ℤ} (hv : 0 < v) (hunits : 0 < ⌊v / 2 ^ e⌋₊) :
    Int.log 2 v = (⌊v / 2 ^ e⌋₊).log2 + e := by
  have hunit : (0 : ℚ) < 2 ^ e := by positivity
  have hfloor := (Nat.floor_eq_iff (div_nonneg hv.le hunit.le)).mp (Eq.refl ⌊v / 2 ^ e⌋₊)
  rw [le_div_iff₀ hunit, div_lt_iff₀ hunit] at hfloor
  have hlow : (2 ^ (⌊v / 2 ^ e⌋₊).log2 : ℚ) ≤ ⌊v / 2 ^ e⌋₊ := by
    exact_mod_cast Nat.log2_self_le hunits.ne'
  have hhigh : (⌊v / 2 ^ e⌋₊ + 1 : ℚ) ≤ 2 ^ ((⌊v / 2 ^ e⌋₊).log2 + 1) := by
    exact_mod_cast Nat.lt_log2_self
  apply log_eq_of_le_of_lt hv
  · rw [zpow_add₀ two_ne_zero, zpow_natCast]
    exact (mul_le_mul_of_nonneg_right hlow hunit.le).trans hfloor.1
  · rw [add_right_comm, zpow_add₀ two_ne_zero]
    have hcast : (2 : ℚ) ^ ((⌊v / 2 ^ e⌋₊).log2 + 1 : ℤ) = 2 ^ ((⌊v / 2 ^ e⌋₊).log2 + 1) := by
      exact_mod_cast zpow_natCast (2 : ℚ) ((⌊v / 2 ^ e⌋₊).log2 + 1)
    rw [hcast]
    exact hfloor.2.trans_le (mul_le_mul_of_nonneg_right hhigh hunit.le)

theorem roundWithAccuracy_eq_nearest {spec : Format} {s : Sign} {m : ℕ} {e : ℤ}
    {accuracy : Accuracy} {v : ℚ} (hv : 0 < v)
    (hm : ExtendedMantissa.ofMantissaAndAccuracy m accuracy = extend (v / 2 ^ e))
    (he : e ≤ unitExponent spec v) :
    roundWithAccuracy spec s m e accuracy = nearest spec s v := by
  have hmantissa : m = ⌊v / 2 ^ e⌋₊ := by
    have hfst := congrArg ExtendedMantissa.mantissa hm
    rcases accuracy with _ | (_ | _ | _) <;> exact hfst
  have htarget : spec.targetExponent (totalExponent m e) = unitExponent spec v := by
    rcases Nat.eq_zero_or_pos m with hzero | hpos
    · -- nothing is left of it, so both are the least exponent
      have hsmall : v / 2 ^ e < 1 := by
        rw [← Nat.floor_eq_zero, ← hmantissa, hzero]
      have hlog : Int.log 2 v < e := by
        rw [div_lt_one (by positivity)] at hsmall
        exact (Int.lt_zpow_iff_log_lt one_lt_two hv).mp (by exact_mod_cast hsmall)
      have hbits := spec.hm
      simp only [unitExponent, Format.targetExponent, totalExponent, Format.mantissaBits, hzero,
        Nat.log2_zero] at he ⊢
      omega
    · rw [unitExponent, log_of_floor hv (hmantissa ▸ hpos), totalExponent, ← hmantissa]
      congr 1
      ring
  have hshift : shiftToTargetExponent spec m e accuracy =
      (extend (v / 2 ^ unitExponent spec v), unitExponent spec v) := by
    have hexponent : e + (unitExponent spec v - e).toNat = unitExponent spec v := by omega
    rw [shiftToTargetExponent, shiftToExponent, htarget, hm, shiftRight_extend, hexponent, div_div]
    congr 2
    rw [← zpow_natCast, ← zpow_add₀ two_ne_zero, hexponent]
  rw [roundWithAccuracy, hshift]
  rfl

theorem unitExponent_ge {spec : Format} {v : ℚ} (hv : 0 < v) {k : ℤ} (hk : 2 ^ k ≤ v) :
    spec.targetExponent (k + 1) ≤ unitExponent spec v := by
  have hlog : k ≤ Int.log 2 v := (Int.zpow_le_iff_le_log one_lt_two hv).mp (by exact_mod_cast hk)
  simp only [unitExponent, Format.targetExponent]
  omega

theorem zpow_log2_le {m : ℕ} (hm : 0 < m) (e : ℤ) : (2 : ℚ) ^ (m.log2 + e) ≤ m * 2 ^ e := by
  rw [zpow_add₀ two_ne_zero, zpow_natCast]
  exact mul_le_mul_of_nonneg_right (by exact_mod_cast Nat.log2_self_le hm.ne') (by positivity)

theorem lt_zpow_log2 (m : ℕ) (e : ℤ) : m * (2 : ℚ) ^ e < 2 ^ (m.log2 + 1 + e) := by
  have hcast : (2 : ℚ) ^ (m.log2 + 1 : ℤ) = (2 ^ (m.log2 + 1) : ℕ) := by
    exact_mod_cast zpow_natCast (2 : ℚ) (m.log2 + 1)
  rw [zpow_add₀ two_ne_zero, hcast]
  exact mul_lt_mul_of_pos_right (by exact_mod_cast Nat.lt_log2_self) (by positivity)

theorem div_eq_nearest (spec : Format) {m₁ m₂ : ℕ} (e₁ e₂ : ℤ) (h₁ : 0 < m₁) (h₂ : 0 < m₂) :
    UnpackedFloat.div spec (.finite .positive m₁ e₁ h₁) (.finite .positive m₂ e₂ h₂) =
      nearest spec .positive (m₁ * 2 ^ e₁ / (m₂ * 2 ^ e₂)) := by
  have hdiv : UnpackedFloat.div spec (.finite .positive m₁ e₁ h₁) (.finite .positive m₂ e₂ h₂) =
      roundWithAccuracy spec .positive (divCore spec m₁ e₁ m₂ e₂).1 (divCore spec m₁ e₁ m₂ e₂).2.1
        (divCore spec m₁ e₁ m₂ e₂).2.2 := rfl
  rw [hdiv, divCore]
  dsimp only
  set k := totalExponent m₁ e₁ - totalExponent m₂ e₂ with hk
  set e := min (e₁ - e₂) (spec.targetExponent k) with he
  have hpos₁ : (0 : ℚ) < m₁ := by exact_mod_cast h₁
  have hpos₂ : (0 : ℚ) < m₂ := by exact_mod_cast h₂
  apply roundWithAccuracy_eq_nearest (by positivity)
  · have hshift : e + (e₁ - e₂ - e).toNat = e₁ - e₂ := by omega
    have hpow : (2 : ℚ) ^ e * 2 ^ (e₁ - e₂ - e).toNat * 2 ^ e₂ = 2 ^ e₁ := by
      rw [← zpow_natCast, ← zpow_add₀ two_ne_zero, ← zpow_add₀ two_ne_zero, hshift,
        Int.sub_add_cancel]
    rw [extend_div _ h₂, Nat.shiftLeft_eq]
    congr 1
    push_cast
    rw [← hpow]
    field_simp
  · -- the quotient may need one bit less than the difference of the lengths
    have hlow : (2 : ℚ) ^ (k - 1) ≤ m₁ * 2 ^ e₁ / (m₂ * 2 ^ e₂) := by
      rw [le_div_iff₀ (by positivity)]
      calc (2 : ℚ) ^ (k - 1) * (m₂ * 2 ^ e₂)
          ≤ 2 ^ (k - 1) * 2 ^ (m₂.log2 + 1 + e₂) :=
            mul_le_mul_of_nonneg_left (lt_zpow_log2 m₂ e₂).le (by positivity)
        _ = 2 ^ (m₁.log2 + e₁) := by
            rw [← zpow_add₀ two_ne_zero, hk, totalExponent, totalExponent]
            congr 1
            ring
        _ ≤ m₁ * 2 ^ e₁ := zpow_log2_le h₁ e₁
    have htarget := @unitExponent_ge spec _ (by positivity) _ hlow
    rw [Int.sub_add_cancel] at htarget
    exact (min_le_right _ _).trans htarget

theorem mul_eq_nearest (spec : Format) {m₁ m₂ : ℕ} (e₁ e₂ : ℤ) (h₁ : 0 < m₁) (h₂ : 0 < m₂)
    (hlong : 2 ^ spec.mantissaBitsWithoutImplicit ≤ m₁ * m₂) :
    UnpackedFloat.mul spec (.finite .positive m₁ e₁ h₁) (.finite .positive m₂ e₂ h₂) =
      nearest spec .positive (m₁ * 2 ^ e₁ * (m₂ * 2 ^ e₂)) := by
  have hmul : UnpackedFloat.mul spec (.finite .positive m₁ e₁ h₁) (.finite .positive m₂ e₂ h₂) =
      roundWithAccuracy spec .positive (m₁ * m₂) (e₁ + e₂) .exact := rfl
  have hvalue : (m₁ * 2 ^ e₁ * (m₂ * 2 ^ e₂) : ℚ) = (m₁ * m₂ : ℕ) * 2 ^ (e₁ + e₂) := by
    rw [zpow_add₀ two_ne_zero]
    push_cast
    ring
  have hpos : (0 : ℚ) < (m₁ * m₂ : ℕ) := by exact_mod_cast Nat.mul_pos h₁ h₂
  rw [hmul, hvalue]
  apply roundWithAccuracy_eq_nearest (by positivity)
  · rw [mul_div_cancel_right₀ _ (by positivity), extend_natCast]
    rfl
  · have hlow : (2 : ℚ) ^ (spec.mantissaBitsWithoutImplicit + (e₁ + e₂)) ≤
        (m₁ * m₂ : ℕ) * 2 ^ (e₁ + e₂) := by
      rw [zpow_add₀ two_ne_zero, zpow_natCast]
      exact mul_le_mul_of_nonneg_right (by exact_mod_cast hlong) (by positivity)
    have htarget := @unitExponent_ge spec _ (by positivity) _ hlow
    simp only [Format.targetExponent, Format.mantissaBits] at htarget
    omega

/-- `m * 10 ^ e`, where the exponent is not beyond every float. -/
theorem ofScientific_eq_nearest (spec : Format) {m : ℕ} {e : ℤ} (hm : 0 < m)
    (hlow : -2 ^ spec.exponentBits ≤ e) (hhigh : e ≤ 2 ^ spec.exponentBits) :
    UnpackedFloat.ofScientific spec m e = nearest spec .positive (m * 10 ^ e) := by
  rw [UnpackedFloat.ofScientific, dif_neg hm.ne', if_neg (by omega), if_neg (by omega)]
  have hpos : (0 : ℚ) < m := by exact_mod_cast hm
  split_ifs with hsign
  · have hlong : 2 ^ spec.mantissaBitsWithoutImplicit ≤ m <<< spec.mantissaBits * 10 ^ e.toNat := by
      rw [Nat.shiftLeft_eq, Format.mantissaBits, mul_right_comm, Nat.pow_add']
      exact Nat.le_mul_of_pos_left _ (by positivity) |>.trans' (Nat.le_mul_of_pos_right _ (by simp))
    have hten : (10 : ℚ) ^ e = 10 ^ e.toNat := by
      rw [← zpow_natCast, Int.toNat_of_nonneg hsign]
    rw [mul_eq_nearest spec _ _ _ _ hlong, Nat.shiftLeft_eq, hten]
    congr 1
    push_cast
    rw [zpow_neg, zpow_natCast]
    field_simp
  · have hten : (10 : ℚ) ^ e = (10 ^ (-e).toNat)⁻¹ := by
      rw [← zpow_natCast, Int.toNat_of_nonneg (by omega), zpow_neg, inv_inv]
    rw [div_eq_nearest, hten]
    congr 1
    push_cast
    rw [mul_one, mul_one, div_eq_mul_inv]

/-- Whether a float is exactly a power of ten. -/
def isPowerOfTen (x : Float) (k : ℕ) : Bool :=
  match x.toModel.unpack with
  | .finite .positive m e _ => m * 2 ^ e.toNat == 10 ^ k * 2 ^ (-e).toNat
  | _ => false

theorem isPowerOfTen_table : ∀ k : Fin 23,
    isPowerOfTen Float.exactlyRepresentablePowersOfTen[k] k = true := by
  decide

theorem unpack_of_isPowerOfTen {x : Float} {k : ℕ} (h : isPowerOfTen x k = true) :
    ∃ (m : ℕ) (e : ℤ) (hm : 0 < m), x.toModel.unpack = .finite .positive m e hm ∧
      (m * 2 ^ e : ℚ) = 10 ^ k := by
  unfold isPowerOfTen at h
  split at h
  · rename_i m e hm hx
    refine ⟨m, e, hm, hx, ?_⟩
    rw [beq_iff_eq] at h
    have hcast : (m * 2 ^ e.toNat : ℚ) = 10 ^ k * 2 ^ (-e).toNat := by exact_mod_cast h
    have hsplit : e = e.toNat - (-e).toNat := by omega
    rw [hsplit, zpow_sub₀ two_ne_zero, zpow_natCast, zpow_natCast, mul_div_assoc', hcast]
    field_simp
  · cases h

theorem unpack_toFloat {m : ℕ} (hm : 0 < m) (hlt : m < 2 ^ 53) :
    m.toUInt64.toFloat.toModel.unpack = .finite .positive (m * 2 ^ (52 - m.log2)) (m.log2 - 52)
      (Nat.mul_pos hm (Nat.two_pow_pos _)) := by
  have hround : m.toUInt64.toFloat.toModel = .pack (floatOfInt m) := by
    have hnat : m.toUInt64.toNat = m := Nat.mod_eq_of_lt (by omega)
    show Float.Model.pack (.ofInt .binary64 (m.toUInt64.toNat : ℕ)) = _
    rw [hnat]
    rfl
  have hlow := Nat.log2_self_le hm.ne'
  have hhigh := Nat.lt_log2_self (n := m)
  have hlog : m.log2 ≤ 52 := Nat.lt_succ_iff.mp ((Nat.log2_lt hm.ne').mpr hlt)
  have hfull : 2 ^ m.log2 * 2 ^ (52 - m.log2) = 2 ^ 52 := by
    rw [← pow_add, Nat.add_sub_cancel' hlog]
  have hcanonical : Canonical (m * 2 ^ (52 - m.log2)) (m.log2 - 52) := by
    refine ⟨Nat.mul_pos hm (Nat.two_pow_pos _), ?_, by omega, by omega, .inl ?_⟩
    · have hdouble : 2 ^ (m.log2 + 1) * 2 ^ (52 - m.log2) = 2 ^ 53 := by
        rw [pow_succ, mul_right_comm, hfull, ← pow_succ]
      rw [← hdouble]
      exact Nat.mul_lt_mul_of_pos_right hhigh (Nat.two_pow_pos _)
    · rw [← hfull]
      exact Nat.mul_le_mul_right _ hlow
  rw [hround, floatOfInt_eq hm hlt]
  exact unpack_pack hcanonical .positive

theorem value_toFloat {m : ℕ} (hm : 0 < m) (hlt : m < 2 ^ 53) :
    ((m * 2 ^ (52 - m.log2) : ℕ) * 2 ^ (m.log2 - 52 : ℤ) : ℚ) = m := by
  have hlog : m.log2 ≤ 52 := Nat.lt_succ_iff.mp ((Nat.log2_lt hm.ne').mpr hlt)
  have hexponent : (m.log2 - 52 : ℤ) = -(52 - m.log2 : ℕ) := by omega
  rw [hexponent, zpow_neg, zpow_natCast]
  push_cast
  field_simp

theorem unpack_powersOfTen {k : ℕ} (h : k < Float.exactlyRepresentablePowersOfTen.size) :
    ∃ (m : ℕ) (e : ℤ) (hm : 0 < m),
      Float.exactlyRepresentablePowersOfTen[k].toModel.unpack = .finite .positive m e hm ∧
        (m * 2 ^ e : ℚ) = 10 ^ k := unpack_of_isPowerOfTen (isPowerOfTen_table ⟨k, h⟩)

theorem ofScientific_table {d k : ℕ} (hd : 0 < d) (hlt : d < 2 ^ 53) (hk : k ≤ 22)
    (negative : Bool) : Float.ofScientific d negative k =
      .ofModel (.pack (nearest .binary64 .positive (if negative then d / 10 ^ k else d * 10 ^ k))) := by
  have hsize : k < Float.exactlyRepresentablePowersOfTen.size := Nat.lt_succ_of_le hk
  obtain ⟨m, e, hm, hunpack, hten⟩ := unpack_powersOfTen hsize
  have hinteger := unpack_toFloat hd hlt
  have hvalue := value_toFloat hd hlt
  rw [Float.ofScientific, dif_pos ⟨hlt, hk⟩]
  dsimp only
  split_ifs
  · show Float.ofModel (.pack (.div .binary64 d.toUInt64.toFloat.toModel.unpack _)) = _
    rw [hinteger, hunpack, div_eq_nearest, hvalue, hten]
  · show Float.ofModel (.pack (.mul .binary64 d.toUInt64.toFloat.toModel.unpack _)) = _
    have hfull : 2 ^ 52 ≤ d * 2 ^ (52 - d.log2) :=
      (canonical_of_unpack hinteger).full.resolve_right (by omega)
    have hlong : 2 ^ Format.binary64.mantissaBitsWithoutImplicit ≤ d * 2 ^ (52 - d.log2) * m :=
      hfull.trans (Nat.le_mul_of_pos_right _ hm)
    rw [hinteger, hunpack, mul_eq_nearest _ _ _ _ _ hlong, hvalue, hten]

/-- A decimal literal is the float nearest to its value. -/
theorem floatOfDecimal_eq_nearest {d : ℕ} {e : ℤ} (hd : 0 < d) (hlow : -2048 ≤ e)
    (hhigh : e ≤ 2048) :
    floatOfDecimal false d e = .ofModel (.pack (nearest .binary64 .positive (d * 10 ^ e))) := by
  have hshow : floatOfDecimal false d e = Float.ofScientific d (decide (e < 0)) e.natAbs := rfl
  rw [hshow]
  by_cases htable : d < 2 ^ 53 ∧ e.natAbs ≤ 22
  · rw [ofScientific_table hd htable.1 htable.2]
    congr 3
    rcases Int.natAbs_eq e with hsign | hsign
    · have hnonneg : ¬e < 0 := by omega
      rw [decide_eq_false hnonneg, if_neg Bool.false_ne_true]
      conv_rhs => rw [hsign, zpow_natCast]
    · by_cases hneg : e < 0
      · rw [decide_eq_true hneg, if_pos rfl]
        conv_rhs => rw [hsign, zpow_neg, zpow_natCast, ← div_eq_mul_inv]
      · obtain rfl : e = 0 := by omega
        simp
  · have hexponent : (if decide (e < 0) = true then Int.negOfNat e.natAbs
        else Int.ofNat e.natAbs) = e := by
      split_ifs with hsign
      · rw [decide_eq_true_eq] at hsign
        rw [Int.negOfNat_eq, Int.ofNat_eq_natCast]
        omega
      · rw [decide_eq_true_eq] at hsign
        rw [Int.ofNat_eq_natCast]
        omega
    rw [Float.ofScientific, dif_neg htable]
    dsimp only
    rw [hexponent]
    show Float.ofModel (.pack (.ofScientific .binary64 d e)) = _
    rw [ofScientific_eq_nearest _ hd hlow hhigh]

theorem nearest_eq {spec : Format} {s : Sign} {v : ℚ} {r m : ℕ} {t e : ℤ} (ht : unitExponent spec v = t)
    (hr : (extend (v / 2 ^ t)).roundedMantissa = r) (hm : r / 2 ^ shiftAmount spec r t = m)
    (he : t + shiftAmount spec r t = e) (hpos : 0 < m) :
    nearest spec s v = .finite s m e hpos := by
  have hshift : shiftToTargetExponent spec r t .exact =
      ((⟨r, false, false⟩ : ExtendedMantissa) >>> shiftAmount spec r t,
        t + shiftAmount spec r t) := rfl
  unfold nearest
  simp only [ht, hr, hshift, mantissa_shiftRight, hm, he]
  exact dif_neg hpos.ne'

theorem unitExponent_normal {v : ℚ} {k : ℤ} (hv : 0 < v) (hlow : 2 ^ (k + 52) ≤ v)
    (hhigh : v < 2 ^ (k + 53)) (hk : -1074 ≤ k) : unitExponent .binary64 v = k := by
  have hbits : Format.binary64.mantissaBits = 53 := rfl
  have hlog : Int.log 2 v = k + 52 := log_eq_of_le_of_lt hv hlow (by rwa [add_assoc])
  simp only [unitExponent, Format.targetExponent, minExponent_binary64, hbits, hlog]
  omega

theorem unitExponent_subnormal {v : ℚ} (hv : 0 < v) (hhigh : v < 2 ^ (-1021 : ℤ)) :
    unitExponent .binary64 v = -1074 := by
  have hbits : Format.binary64.mantissaBits = 53 := rfl
  have hlog : Int.log 2 v < -1021 :=
    (Int.lt_zpow_iff_log_lt one_lt_two hv).mp (by exact_mod_cast hhigh)
  simp only [unitExponent, Format.targetExponent, minExponent_binary64, hbits]
  omega

theorem shiftAmount_canonical {m : ℕ} {e : ℤ} (h : Canonical m e) :
    shiftAmount .binary64 m e = 0 := by
  have hbits : Format.binary64.mantissaBits = 53 := rfl
  have hlow := h.low
  simp only [shiftAmount, Format.targetExponent, totalExponent, minExponent_binary64, hbits]
  rcases log2_of_canonical h with ⟨hlog, -⟩ | ⟨hlog, -, -⟩
  · omega
  · omega

theorem nearest_of_unitExponent {m : ℕ} {e : ℤ} (h : Canonical m e) (s : Sign) {v : ℚ} (hv : 0 < v)
    (hunit : unitExponent .binary64 v = e) (hlow : (m - 1 / 2) * 2 ^ e < v)
    (hhigh : v < (m + 1 / 2) * 2 ^ e) : nearest .binary64 s v = .finite s m e h.pos := by
  have hpos : (0 : ℚ) < 2 ^ e := by positivity
  rw [← lt_div_iff₀ hpos] at hlow
  rw [← div_lt_iff₀ hpos] at hhigh
  have hround := roundedMantissa_extend (div_nonneg hv.le hpos.le) hlow hhigh
  have hfit := shiftAmount_canonical h
  exact nearest_eq hunit hround (by rw [hfit, pow_zero, Nat.div_one]) (by rw [hfit]; simp) h.pos

theorem nearest_below_power {e : ℤ} (he : -1074 < e) (s : Sign) {v : ℚ} (hv : 0 < v)
    (hquarter : (2 ^ 52 - 1 / 4) * 2 ^ e < v) (hcarry : v < 2 ^ 52 * 2 ^ e) (h : 0 < 2 ^ 52) :
    nearest .binary64 s v = .finite s (2 ^ 52) e h := by
  have hhalf : (2 : ℚ) ^ e = 2 * 2 ^ (e - 1) := by
    rw [zpow_sub_one₀ two_ne_zero]
    ring
  have hunit : (0 : ℚ) < 2 ^ (e - 1) := by positivity
  rw [hhalf] at hquarter hcarry
  have hbelow : v < 2 ^ (e - 1 + 53) := by
    rw [add_comm, zpow_add₀ two_ne_zero]
    norm_num at hcarry ⊢
    linarith
  have hunitExponent : unitExponent .binary64 v = e - 1 := by
    apply unitExponent_normal hv _ hbelow (by omega)
    rw [add_comm, zpow_add₀ two_ne_zero]
    norm_num at hquarter ⊢
    linarith
  have hround : (extend (v / 2 ^ (e - 1))).roundedMantissa = 2 ^ 53 := by
    apply roundedMantissa_extend (div_nonneg hv.le hunit.le)
    · rw [lt_div_iff₀ hunit]
      norm_num at hquarter ⊢
      linarith
    · rw [div_lt_iff₀ hunit]
      norm_num at hcarry ⊢
      linarith
  have hshift : shiftAmount .binary64 (2 ^ 53) (e - 1) = 1 := by
    have hbits : Format.binary64.mantissaBits = 53 := rfl
    simp only [shiftAmount, Format.targetExponent, totalExponent, minExponent_binary64, hbits,
      Nat.log2_two_pow]
    omega
  apply nearest_eq hunitExponent hround
  · rw [hshift]
    norm_num
  · rw [hshift]
    push_cast
    ring

/-- A fraction closer to a canonical number than half a unit is rounded to it; just below a power of
two the units are half as large. -/
theorem nearest_of_close {m : ℕ} {e : ℤ} (h : Canonical m e) (s : Sign) {v : ℚ} (hv : 0 < v)
    (hlow : (m - 1 / 2) * 2 ^ e < v) (hpower : m = 2 ^ 52 → (m - 1 / 4) * 2 ^ e < v)
    (hhigh : v < (m + 1 / 2) * 2 ^ e) : nearest .binary64 s v = .finite s m e h.pos := by
  have hunit : (0 : ℚ) < 2 ^ e := by positivity
  have hlast : (m + 1 / 2 : ℚ) < 2 ^ 53 := by
    have hle : (m + 1 : ℚ) ≤ 2 ^ 53 := by exact_mod_cast h.lt
    linarith
  have hbelow : v < 2 ^ (e + 53) := by
    rw [add_comm, zpow_add₀ two_ne_zero]
    exact hhigh.trans (mul_lt_mul_of_pos_right (by exact_mod_cast hlast) hunit)
  by_cases hleast : e = -1074
  · have hsubnormal : unitExponent .binary64 v = e := by
      rw [hleast] at hbelow ⊢
      exact unitExponent_subnormal hv hbelow
    exact nearest_of_unitExponent h s hv hsubnormal hlow hhigh
  have hlow' := h.low
  have hfull : 2 ^ 52 ≤ m := h.full.resolve_right hleast
  by_cases hcarry : 2 ^ (e + 52) ≤ v
  · exact nearest_of_unitExponent h s hv (unitExponent_normal hv hcarry hbelow hlow') hlow hhigh
  -- a mantissa that close to the value has it below the power only if it is the power
  push Not at hcarry
  rw [add_comm, zpow_add₀ two_ne_zero] at hcarry
  have hless : (m - 1 / 2 : ℚ) < 2 ^ 52 := by
    exact_mod_cast lt_of_mul_lt_mul_right (hlow.trans hcarry) hunit.le
  have hequal : m = 2 ^ 52 := by
    have hle : (m : ℚ) < (2 ^ 52 + 1 : ℕ) := by
      push_cast
      linarith
    have hle' := Nat.cast_lt.mp hle
    omega
  have hquarter := hpower hequal
  subst hequal
  exact nearest_below_power (lt_of_le_of_ne hlow' (Ne.symm hleast)) s hv
    (by exact_mod_cast hquarter) (by exact_mod_cast hcarry) h.pos

end Py
