import Ebabf.Py.FloatNearest

/-!
# The shortest decimal of a float

Seventeen significant digits tell a float from all others, so `repr` finds a decimal that reads back
as the float it was made from.
-/

namespace Py

open Float.Model Float.Model.UnpackedFloat

theorem decimalExponent_eq {p q : ℕ} (hp : 0 < p) (hq : 0 < q) :
    decimalExponent p q = Int.log 10 (p / q : ℚ) := by
  have hpos : (0 : ℚ) < p := by exact_mod_cast hp
  have hpos' : (0 : ℚ) < q := by exact_mod_cast hq
  unfold decimalExponent
  split_ifs with hle
  · have hone : (1 : ℚ) ≤ p / q := by
      rw [le_div_iff₀ hpos', one_mul]
      exact_mod_cast hle
    rw [Int.log_of_one_le_right _ hone, Nat.floor_div_eq_div]
  · have hone : (p / q : ℚ) ≤ 1 := by
      rw [div_le_one hpos']
      exact_mod_cast (Nat.not_le.mp hle).le
    have hceil : ⌈(p / q : ℚ)⁻¹⌉₊ = (q + p - 1) / p := by
      have hlow := Nat.div_mul_le_self (q + p - 1) p
      have hhigh := Nat.lt_div_mul_add (a := q + p - 1) hp
      generalize hn : (q + p - 1) / p = n at hlow hhigh
      have hn₀ : n ≠ 0 := by
        rintro rfl
        omega
      rw [inv_div, Nat.ceil_eq_iff hn₀, lt_div_iff₀ hpos, div_le_iff₀ hpos]
      have hpred : (n - 1) * p = n * p - p := by rw [Nat.sub_mul, one_mul]
      constructor
      · exact_mod_cast (by omega : (n - 1) * p < q)
      · exact_mod_cast (by omega : q ≤ n * p)
    rw [Int.log_of_right_le_one _ hone, hceil]

/-- A decimal of `n` digits for a fraction between `10 ^ k` and `10 ^ (k + 1)`. -/
structure NearDecimal (n : ℕ) (k : ℤ) (c : ℕ × ℤ) : Prop where
  exponent : c.2 = k + 1 - n
  low : 10 ^ (n - 1) ≤ c.1
  high : c.1 ≤ 10 ^ n

theorem scaled_eq {p q : ℕ} (hq : 0 < q) (shift : ℤ) :
    ((if 0 ≤ shift then p * 10 ^ shift.toNat else p : ℕ) : ℚ) /
      (if 0 ≤ shift then q else q * 10 ^ (-shift).toNat : ℕ) = p / q * 10 ^ shift := by
  have hpos : (0 : ℚ) < q := by exact_mod_cast hq
  split_ifs with hsign
  · have hten : (10 : ℚ) ^ shift = 10 ^ shift.toNat := by
      rw [← zpow_natCast, Int.toNat_of_nonneg hsign]
    rw [hten]
    push_cast
    ring
  · have hten : (10 : ℚ) ^ shift = (10 ^ (-shift).toNat)⁻¹ := by
      rw [← zpow_natCast, Int.toNat_of_nonneg (by omega), zpow_neg, inv_inv]
    rw [hten]
    push_cast
    field_simp

theorem nearDecimal_of_mem {p q n : ℕ} {k : ℤ} (hq : 0 < q) (hn : 1 ≤ n)
    (hlow : (10 : ℚ) ^ k ≤ p / q) (hhigh : (p / q : ℚ) < 10 ^ (k + 1)) {c : ℕ × ℤ}
    (hc : c ∈ neighbours p q k n) : NearDecimal n k c := by
  unfold neighbours at hc
  dsimp only at hc
  set shift : ℤ := n - 1 - k with hshift
  set num := if 0 ≤ shift then p * 10 ^ shift.toNat else p with hnum
  set den := if 0 ≤ shift then q else q * 10 ^ (-shift).toNat with hden
  have hscaled : (num / den : ℚ) = p / q * 10 ^ shift := scaled_eq hq shift
  have hten : (0 : ℚ) < 10 ^ shift := by positivity
  have hfloor : 10 ^ (n - 1) ≤ num / den ∧ num / den < 10 ^ n := by
    rw [← Nat.floor_div_eq_div (K := ℚ), hscaled]
    constructor
    · apply Nat.le_floor
      push_cast
      calc (10 : ℚ) ^ (n - 1) = 10 ^ k * 10 ^ shift := by
            rw [← zpow_natCast, ← zpow_add₀ (by norm_num)]
            congr 1
            omega
        _ ≤ p / q * 10 ^ shift := mul_le_mul_of_nonneg_right hlow hten.le
    · rw [Nat.floor_lt (by positivity)]
      push_cast
      calc (p / q * 10 ^ shift : ℚ) < 10 ^ (k + 1) * 10 ^ shift :=
            mul_lt_mul_of_pos_right hhigh hten
        _ = 10 ^ n := by
            rw [← zpow_natCast, ← zpow_add₀ (by norm_num)]
            congr 1
            omega
  have hmem : c = (num / den, -shift) ∨ c = (num / den + 1, -shift) := by
    split_ifs at hc
    · simpa using hc
    · simpa [or_comm] using hc
  rcases hmem with rfl | rfl
  · exact ⟨by dsimp only; omega, hfloor.1, hfloor.2.le⟩
  · exact ⟨by dsimp only; omega, hfloor.1.trans (Nat.le_succ _), hfloor.2⟩

theorem exists_neighbour_close {p q : ℕ} (hq : 0 < q) (k : ℤ) (n : ℕ) :
    ∃ c ∈ neighbours p q k n, |(c.1 * 10 ^ c.2 - p / q : ℚ)| ≤ 1 / 2 * 10 ^ (k + 1 - n) := by
  unfold neighbours
  dsimp only
  set shift : ℤ := n - 1 - k with hshift
  set num := if 0 ≤ shift then p * 10 ^ shift.toNat else p with hnum
  set den := if 0 ≤ shift then q else q * 10 ^ (-shift).toNat with hden
  have hden₀ : 0 < den := by
    rw [hden]
    split_ifs <;> positivity
  have hscaled : (num / den : ℚ) = p / q * 10 ^ shift := scaled_eq hq shift
  have hcancel : (10 : ℚ) ^ shift * 10 ^ (-shift) = 1 := by
    rw [← zpow_add₀ (by norm_num), add_neg_cancel, zpow_zero]
  have hexponent : k + 1 - n = -shift := by omega
  have hunits : ∀ d : ℕ, |(d - num / den : ℚ)| ≤ 1 / 2 →
      |(d * 10 ^ (-shift) - p / q : ℚ)| ≤ 1 / 2 * 10 ^ (k + 1 - n) := by
    intro d hd
    have hfactor : (d * 10 ^ (-shift) - p / q : ℚ) = (d - num / den) * 10 ^ (-shift) := by
      rw [hscaled, sub_mul, mul_assoc, hcancel, mul_one]
    rw [hfactor, abs_mul, hexponent, abs_of_pos (by positivity : (0 : ℚ) < 10 ^ (-shift))]
    exact mul_le_mul_of_nonneg_right hd (by positivity)
  have hsplit : (num / den : ℚ) = (num / den : ℕ) + (num % den : ℕ) / den := by
    have hdiv : (num : ℚ) = den * (num / den : ℕ) + (num % den : ℕ) := by
      exact_mod_cast (Nat.div_add_mod num den).symm
    have hne : (den : ℚ) ≠ 0 := by positivity
    rw [div_eq_iff hne, hdiv]
    field_simp
  have hlt : ((num % den : ℕ) : ℚ) / den < 1 := by
    rw [div_lt_one (by exact_mod_cast hden₀)]
    exact_mod_cast Nat.mod_lt num hden₀
  have hnonneg : (0 : ℚ) ≤ (num % den : ℕ) / den := by positivity
  split_ifs with hhalf
  · refine ⟨_, List.mem_cons_self, hunits _ ?_⟩
    have hle : ((num % den : ℕ) : ℚ) / den ≤ 1 / 2 := by
      rw [div_le_div_iff₀ (by exact_mod_cast hden₀) two_pos]
      exact_mod_cast (by omega : num % den * 2 ≤ 1 * den)
    rw [hsplit, abs_le]
    constructor <;> linarith
  · refine ⟨_, List.mem_cons_self, hunits _ ?_⟩
    have hge : (1 / 2 : ℚ) ≤ (num % den : ℕ) / den := by
      rw [div_le_div_iff₀ two_pos (by exact_mod_cast hden₀)]
      exact_mod_cast (by omega : 1 * den ≤ num % den * 2)
    rw [hsplit, abs_le]
    push_cast
    constructor <;> linarith

/-- The numerator and the denominator `repr` works with. -/
def numerator (m : ℕ) (e : ℤ) : ℕ := if 0 ≤ e then m * 2 ^ e.toNat else m

def denominator (e : ℤ) : ℕ := if 0 ≤ e then 1 else 2 ^ (-e).toNat

theorem denominator_pos (e : ℤ) : 0 < denominator e := by
  unfold denominator
  split_ifs <;> positivity

theorem numerator_div_denominator (m : ℕ) (e : ℤ) :
    (numerator m e / denominator e : ℚ) = m * 2 ^ e := by
  unfold numerator denominator
  split_ifs with hsign
  · have htwo : (2 : ℚ) ^ e = 2 ^ e.toNat := by
      rw [← zpow_natCast, Int.toNat_of_nonneg hsign]
    rw [htwo]
    push_cast
    ring
  · have htwo : (2 : ℚ) ^ e = (2 ^ (-e).toNat)⁻¹ := by
      rw [← zpow_natCast, Int.toNat_of_nonneg (by omega), zpow_neg, inv_inv]
    rw [htwo]
    push_cast
    ring

theorem log_canonical {m : ℕ} {e : ℤ} (h : Canonical m e) :
    -324 ≤ Int.log 10 (m * 2 ^ e : ℚ) ∧ Int.log 10 (m * 2 ^ e : ℚ) ≤ 308 := by
  have hm : (1 : ℚ) ≤ m := by exact_mod_cast h.pos
  have hm' : (m : ℚ) < 2 ^ 53 := by exact_mod_cast h.lt
  have hpos : (0 : ℚ) < m * 2 ^ e := by positivity
  have hsmall : (10 : ℚ) ^ (-324 : ℤ) ≤ 2 ^ (-1074 : ℤ) := by
    have hnat : 2 ^ 1074 ≤ 10 ^ 324 := by decide +kernel
    rw [zpow_neg, zpow_neg]
    exact inv_anti₀ (by positivity) (by exact_mod_cast hnat)
  have hlarge : (2 : ℚ) ^ 53 * 2 ^ (971 : ℤ) < 10 ^ (309 : ℤ) := by
    have hnat : 2 ^ 53 * 2 ^ 971 < 10 ^ 309 := by decide +kernel
    exact_mod_cast hnat
  have hlow : (2 : ℚ) ^ (-1074 : ℤ) ≤ 2 ^ e := zpow_le_zpow_right₀ one_le_two h.low
  have hhigh : (2 : ℚ) ^ e ≤ 2 ^ (971 : ℤ) := zpow_le_zpow_right₀ one_le_two h.high
  constructor
  · apply (Int.zpow_le_iff_le_log (by norm_num) hpos).mp
    calc ((10 : ℕ) : ℚ) ^ (-324 : ℤ) ≤ 2 ^ e := by exact_mod_cast hsmall.trans hlow
      _ ≤ m * 2 ^ e := le_mul_of_one_le_left (by positivity) hm
  · apply Int.lt_add_one_iff.mp
    apply (Int.lt_zpow_iff_log_lt (by norm_num) hpos).mp
    calc (m * 2 ^ e : ℚ) ≤ 2 ^ 53 * 2 ^ (971 : ℤ) :=
          mul_le_mul hm'.le hhigh (by positivity) (by positivity)
      _ < ((10 : ℕ) : ℚ) ^ (309 : ℤ) := by exact_mod_cast hlarge

theorem nearest_of_seventeen {m : ℕ} {e : ℤ} (h : Canonical m e) {w : ℚ}
    (hw : |w - m * 2 ^ e| ≤ 1 / 2 * 10 ^ (Int.log 10 (m * 2 ^ e : ℚ) - 16)) :
    nearest .binary64 .positive w = .finite .positive m e h.pos := by
  have hunit : (0 : ℚ) < 2 ^ e := by positivity
  have hm : (1 : ℚ) ≤ m := by exact_mod_cast h.pos
  have hm' : (m : ℚ) < 2 ^ 53 := by exact_mod_cast h.lt
  have hpos : (0 : ℚ) < m * 2 ^ e := by positivity
  have hlog : (10 : ℚ) ^ Int.log 10 (m * 2 ^ e : ℚ) ≤ m * 2 ^ e := by
    exact_mod_cast Int.zpow_log_le_self (b := 10) (by norm_num) hpos
  have herror : |w - m * 2 ^ e| ≤ m / (2 * 10 ^ 16) * 2 ^ e := by
    refine hw.trans ?_
    rw [zpow_sub₀ (by norm_num)]
    generalize (10 : ℚ) ^ Int.log 10 (m * 2 ^ e : ℚ) = ten at hlog
    calc (1 / 2 * (ten / 10 ^ (16 : ℤ)) : ℚ) = 1 / (2 * 10 ^ 16) * ten := by ring
      _ ≤ 1 / (2 * 10 ^ 16) * (m * 2 ^ e) := mul_le_mul_of_nonneg_left hlog (by positivity)
      _ = m / (2 * 10 ^ 16) * 2 ^ e := by ring
  obtain ⟨hbelow, habove⟩ := abs_le.mp herror
  have hwithin : ∀ r : ℚ, m / (2 * 10 ^ 16) < r → (m - r) * 2 ^ e < w ∧ w < (m + r) * 2 ^ e := by
    intro r hr
    have hscale := mul_lt_mul_of_pos_right hr hunit
    constructor
    · linarith
    · linarith
  have hhalf := hwithin (1 / 2) (by rw [div_lt_iff₀ (by positivity)]; linarith)
  apply nearest_of_close h
  · exact lt_of_le_of_lt (mul_nonneg (by linarith) hunit.le) hhalf.1
  · exact hhalf.1
  · intro hpower
    refine (hwithin (1 / 4) ?_).1
    rw [hpower]
    norm_num
  · exact hhalf.2

/-- The decimals `repr` tries on a number. -/
def candidates (m : ℕ) (e : ℤ) : List (ℕ × ℤ) :=
  (List.range 17).flatMap fun n => neighbours (numerator m e) (denominator e)
    (decimalExponent (numerator m e) (denominator e)) (n + 1)

theorem decimalExponent_number {m : ℕ} (hm : 0 < m) (e : ℤ) :
    decimalExponent (numerator m e) (denominator e) = Int.log 10 (m * 2 ^ e : ℚ) := by
  have hnum : 0 < numerator m e := by
    unfold numerator
    split_ifs <;> positivity
  rw [decimalExponent_eq hnum (denominator_pos e), numerator_div_denominator]

theorem candidate_bounds {m : ℕ} {e : ℤ} (h : Canonical m e) {c : ℕ × ℤ}
    (hc : c ∈ candidates m e) : 0 < c.1 ∧ c.1 ≤ 10 ^ 17 ∧ -340 ≤ c.2 ∧ c.2 ≤ 308 := by
  have hm : (0 : ℚ) < m := by exact_mod_cast h.pos
  have hpos : (0 : ℚ) < m * 2 ^ e := by positivity
  obtain ⟨hlow, hhigh⟩ := log_canonical h
  obtain ⟨n, hn, hc⟩ := List.mem_flatMap.mp hc
  rw [List.mem_range] at hn
  rw [decimalExponent_number h.pos] at hc
  have hnear : NearDecimal (n + 1) (Int.log 10 (m * 2 ^ e : ℚ)) c := by
    apply nearDecimal_of_mem (denominator_pos e) (by omega) _ _ hc
    · rw [numerator_div_denominator]
      exact_mod_cast Int.zpow_log_le_self (b := 10) (by norm_num) hpos
    · rw [numerator_div_denominator]
      exact_mod_cast Int.lt_zpow_succ_log_self (b := 10) (by norm_num) (m * 2 ^ e : ℚ)
  have hexponent := hnear.exponent
  have hdigits : 10 ^ (n + 1) ≤ 10 ^ 17 := Nat.pow_le_pow_right (by norm_num) (by omega)
  exact ⟨lt_of_lt_of_le (by positivity) hnear.low, hnear.high.trans hdigits, by omega, by omega⟩

theorem exists_candidate {m : ℕ} {e : ℤ} (h : Canonical m e) :
    ∃ c ∈ candidates m e, floatOfDecimal false c.1 c.2 = numberOf .positive h := by
  obtain ⟨c, hc, hclose⟩ := exists_neighbour_close (p := numerator m e) (denominator_pos e)
    (decimalExponent (numerator m e) (denominator e)) 17
  have hmem : c ∈ candidates m e :=
    List.mem_flatMap.mpr ⟨16, List.mem_range.mpr (by norm_num), hc⟩
  obtain ⟨hpos, -, hlow, hhigh⟩ := candidate_bounds h hmem
  rw [numerator_div_denominator, decimalExponent_number h.pos,
    show Int.log 10 (m * 2 ^ e : ℚ) + 1 - (17 : ℕ) = Int.log 10 (m * 2 ^ e : ℚ) - 16 by omega]
    at hclose
  refine ⟨c, hmem, ?_⟩
  rw [floatOfDecimal_eq_nearest hpos (by omega) (by omega), nearest_of_seventeen h hclose]
  rfl

/-- The decimal `repr` finds reads back as the float. -/
theorem shortestDecimal_spec {m : ℕ} {e : ℤ} (h : Canonical m e) : ∃ d k,
    shortestDecimal (numberOf .positive h) (numerator m e) (denominator e) = (d, k) ∧
      0 < d ∧ d ≤ 10 ^ 17 ∧ -340 ≤ k ∧ k ≤ 308 ∧
        floatOfDecimal false d k = numberOf .positive h := by
  have hfound : ((candidates m e).find? fun c =>
      floatOfDecimal false c.1 c.2 == numberOf .positive h).isSome := by
    obtain ⟨c, hmem, hread⟩ := exists_candidate h
    rw [List.find?_isSome]
    exact ⟨c, hmem, (beq_numberOf h).mpr hread⟩
  obtain ⟨c, hc⟩ := Option.isSome_iff_exists.mp hfound
  have hread := @List.find?_some _ (fun c : ℕ × ℤ =>
    floatOfDecimal false c.1 c.2 == numberOf .positive h) _ _ hc
  obtain ⟨hpos, hdigits, hlow, hhigh⟩ := candidate_bounds h (List.mem_of_find?_eq_some hc)
  refine ⟨c.1, c.2, ?_, hpos, hdigits, hlow, hhigh, (beq_numberOf h).mp hread⟩
  show ((candidates m e).find? _).getD (0, 0) = _
  rw [hc]
  rfl

/-- Any decimal of the same value reads back as the float. -/
theorem floatOfDecimal_congr {d d' : ℕ} {k k' : ℤ} (hd : 0 < d) (hk : -2048 ≤ k ∧ k ≤ 2048)
    (hk' : -2048 ≤ k' ∧ k' ≤ 2048) (hvalue : (d' * 10 ^ k' : ℚ) = d * 10 ^ k) :
    floatOfDecimal false d' k' = floatOfDecimal false d k := by
  have hpos : (0 : ℚ) < d * 10 ^ k := by
    have hcast : (0 : ℚ) < d := by exact_mod_cast hd
    positivity
  have hd' : 0 < d' := by
    rcases Nat.eq_zero_or_pos d' with rfl | hpos'
    · rw [← hvalue, Nat.cast_zero, zero_mul] at hpos
      exact absurd hpos (lt_irrefl 0)
    · exact hpos'
  rw [floatOfDecimal_eq_nearest hd hk.1 hk.2, floatOfDecimal_eq_nearest hd' hk'.1 hk'.2, hvalue]

end Py
