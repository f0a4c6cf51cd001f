import Mathlib

/-!
# Packed floats

A float is the packing of its unpacking, and the mantissas and exponents of the format are those
that packing keeps. Hence floats that compare equal to a number are that number.
-/

namespace Py

open Float.Model (Format UnpackedFloat)
open Float.Model.UnpackedFloat

/-- The mantissas and exponents of the binary64 format: full mantissas, and smaller ones at the
least exponent. -/
structure Canonical (m : ℕ) (e : ℤ) : Prop where
  pos : 0 < m
  lt : m < 2 ^ 53
  low : -1074 ≤ e
  high : e ≤ 971
  full : 2 ^ 52 ≤ m ∨ e = -1074

@[simp] theorem unpackSign_packComponents {spec : Format} {s : Sign}
    {exponent : BitVec spec.exponentBits} {mantissa : BitVec spec.mantissaBitsWithoutImplicit} :
    unpackSign (packComponents spec s exponent mantissa) = s.toBitVec := by
  ext i hi
  obtain rfl : i = 0 := by omega
  simp [unpackSign, packComponents, BitVec.getLsbD_append, BitVec.getElem_append]

@[simp] theorem ofBitVec_toBitVec (s : Sign) : Sign.ofBitVec s.toBitVec = s := by
  cases s <;> rfl

theorem toBitVec_ofBitVec (b : BitVec 1) : (Sign.ofBitVec b).toBitVec = b := by
  rcases BitVec.eq_zero_or_eq_one b with rfl | rfl <;> rfl

theorem packComponents_unpack {spec : Format} (b : BitVec spec.numBits) :
    packComponents spec (Sign.ofBitVec (unpackSign b)) (unpackExponent b) (unpackMantissa b) = b := by
  rw [packComponents, toBitVec_ofBitVec]
  have hm := spec.hm
  have he := spec.he
  apply BitVec.eq_of_getLsbD_eq
  intro i hi
  simp only [BitVec.getLsbD_append, unpackMantissa, unpackExponent, unpackSign,
    BitVec.getLsbD_cast, BitVec.getLsbD_extractLsb]
  split_ifs with h₁ h₂
  · rw [Nat.zero_add, decide_eq_true (by omega), Bool.true_and]
  · rw [decide_eq_true (by omega), Bool.true_and]
    congr 1
    omega
  · rw [decide_eq_true (by omega), Bool.true_and]
    congr 1
    omega

theorem toNat_implicit {k : ℕ} (v : BitVec k) : (1#1 ++ v).toNat = 2 ^ k + v.toNat := by
  rw [BitVec.toNat_append, ← Nat.shiftLeft_add_eq_or_of_lt v.isLt, Nat.shiftLeft_eq]
  simp

theorem unpack_cases (b : BitVec Format.binary64.numBits) :
    (unpackExponent b = -1#11 ∧ unpackMantissa b = 0#52 ∧
      UnpackedFloat.unpack .binary64 b = .infinity (Sign.ofBitVec (unpackSign b))) ∨
    (unpackExponent b = -1#11 ∧ unpackMantissa b ≠ 0#52 ∧
      UnpackedFloat.unpack .binary64 b = .notANumber) ∨
    (unpackExponent b = 0#11 ∧ unpackMantissa b = 0#52 ∧
      UnpackedFloat.unpack .binary64 b = .zero (Sign.ofBitVec (unpackSign b))) ∨
    (unpackExponent b = 0#11 ∧ (unpackMantissa b).toNat < 2 ^ 52 ∧
      ∃ h : Canonical (unpackMantissa b).toNat (-1074), UnpackedFloat.unpack .binary64 b =
        .finite (Sign.ofBitVec (unpackSign b)) (unpackMantissa b).toNat (-1074) h.pos) ∨
    ∃ h : Canonical (2 ^ 52 + (unpackMantissa b).toNat) ((unpackExponent b).toNat - 1075),
      UnpackedFloat.unpack .binary64 b = .finite (Sign.ofBitVec (unpackSign b))
        (2 ^ 52 + (unpackMantissa b).toNat) ((unpackExponent b).toNat - 1075) h.pos := by
  have hbias : Format.binary64.exponentBias = 1023 := by decide
  have hmantissaLt : (unpackMantissa b).toNat < 2 ^ 52 := (unpackMantissa b).isLt
  have hexponentLt : (unpackExponent b).toNat < 2 ^ 11 := (unpackExponent b).isLt
  unfold UnpackedFloat.unpack
  dsimp only
  split_ifs with hlast hmantissa hfirst hmantissa
  · exact .inl ⟨hlast, hmantissa, rfl⟩
  · exact .inr (.inl ⟨hlast, hmantissa, rfl⟩)
  · exact .inr (.inr (.inl ⟨hfirst, hmantissa, rfl⟩))
  · have hpos : 0 < (unpackMantissa b).toNat := by
      simpa [BitVec.toNat_pos, BitVec.pos_iff_ne_zero] using hmantissa
    have hcanonical : Canonical (unpackMantissa b).toNat (-1074) :=
      ⟨hpos, by omega, by omega, by omega, .inr rfl⟩
    refine .inr (.inr (.inr (.inl ⟨hfirst, hmantissaLt, hcanonical, ?_⟩)))
    congr 1
    rw [hfirst, hbias]
    rfl
  · have hpos : 0 < (unpackExponent b).toNat := by
      simpa [BitVec.toNat_pos, BitVec.pos_iff_ne_zero] using hfirst
    have hne : (unpackExponent b).toNat ≠ 2047 := fun h => hlast (BitVec.eq_of_toNat_eq h)
    have hcanonical : Canonical (2 ^ 52 + (unpackMantissa b).toNat)
        ((unpackExponent b).toNat - 1075) :=
      ⟨by omega, by omega, by omega, by omega, .inl (by omega)⟩
    refine .inr (.inr (.inr (.inr ⟨hcanonical, ?_⟩)))
    congr 1
    exact toNat_implicit _

theorem canonical_of_unpack {f : Float.Model} {s : Sign} {m : ℕ} {e : ℤ} {h : 0 < m}
    (hf : f.unpack = .finite s m e h) : Canonical m e := by
  rw [Float.Model.unpack] at hf
  rcases unpack_cases f.toBits.toBitVec with ⟨-, -, heq⟩ | ⟨-, -, heq⟩ | ⟨-, -, heq⟩ |
    ⟨-, -, hcanonical, heq⟩ | ⟨hcanonical, heq⟩
  all_goals
    rw [heq] at hf
    cases hf
  · exact hcanonical
  · exact hcanonical

theorem finite_congr {s : Sign} {m m' : ℕ} {e e' : ℤ} {h : 0 < m} {h' : 0 < m'} (hm : m = m')
    (he : e = e') : UnpackedFloat.finite s m e h = .finite s m' e' h' := by
  subst hm he
  rfl

theorem log2_of_canonical {m : ℕ} {e : ℤ} (h : Canonical m e) :
    m.log2 = 52 ∧ 2 ^ 52 ≤ m ∨ m.log2 < 52 ∧ m < 2 ^ 52 ∧ e = -1074 := by
  rcases Nat.lt_or_ge m (2 ^ 52) with hlt | hge
  · exact .inr ⟨(Nat.log2_lt h.pos.ne').mpr hlt, hlt, h.full.resolve_left (by omega)⟩
  · exact .inl ⟨(Nat.log2_eq_iff h.pos.ne').mpr ⟨hge, h.lt⟩, hge⟩

theorem pack_finite {m : ℕ} {e : ℤ} (h : Canonical m e) (s : Sign) :
    UnpackedFloat.pack .binary64 (.finite s m e h.pos) =
      packComponents .binary64 s (if 2 ^ 52 ≤ m then BitVec.ofNat 11 (e + 1075).toNat else 0#11)
        (BitVec.ofNat 52 m) := by
  have hbias : Format.binary64.exponentBias = 1023 := by decide
  have hbits : Format.binary64.mantissaBits = 53 := rfl
  have hexponent : e + Format.binary64.exponentBias +
      Format.binary64.mantissaBitsWithoutImplicit = e + 1075 := by
    rw [hbias]
    exact Int.add_assoc e 1023 52
  have hfits : ¬2 ^ Format.binary64.exponentBits ≤ (e + 1075).toNat + 1 := by
    have hhigh := h.high
    simp only [Nat.reducePow]
    omega
  rw [UnpackedFloat.pack]
  dsimp only
  rw [hexponent, hbits, if_neg hfits]
  rcases log2_of_canonical h with ⟨hlog, hfull⟩ | ⟨hlog, hsmall, -⟩
  · rw [if_pos (by omega), if_pos hfull]
  · rw [if_neg (by omega), if_neg (by omega)]

theorem pack_unpack_bits {b : BitVec Format.binary64.numBits} (h : Format.binary64.Valid b) :
    UnpackedFloat.pack .binary64 (UnpackedFloat.unpack .binary64 b) = b := by
  have hself := packComponents_unpack b
  have hlt : (unpackMantissa b).toNat < 2 ^ 52 := (unpackMantissa b).isLt
  rcases unpack_cases b with ⟨he, hm, heq⟩ | ⟨he, hm, heq⟩ | ⟨he, hm, heq⟩ |
    ⟨he, -, hcanonical, heq⟩ | ⟨hcanonical, heq⟩
  · rw [he, hm] at hself
    rw [heq]
    exact hself
  · rw [heq]
    exact (h.eq_packedNaN he hm).symm
  · rw [he, hm] at hself
    rw [heq]
    exact hself
  · rw [he] at hself
    rw [heq, pack_finite hcanonical, if_neg (by omega)]
    convert hself using 2
    exact BitVec.eq_of_toNat_eq (by simp)
  · rw [heq, pack_finite hcanonical, if_pos (by omega)]
    convert hself using 2
    · exact BitVec.eq_of_toNat_eq (by simp)
    · apply BitVec.eq_of_toNat_eq
      rw [BitVec.toNat_ofNat, Nat.add_mod_left, Nat.mod_eq_of_lt hlt]

/-- A float is the packing of its unpacking. -/
theorem pack_unpack (f : Float.Model) : Float.Model.pack f.unpack = f := by
  obtain ⟨bits, hvalid⟩ := f
  rw [Float.Model.mk.injEq]
  exact congrArg UInt64.ofBitVec (pack_unpack_bits hvalid)

/-- A canonical number is the unpacking of its packing. -/
theorem unpack_pack {m : ℕ} {e : ℤ} (h : Canonical m e) (s : Sign) :
    (Float.Model.pack (.finite s m e h.pos)).unpack = .finite s m e h.pos := by
  have hbias : Format.binary64.exponentBias = 1023 := by decide
  obtain ⟨hpos, hlt, hlow, hhigh, -⟩ := id h
  have hbits : (Float.Model.pack (.finite s m e h.pos)).unpack =
      UnpackedFloat.unpack .binary64 (UnpackedFloat.pack .binary64 (.finite s m e h.pos)) := rfl
  rw [hbits, pack_finite h s]
  rcases log2_of_canonical h with ⟨-, hfull⟩ | ⟨-, hsmall, he⟩
  · have hexponent : (BitVec.ofNat 11 (e + 1075).toNat).toNat = (e + 1075).toNat := by
      rw [BitVec.toNat_ofNat]
      exact Nat.mod_eq_of_lt (by omega)
    have hmantissa : (BitVec.ofNat 52 m).toNat = m - 2 ^ 52 := by
      rw [BitVec.toNat_ofNat]
      omega
    have hlast : BitVec.ofNat 11 (e + 1075).toNat ≠ -1#11 := by
      intro heq
      rw [heq] at hexponent
      have hmax : (-1#11).toNat = 2047 := by decide
      omega
    have hfirst : BitVec.ofNat 11 (e + 1075).toNat ≠ 0#11 := by
      intro heq
      rw [heq] at hexponent
      have hmin : (0#11).toNat = 0 := by decide
      omega
    rw [if_pos hfull]
    simp only [UnpackedFloat.unpack, unpackExponent_packComponents, unpackMantissa_packComponents,
      unpackSign_packComponents, ofBitVec_toBitVec, hlast, hfirst, ↓reduceIte, toNat_implicit,
      hmantissa, hexponent, hbias]
    exact finite_congr (by omega) (by omega)
  · have hmantissa : (BitVec.ofNat 52 m).toNat = m := by
      rw [BitVec.toNat_ofNat]
      exact Nat.mod_eq_of_lt hsmall
    have hzero : BitVec.ofNat 52 m ≠ 0#52 := by
      intro heq
      rw [heq] at hmantissa
      exact hpos.ne hmantissa
    have hlast : 0#11 ≠ -1#11 := by decide
    rw [if_neg (Nat.not_le.mpr hsmall)]
    simp only [UnpackedFloat.unpack, unpackExponent_packComponents, unpackMantissa_packComponents,
      unpackSign_packComponents, ofBitVec_toBitVec, hlast, ↓reduceIte, hzero, ↓reduceDIte,
      hmantissa, hbias, he]
    rfl

/-- The float with a canonical mantissa and exponent. -/
def numberOf (s : Sign) {m : ℕ} {e : ℤ} (h : Canonical m e) : Float :=
  .ofModel (.pack (.finite s m e h.pos))

theorem unpack_numberOf (s : Sign) {m : ℕ} {e : ℤ} (h : Canonical m e) :
    (numberOf s h).toModel.unpack = .finite s m e h.pos := unpack_pack h s

theorem eq_ofModel (x : Float) : x = .ofModel (.pack x.toModel.unpack) := by
  rw [pack_unpack]

theorem eq_numberOf {x : Float} {s : Sign} {m : ℕ} {e : ℤ} {h : 0 < m}
    (hx : x.toModel.unpack = .finite s m e h) : x = numberOf s (canonical_of_unpack hx) := by
  have heq := eq_ofModel x
  rw [hx] at heq
  exact heq

@[simp] theorem neg_numberOf {m : ℕ} {e : ℤ} (h : Canonical m e) :
    -numberOf .positive h = numberOf .negative h := by
  show Float.ofModel (.pack (numberOf .positive h).toModel.unpack.neg) = _
  rw [unpack_numberOf]
  rfl

@[simp] theorem abs_numberOf (s : Sign) {m : ℕ} {e : ℤ} (h : Canonical m e) :
    (numberOf s h).abs = numberOf .positive h := by
  show Float.ofModel (.pack (numberOf s h).toModel.unpack.abs) = _
  rw [unpack_numberOf]
  rfl

theorem compare_eq_iff {f : UnpackedFloat} {m : ℕ} {e : ℤ} {h : 0 < m} :
    f.compare (.finite .positive m e h) = some .eq ↔ f = .finite .positive m e h := by
  rcases f with (_ | _) | _ | (_ | _) | ⟨_ | _, m', e', h'⟩ <;>
    simp [UnpackedFloat.compare, Ordering.then_eq_eq, and_comm]

theorem beq_numberOf {x : Float} {m : ℕ} {e : ℤ} (h : Canonical m e) :
    (x == numberOf .positive h) = true ↔ x = numberOf .positive h := by
  have hbeq : (x == numberOf .positive h) =
      (x.toModel.unpack.compare (numberOf .positive h).toModel.unpack == some .eq) := rfl
  rw [hbeq, unpack_numberOf, beq_iff_eq, compare_eq_iff]
  constructor
  · exact eq_numberOf
  · rintro rfl
    exact unpack_numberOf .positive h

end Py
