import Ebabf.Py.Text
import Mathlib.Data.Nat.Log

/-!
# Python floats as text

Python floats are Lean's binary64 `Float`, whose logical model is exact. What is added here is
the text side: the correctly rounded value of a decimal literal, and `repr`, the shortest
decimal that rounds back to the same float.
-/

namespace Py

open Float.Model (UnpackedFloat)

/-- The float closest to `± digits * 10 ^ exponent`. -/
def floatOfDecimal (negative : Bool) (digits : ℕ) (exponent : ℤ) : Float :=
  let x := Float.ofScientific digits (decide (exponent < 0)) exponent.natAbs
  if negative then -x else x

/-- The `k` with `10 ^ k ≤ p / q < 10 ^ (k + 1)`. -/
def decimalExponent (p q : ℕ) : ℤ :=
  if q ≤ p then Nat.log 10 (p / q) else -(Nat.clog 10 ((q + p - 1) / p) : ℕ)

/-- The two decimals with `n` significant digits around `p / q`, the closer one first. -/
def neighbours (p q : ℕ) (k : ℤ) (n : ℕ) : List (ℕ × ℤ) :=
  let shift := (n : ℤ) - 1 - k
  let num := if 0 ≤ shift then p * 10 ^ shift.toNat else p
  let den := if 0 ≤ shift then q else q * 10 ^ (-shift).toNat
  let low := num / den
  if 2 * (num % den) ≤ den then [(low, -shift), (low + 1, -shift)]
  else [(low + 1, -shift), (low, -shift)]

/-- The shortest decimal that reads back as the positive float `x = p / q`. -/
def shortestDecimal (x : Float) (p q : ℕ) : ℕ × ℤ :=
  let k := decimalExponent p q
  let candidates := (List.range 17).flatMap fun n => neighbours p q k (n + 1)
  (candidates.find? fun c => floatOfDecimal false c.1 c.2 == x).getD (0, 0)

def zeros (n : ℕ) : Str := List.replicate n (CodePoint.ofChar '0')

/-- Lay out `digits * 10 ^ exponent` the way `float.__repr__` does: exponent notation from
`1e16` on and below `1e-4`, a decimal point always. -/
def layoutDecimal (digits : ℕ) (exponent : ℤ) : Str :=
  let all := Nat.toDigits 10 digits
  let ds := (all.reverse.dropWhile (· = '0')).reverse.map CodePoint.ofChar
  let point := (all.length : ℤ) + exponent
  if point ≤ -4 ∨ 16 < point then
    let e := point - 1
    ds.take 1 ++ (if ds.length ≤ 1 then [] else str "." ++ ds.drop 1) ++
      (if e < 0 then str "e-" else str "e+") ++ zeroPadded 2 e.natAbs
  else if point ≤ 0 then str "0." ++ zeros (-point).toNat ++ ds
  else if (ds.length : ℤ) ≤ point then ds ++ zeros (point.toNat - ds.length) ++ str ".0"
  else ds.take point.toNat ++ str "." ++ ds.drop point.toNat

def signText : Float.Model.UnpackedFloat.Sign → Str
  | .positive => []
  | .negative => str "-"

/-- `repr(x)`, which is also `str(x)`. -/
def floatRepr (x : Float) : Str :=
  match x.toModel.unpack with
  | .notANumber => str "nan"
  | .infinity s => signText s ++ str "inf"
  | .zero s => signText s ++ str "0.0"
  | .finite s m e _ =>
    let p := if 0 ≤ e then m * 2 ^ e.toNat else m
    let q := if 0 ≤ e then 1 else 2 ^ (-e).toNat
    let d := shortestDecimal x.abs p q
    signText s ++ layoutDecimal d.1 d.2

/-- `float(n)`, for integers a float can hold. -/
def floatOfInt (n : ℤ) : UnpackedFloat := .ofInt .binary64 n

/-- `p / q` to the nearest integer, ties to the even one. -/
def roundHalfEven (p q : ℕ) : ℕ :=
  if 2 * (p % q) < q ∨ 2 * (p % q) = q ∧ p / q % 2 = 0 then p / q else p / q + 1

/-- `f"{x:.0f}"`. -/
def fixedZero : UnpackedFloat → Str
  | .notANumber => str "nan"
  | .infinity s => signText s ++ str "inf"
  | .zero s => signText s ++ str "0"
  | .finite s m e _ =>
    signText s ++ decimal (if 0 ≤ e then m * 2 ^ e.toNat else roundHalfEven m (2 ^ (-e).toNat))

/-- `f"{x:.1f}"`. -/
def fixedTenths : UnpackedFloat → Str
  | .notANumber => str "nan"
  | .infinity s => signText s ++ str "inf"
  | .zero s => signText s ++ str "0.0"
  | .finite s m e _ =>
    let tenths := if 0 ≤ e then 10 * m * 2 ^ e.toNat else roundHalfEven (10 * m) (2 ^ (-e).toNat)
    signText s ++ decimal (tenths / 10) ++ str "." ++ decimal (tenths % 10)

/-- `f"{x:.2f}"`. -/
def fixedHundredths : UnpackedFloat → Str
  | .notANumber => str "nan"
  | .infinity s => signText s ++ str "inf"
  | .zero s => signText s ++ str "0.00"
  | .finite s m e _ =>
    let hundredths :=
      if 0 ≤ e then 100 * m * 2 ^ e.toNat else roundHalfEven (100 * m) (2 ^ (-e).toNat)
    signText s ++ decimal (hundredths / 100) ++ str "." ++ zeroPadded 2 (hundredths % 100)

/-- `repr` keeps to the code points from `+` to `n`, without the backslash among them. -/
def IsReprChar (c : CodePoint) : Prop := 0x2B ≤ c.val ∧ c.val ≤ 0x6E ∧ c.val ≠ 0x5C

instance (c : CodePoint) : Decidable (IsReprChar c) := inferInstanceAs (Decidable (_ ∧ _))

def ReprText (s : Str) : Prop := ∀ c ∈ s, IsReprChar c

instance (s : Str) : Decidable (ReprText s) := List.decidableBAll _ s

theorem reprText_append {s t : Str} : ReprText (s ++ t) ↔ ReprText s ∧ ReprText t :=
  List.forall_mem_append

theorem isReprChar_of_isDigit {c : Char} (h : c.isDigit = true) :
    IsReprChar (CodePoint.ofChar c) := by
  rw [Char.isDigit, Bool.and_eq_true, decide_eq_true_eq, decide_eq_true_eq] at h
  have hval : 0x30 ≤ (CodePoint.ofChar c).val ∧ (CodePoint.ofChar c).val ≤ 0x39 := h
  unfold IsReprChar
  omega

theorem reprText_digits (n : ℕ) : ReprText ((Nat.toDigits 10 n).map CodePoint.ofChar) := by
  intro c hc
  obtain ⟨d, hd, rfl⟩ := List.mem_map.mp hc
  exact isReprChar_of_isDigit (Nat.isDigit_of_mem_toDigits (by decide) (by decide) hd)

theorem reprText_zeros (n : ℕ) : ReprText (zeros n) := by
  intro c hc
  rw [List.eq_of_mem_replicate hc]
  decide

theorem reprText_zeroPadded (width n : ℕ) : ReprText (zeroPadded width n) :=
  reprText_append.mpr ⟨reprText_zeros _, reprText_digits n⟩

theorem reprText_signText (s : UnpackedFloat.Sign) : ReprText (signText s) := by
  cases s
  · decide
  · decide

theorem reprText_layoutDecimal (digits : ℕ) (exponent : ℤ) :
    ReprText (layoutDecimal digits exponent) := by
  have hdigits : ReprText ((((Nat.toDigits 10 digits).reverse.dropWhile (· = '0')).reverse).map
      CodePoint.ofChar) := by
    intro c hc
    obtain ⟨d, hd, rfl⟩ := List.mem_map.mp hc
    have hmem := (List.dropWhile_suffix _).subset (List.mem_reverse.mp hd)
    exact reprText_digits digits _ (List.mem_map_of_mem (List.mem_reverse.mp hmem))
  have hnil : ReprText [] := by decide
  have hpoint : ReprText (str ".") := by decide
  have hexponent : ReprText (str "e-") ∧ ReprText (str "e+") := by decide
  have hzero : ReprText (str "0.") ∧ ReprText (str ".0") := by decide
  unfold layoutDecimal
  dsimp only
  generalize ((((Nat.toDigits 10 digits).reverse.dropWhile (· = '0')).reverse).map
      CodePoint.ofChar) = ds at hdigits
  have htake : ∀ n, ReprText (ds.take n) := fun n c hc => hdigits c (List.mem_of_mem_take hc)
  have hdrop : ∀ n, ReprText (ds.drop n) := fun n c hc => hdigits c (List.mem_of_mem_drop hc)
  split_ifs
  all_goals simp only [reprText_append, htake, hdrop, hdigits, hpoint, hexponent, hzero, hnil,
    reprText_zeros, reprText_zeroPadded, and_self]

theorem reprText_floatRepr (x : Float) : ReprText (floatRepr x) := by
  have hspecial : ReprText (str "nan") ∧ ReprText (str "inf") ∧ ReprText (str "0.0") := by decide
  unfold floatRepr
  split
  · exact hspecial.1
  · exact reprText_append.mpr ⟨reprText_signText _, hspecial.2.1⟩
  · exact reprText_append.mpr ⟨reprText_signText _, hspecial.2.2⟩
  · exact reprText_append.mpr ⟨reprText_signText _, reprText_layoutDecimal _ _⟩

theorem layoutDecimal_ne_nil (digits : ℕ) (exponent : ℤ) : layoutDecimal digits exponent ≠ [] := by
  unfold layoutDecimal
  dsimp only
  split_ifs
  all_goals simp [str]

theorem floatRepr_ne_nil (x : Float) : floatRepr x ≠ [] := by
  unfold floatRepr
  split
  all_goals simp [str, layoutDecimal_ne_nil]

end Py
