import Ebabf.Py.Float
import Mathlib.Algebra.BigOperators.Group.List.Basic
import Mathlib.Data.Rat.Defs
import Mathlib.Algebra.Order.Ring.Rat

/-!
# Exact arithmetic on floats

What the standard library computes with the exact values of floats and rounds once, at the end:
the quotient of two integers, `statistics.pvariance` and `round`.
-/

namespace Py

open Float.Model (UnpackedFloat)

/-- `x.as_integer_ratio()`; infinities and NaN have none. -/
def ratioOfUnpacked : UnpackedFloat → Option ℚ
  | .zero _ => some 0
  | .finite .positive m e _ => some (m * 2 ^ e)
  | .finite .negative m e _ => some (-(m * 2 ^ e))
  | .infinity _ | .notANumber => none

def exactRatio (x : Float) : Option ℚ := ratioOfUnpacked x.toModel.unpack

/-- The float closest to a fraction, an infinity when it is too large for one. -/
def floatOfRatio (q : ℚ) : Float :=
  if hq : q.num.natAbs = 0 then 0.0
  else
    .ofModel (.pack (.div .binary64
      (.finite (if q.num < 0 then .negative else .positive) q.num.natAbs 0 (Nat.pos_of_ne_zero hq))
      (.finite .positive q.den 0 q.den_pos)))

def overflowError : ExcType := .other (str "OverflowError")

def statisticsError : ExcType := .other (str "StatisticsError")

/-- `float(Fraction(q))` -/
def floatOfFraction (q : ℚ) : Except Exc Float :=
  let x := floatOfRatio q
  if x.isInf then .error ⟨overflowError, str "integer division result too large for a float"⟩
  else .ok x

/-- The sum of the squared deviations from the mean. -/
def sumOfSquares (qs : List ℚ) : ℚ :=
  (qs.length * (qs.map fun q => q * q).sum - qs.sum * qs.sum) / qs.length

/-- `statistics.pvariance(data)`. One infinity or NaN makes the result one. -/
def pvariance (data : List Float) : Except Exc Float :=
  if data = [] then
    .error ⟨statisticsError, str "pvariance requires at least one data point"⟩
  else
    match data.mapM exactRatio with
    | some qs => floatOfFraction (sumOfSquares qs / qs.length)
    | none =>
      .ok ((data.filter fun x => !x.isFinite).foldl (· + ·) 0.0 / Float.ofNat data.length)

/-- `round(q, 1)` of an exact value. -/
def roundTenths (q : ℚ) : ℚ :=
  let n : ℤ := roundHalfEven (10 * q.num.natAbs) q.den
  (if q.num < 0 then -n else n : ℤ) / 10

/-- `round(q, 2)` of an exact value. -/
def roundHundredths (q : ℚ) : ℚ :=
  let n : ℤ := roundHalfEven (100 * q.num.natAbs) q.den
  (if q.num < 0 then -n else n : ℤ) / 100

/-- `round(x, 3)` -/
def roundThousandths (x : Float) : Float :=
  match x.toModel.unpack with
  | .finite s m e _ =>
    let p := if 0 ≤ e then m * 2 ^ e.toNat else m
    let q := if 0 ≤ e then 1 else 2 ^ (-e).toNat
    floatOfDecimal (s == .negative) (roundHalfEven (p * 1000) q) (-3)
  | _ => x

end Py
