import Ebabf.Py.FloatRepr
import Ebabf.Py.JsonRoundTrip
import Mathlib.Data.List.TakeWhile

/-!
# Floats in JSON

`repr` lays a decimal out in one of four ways. The decoder reads each of them as a number of the
same value, so a finite float is read back as itself.
-/

namespace Py.Json

open Float.Model (UnpackedFloat)
open Float.Model.UnpackedFloat (Sign)

/-- The integer part of a number, whatever follows that is no digit. -/
structure Whole (whole : Str) : Prop where
  head : ∃ c t, whole = c :: t ∧ isDigit c
  scanned : ∀ r, (∀ c ∈ r.head?, isDigit c = false) → scanInteger (whole ++ r) = some (whole, r)

theorem whole_zero : Whole (Py.str "0") where
  head := ⟨ch '0', [], rfl, by decide⟩
  scanned := fun r _ => rfl

/-- Digits that do not start with a zero. -/
structure Significant (ds : Str) : Prop where
  ne_nil : ds ≠ []
  digits : ∀ c ∈ ds, isDigit c
  head : ∀ c ∈ ds.head?, c ≠ ch '0'

theorem Significant.whole {ds : Str} (h : Significant ds) : Whole ds where
  head := by
    obtain ⟨c, t, rfl⟩ := List.exists_cons_of_ne_nil h.ne_nil
    exact ⟨c, t, rfl, h.digits c List.mem_cons_self⟩
  scanned := fun r hr => scanInteger_digits h.ne_nil h.digits h.head hr

theorem Significant.append {ds es : Str} (h : Significant ds) (hes : ∀ c ∈ es, isDigit c) :
    Significant (ds ++ es) where
  ne_nil := by simp [h.ne_nil]
  digits := List.forall_mem_append.mpr ⟨h.digits, hes⟩
  head := by
    rw [List.head?_append_of_ne_nil _ h.ne_nil]
    exact h.head

theorem Significant.take {ds : Str} (h : Significant ds) {n : ℕ} (hn : 0 < n) :
    Significant (ds.take n) := by
  obtain ⟨c, t, rfl⟩ := List.exists_cons_of_ne_nil h.ne_nil
  obtain ⟨m, rfl⟩ := Nat.exists_eq_succ_of_ne_zero hn.ne'
  rw [List.take_succ_cons]
  constructor
  · exact List.cons_ne_nil _ _
  · intro d hd
    apply h.digits
    rcases List.mem_cons.mp hd with rfl | hd
    · exact List.mem_cons_self
    · exact List.mem_cons_of_mem _ (List.mem_of_mem_take hd)
  · exact h.head

theorem scanFraction_digits {fraction r : Str} (hne : fraction ≠ [])
    (hds : ∀ c ∈ fraction, isDigit c) (hr : ∀ c ∈ r.head?, isDigit c = false) :
    scanFraction (ch '.' :: fraction ++ r) = (fraction, r) := by
  have hspan := takeWhile_digits hds hr
  obtain ⟨d, t, rfl⟩ := List.exists_cons_of_ne_nil hne
  have hd : isDigit d := hds d List.mem_cons_self
  simp only [List.cons_append] at hspan ⊢
  simp only [scanFraction, hd, and_self, ↓reduceIte, hspan.1, hspan.2]

theorem scanFraction_none {c : CodePoint} (hc : c ≠ ch '.') (r : Str) :
    scanFraction (c :: r) = ([], c :: r) := by
  unfold scanFraction
  split
  · rename_i d e t heq
    cases heq
    rw [if_neg fun h => hc h.1]
  · rfl

theorem scanExponent_digits {ds r : Str} (hne : ds ≠ []) (hds : ∀ c ∈ ds, isDigit c)
    (hr : ∀ c ∈ r.head?, isDigit c = false) (e : ℤ) (hvalue : digitsValue ds = e.natAbs) :
    scanExponent ((if e < 0 then Py.str "e-" else Py.str "e+") ++ ds ++ r) = (some e, r) := by
  have hspan := takeWhile_digits hds hr
  split_ifs with hneg
  · have htext : Py.str "e-" ++ ds ++ r = ch 'e' :: ch '-' :: (ds ++ r) := rfl
    have hsign : scanSign (ch '-' :: (ds ++ r)) = (true, ds ++ r) := rfl
    rw [htext, scanExponent, hsign]
    simp only [hspan.1, hspan.2, hne, ne_eq, not_false_eq_true, true_or, and_self, ↓reduceIte,
      hvalue]
    congr 2
    omega
  · have htext : Py.str "e+" ++ ds ++ r = ch 'e' :: ch '+' :: (ds ++ r) := rfl
    have hsign : scanSign (ch '+' :: (ds ++ r)) = (false, ds ++ r) := rfl
    rw [htext, scanExponent, hsign]
    simp only [hspan.1, hspan.2, hne, ne_eq, not_false_eq_true, true_or, and_self, ↓reduceIte,
      hvalue, Bool.false_eq_true]
    congr 2
    omega

theorem scanNumber_float (s : Sign) {whole rest rest' r fraction : Str} {exponent : Option ℤ}
    (hwhole : Whole whole) (hrest : ∀ c ∈ rest.head?, isDigit c = false)
    (hfraction : scanFraction rest = (fraction, rest'))
    (hexponent : scanExponent rest' = (exponent, r))
    (hfloat : ¬(fraction = [] ∧ exponent = none)) :
    scanNumber (signText s ++ (whole ++ rest)) = .ok (.float (floatOfDecimal (s == .negative)
      (digitsValue (whole ++ fraction)) (exponent.getD 0 - fraction.length)), r) := by
  have hinteger := hwhole.scanned rest hrest
  obtain ⟨c, t, hhead, hc⟩ := hwhole.head
  cases s with
  | negative =>
    have htext : signText .negative ++ (whole ++ rest) = ch '-' :: (whole ++ rest) := rfl
    rw [htext, scanNumber]
    simp only [List.head?_cons, beq_self_eq_true, ↓reduceIte, List.drop_succ_cons, List.drop_zero,
      hinteger, hfraction, hexponent, if_neg hfloat]
  | positive =>
    have htext : signText .positive ++ (whole ++ rest) = whole ++ rest := rfl
    have hsign : ((whole ++ rest).head? == some (ch '-')) = false := by
      rw [hhead]
      simp [ne_ch_of_isDigit hc (show isDigit (ch '-') = false by decide)]
    rw [htext, scanNumber]
    simp only [hsign, Bool.false_eq_true, ↓reduceIte, hinteger, hfraction, hexponent, if_neg hfloat]
    rfl

/-- A text that starts with a digit and reads as `d * 10 ^ k`, whatever sign stands in front of it
and whatever delimiter follows. -/
structure DecimalReads (text : Str) (d : ℕ) (k : ℤ) : Prop where
  head : ∃ c t, text = c :: t ∧ isDigit c
  scanned : ∀ s r, Delimits r → scanNumber (signText s ++ (text ++ r)) =
    .ok (.float (floatOfDecimal (s == .negative) d k), r)

theorem Delimits.notDigit {r : Str} (hr : Delimits r) : ∀ c ∈ r.head?, isDigit c = false :=
  fun c hc => (hr c hc).1

theorem decimalReads_point {whole fraction : Str} (hwhole : Whole whole) (hne : fraction ≠ [])
    (hds : ∀ c ∈ fraction, isDigit c) : DecimalReads (whole ++ Py.str "." ++ fraction)
      (digitsValue (whole ++ fraction)) (-fraction.length) where
  head := by
    obtain ⟨c, t, rfl, hc⟩ := hwhole.head
    exact ⟨c, _, rfl, hc⟩
  scanned := by
    intro s r hr
    have htext : whole ++ Py.str "." ++ fraction ++ r = whole ++ (ch '.' :: fraction ++ r) := by
      simp [Py.str]
    have hpoint : ∀ c ∈ (ch '.' :: fraction ++ r).head?, isDigit c = false := by
      intro c hc
      obtain rfl : ch '.' = c := by simpa using hc
      decide
    have hscan := scanNumber_float s hwhole hpoint (scanFraction_digits hne hds hr.notDigit)
      (scanExponent_delimited hr) (fun h => hne h.1)
    rw [htext, hscan]
    simp

theorem decimalReads_exponent {ds : Str} (hds : Significant ds) (e : ℤ) :
    DecimalReads (ds.take 1 ++ (if ds.length ≤ 1 then [] else Py.str "." ++ ds.drop 1) ++
      (if e < 0 then Py.str "e-" else Py.str "e+") ++ zeroPadded 2 e.natAbs)
      (digitsValue ds) (e + 1 - ds.length) := by
  obtain ⟨c, t, rfl⟩ := List.exists_cons_of_ne_nil hds.ne_nil
  have hwhole : Whole [c] := (hds.take one_pos).whole
  have hne : zeroPadded 2 e.natAbs ≠ [] := by
    unfold zeroPadded
    simp [decimal_ne_nil]
  set tail := (if e < 0 then Py.str "e-" else Py.str "e+") ++ zeroPadded 2 e.natAbs with htail
  have hexponent : ∀ r, Delimits r → scanExponent (tail ++ r) = (some e, r) := by
    intro r hr
    exact scanExponent_digits hne (fun d hd => isDigit_zeroPadded hd) hr.notDigit e
      (digitsValue_zeroPadded 2 e.natAbs)
  have hletter : ∃ u, tail = ch 'e' :: u := by
    rw [htail]
    split_ifs
    · exact ⟨_, rfl⟩
    · exact ⟨_, rfl⟩
  obtain ⟨u, hu⟩ := hletter
  have hnotDigit : ∀ r, ∀ d ∈ (tail ++ r).head?, isDigit d = false := by
    intro r d hd
    rw [hu] at hd
    obtain rfl : ch 'e' = d := by simpa using hd
    decide
  rw [List.append_assoc _ _ (zeroPadded 2 e.natAbs), ← htail]
  constructor
  · exact ⟨c, _, rfl, hds.digits c List.mem_cons_self⟩
  · intro s r hr
    rcases List.eq_nil_or_concat t with rfl | ⟨_, _, ht⟩
    · have hfraction : scanFraction (tail ++ r) = ([], tail ++ r) := by
        rw [hu]
        exact scanFraction_none (by decide) _
      have hscan := scanNumber_float s hwhole (hnotDigit r) hfraction (hexponent r hr)
        (by simp)
      simpa using hscan
    · have hfraction : t ≠ [] := by
        rw [ht]
        simp
      have hdigits : ∀ d ∈ t, isDigit d := fun d hd => hds.digits d (List.mem_cons_of_mem c hd)
      have hpoint : ∀ d ∈ (ch '.' :: t ++ (tail ++ r)).head?, isDigit d = false := by
        intro d hd
        obtain rfl : ch '.' = d := by simpa using hd
        decide
      have hscan := scanNumber_float s hwhole hpoint
        (scanFraction_digits hfraction hdigits (hnotDigit r)) (hexponent r hr) (by simp)
      have hlong : ¬(c :: t).length ≤ 1 := by
        have := List.length_pos_of_ne_nil hfraction
        simp only [List.length_cons]
        omega
      have htext : List.take 1 (c :: t) ++ (Py.str "." ++ List.drop 1 (c :: t)) ++ tail ++ r =
          [c] ++ (ch '.' :: t ++ (tail ++ r)) := by
        simp [Py.str]
      rw [if_neg hlong, htext, hscan]
      congr 4
      simp only [Option.getD_some, List.length_cons]
      push_cast
      ring

theorem exists_significant {d : ℕ} (hd : 0 < d) : ∃ ds z, Significant ds ∧
    decimal d = ds ++ zeros z ∧
      (((Nat.toDigits 10 d).reverse.dropWhile (· = '0')).reverse).map CodePoint.ofChar = ds := by
  set l := Nat.toDigits 10 d with hl
  have hsplit : l = (l.reverse.dropWhile (· = '0')).reverse ++
      (l.reverse.takeWhile (· = '0')).reverse := by
    rw [← List.reverse_append, List.takeWhile_append_dropWhile, List.reverse_reverse]
  have hzeros : (l.reverse.takeWhile (· = '0')).reverse =
      List.replicate (l.reverse.takeWhile (· = '0')).length '0' := by
    apply List.eq_replicate_iff.mpr
    refine ⟨List.length_reverse, fun c hc => ?_⟩
    simpa using List.mem_takeWhile_imp (List.mem_reverse.mp hc)
  have htext : decimal d = (l.reverse.dropWhile (· = '0')).reverse.map CodePoint.ofChar ++
      zeros (l.reverse.takeWhile (· = '0')).length := by
    have hmap := congrArg (List.map CodePoint.ofChar) hsplit
    rw [List.map_append, hzeros, List.map_replicate] at hmap
    exact hmap
  generalize hz : (l.reverse.takeWhile (· = '0')).length = z at htext
  generalize hds : (l.reverse.dropWhile (· = '0')).reverse.map CodePoint.ofChar = ds at htext
  have hne : ds ≠ [] := by
    intro hnil
    have hvalue := digitsValue_decimal d
    rw [htext, hnil, List.nil_append, digitsValue_zeros] at hvalue
    omega
  refine ⟨ds, z, ⟨hne, ?_, ?_⟩, htext, rfl⟩
  · intro c hc
    exact isDigit_decimal (n := d) (by rw [htext]; exact List.mem_append_left _ hc)
  · intro c hc
    apply decimal_head hd c
    rw [htext, List.head?_append_of_ne_nil _ hne]
    exact hc

theorem digitsValue_significant {d z : ℕ} {ds : Str} (h : decimal d = ds ++ zeros z) :
    d = digitsValue ds * 10 ^ z := by
  have hvalue := digitsValue_decimal d
  rw [h, digitsValue_append, digitsValue_zeros, zeros, List.length_replicate,
    Nat.add_zero] at hvalue
  exact hvalue.symm

/-- `0.000ddd` -/
theorem decimalReads_small {ds : Str} (hds : Significant ds) (n : ℕ) :
    DecimalReads (Py.str "0." ++ zeros n ++ ds) (digitsValue ds) (-(n + ds.length)) := by
  have hreads : DecimalReads (Py.str "0" ++ Py.str "." ++ (zeros n ++ ds))
      (digitsValue (Py.str "0" ++ (zeros n ++ ds))) (-(zeros n ++ ds).length) :=
    decimalReads_point whole_zero (by simp [hds.ne_nil])
      (List.forall_mem_append.mpr ⟨fun c hc => isDigit_zeros hc, hds.digits⟩)
  have hdigits : digitsValue (Py.str "0" ++ (zeros n ++ ds)) = digitsValue ds := by
    have hone : Py.str "0" ++ (zeros n ++ ds) = zeros (n + 1) ++ ds := rfl
    rw [hone, digitsValue_append, digitsValue_zeros, Nat.zero_mul, Nat.zero_add]
  have hlength : ((zeros n ++ ds).length : ℤ) = n + ds.length := by
    rw [List.length_append, zeros, List.length_replicate, Nat.cast_add]
  rw [hdigits, hlength] at hreads
  exact hreads

/-- `ddd000.0` -/
theorem decimalReads_whole {ds : Str} (hds : Significant ds) (n : ℕ) :
    DecimalReads (ds ++ zeros n ++ Py.str ".0") (digitsValue ds * 10 ^ n * 10) (-1) := by
  have hreads : DecimalReads (ds ++ zeros n ++ Py.str "." ++ Py.str "0")
      (digitsValue (ds ++ zeros n ++ Py.str "0")) (-(Py.str "0").length) :=
    decimalReads_point (hds.append fun c hc => isDigit_zeros hc).whole (by decide)
      fun c hc => isDigit_zeros (n := 1) hc
  have hdigits : digitsValue (ds ++ zeros n ++ Py.str "0") = digitsValue ds * 10 ^ n * 10 := by
    have hone : ds ++ zeros n ++ Py.str "0" = ds ++ zeros n ++ zeros 1 := rfl
    rw [hone, digitsValue_append, digitsValue_append, digitsValue_zeros, digitsValue_zeros, zeros,
      zeros, List.length_replicate, List.length_replicate, Nat.add_zero, Nat.add_zero, pow_one]
  have hlength : (-(Py.str "0").length : ℤ) = -1 := rfl
  have hshape : ds ++ zeros n ++ Py.str ".0" = ds ++ zeros n ++ Py.str "." ++ Py.str "0" := by
    rw [List.append_assoc _ (Py.str "."), show Py.str "." ++ Py.str "0" = Py.str ".0" from rfl]
  rw [hdigits, hlength] at hreads
  rw [hshape]
  exact hreads

/-- `dd.ddd` -/
theorem decimalReads_split {ds : Str} (hds : Significant ds) {n : ℕ} (hpos : 0 < n)
    (hlt : n < ds.length) : DecimalReads (ds.take n ++ Py.str "." ++ ds.drop n) (digitsValue ds)
      (n - ds.length) := by
  have hreads : DecimalReads (ds.take n ++ Py.str "." ++ ds.drop n)
      (digitsValue (ds.take n ++ ds.drop n)) (-(ds.drop n).length) :=
    decimalReads_point (hds.take hpos).whole
      (List.ne_nil_of_length_pos (by rw [List.length_drop]; omega))
      fun c hc => hds.digits c (List.mem_of_mem_drop hc)
  have hlength : (-(ds.drop n).length : ℤ) = n - ds.length := by
    rw [List.length_drop]
    omega
  rw [List.take_append_drop, hlength] at hreads
  exact hreads

/-- However it is laid out, a decimal reads as one of the same value. -/
theorem decimalReads_layout {d : ℕ} (hd : 0 < d) (k : ℤ) : ∃ d' k',
    DecimalReads (layoutDecimal d k) d' k' ∧ (d' * 10 ^ k' : ℚ) = d * 10 ^ k ∧
      (k' = -1 ∨ ∃ z : ℕ, k' = k + z ∧ 10 ^ z ≤ d) := by
  obtain ⟨ds, z, hds, htext, hlayout⟩ := exists_significant hd
  have hlength : ((Nat.toDigits 10 d).length : ℤ) = ds.length + z := by
    have := congrArg List.length htext
    simp only [decimal, List.length_map, List.length_append, zeros, List.length_replicate] at this
    exact_mod_cast this
  have hvalue := digitsValue_significant htext
  have hbound : 10 ^ z ≤ d := by
    have hpos : 0 < digitsValue ds := by
      rcases Nat.eq_zero_or_pos (digitsValue ds) with hzero | hpos
      · rw [hvalue, hzero, Nat.zero_mul] at hd
        exact absurd hd (lt_irrefl 0)
      · exact hpos
    rw [hvalue]
    exact Nat.le_mul_of_pos_left _ hpos
  have hsame : (digitsValue ds * 10 ^ (k + z) : ℚ) = d * 10 ^ k := by
    rw [hvalue, zpow_add₀ (by norm_num), zpow_natCast]
    push_cast
    ring
  unfold layoutDecimal
  dsimp only
  rw [hlayout, hlength]
  by_cases hexponent : (ds.length + z + k : ℤ) ≤ -4 ∨ 16 < (ds.length + z + k : ℤ)
  · rw [if_pos hexponent]
    refine ⟨_, _, decimalReads_exponent hds _, ?_, .inr ⟨z, ?_, hbound⟩⟩
    · rw [← hsame]
      congr 2
      ring
    · ring
  rw [if_neg hexponent]
  by_cases hzero : (ds.length + z + k : ℤ) ≤ 0
  · rw [if_pos hzero]
    have hreads := decimalReads_small hds (-(ds.length + z + k : ℤ)).toNat
    rw [show -(((-(ds.length + z + k : ℤ)).toNat : ℤ) + ds.length) = k + z by omega] at hreads
    exact ⟨_, _, hreads, hsame, .inr ⟨z, rfl, hbound⟩⟩
  rw [if_neg hzero]
  by_cases hwhole : (ds.length : ℤ) ≤ ds.length + z + k
  · rw [if_pos hwhole]
    refine ⟨_, _, decimalReads_whole hds _, ?_, .inl rfl⟩
    set n := (ds.length + z + k : ℤ).toNat - ds.length with hn
    have hn' : (n : ℤ) = k + z := by omega
    rw [← hsame, ← hn', zpow_natCast]
    push_cast
    rw [zpow_neg_one]
    field_simp
  · rw [if_neg hwhole]
    have hreads := @decimalReads_split ds hds (ds.length + z + k : ℤ).toNat (by omega) (by omega)
    rw [show (((ds.length + z + k : ℤ).toNat : ℤ) - ds.length) = k + z by omega] at hreads
    exact ⟨_, _, hreads, hsame, .inr ⟨z, rfl, hbound⟩⟩

theorem DecimalReads.atomReads {text : Str} {d : ℕ} {k : ℤ} (h : DecimalReads text d k) (s : Sign)
    {x : Float} (hx : floatOfDecimal (s == .negative) d k = x) :
    AtomReads (signText s ++ text) (.float x) := by
  have hhead : NumberHead (signText s ++ text) := by
    obtain ⟨c, t, rfl, hc⟩ := h.head
    cases s with
    | positive => exact ⟨c, t, rfl, .inl hc⟩
    | negative => exact ⟨_, _, rfl, .inr ⟨rfl, c, t, rfl, hc⟩⟩
  constructor
  · exact isPlainHead_number hhead
  · intro r hr
    rw [scanAtom_number (numberHead_append hhead r), List.append_assoc, h.scanned s r hr, hx]

theorem floatText_of_isFinite {x : Float} (hx : x.isFinite = true) : floatText x = floatRepr x := by
  have hstatus : x.isNaN = false ∧ x.isInf = false := by
    change x.toModel.unpack.isFinite = true at hx
    change x.toModel.unpack.isNaN = false ∧ x.toModel.unpack.isInf = false
    cases hunpack : x.toModel.unpack <;> rw [hunpack] at hx <;> first | exact ⟨rfl, rfl⟩ | cases hx
  unfold floatText
  rw [hstatus.1, hstatus.2]
  rfl

theorem atomReads_zero {x : Float} {s : Sign} (hx : x.toModel.unpack = .zero s) :
    AtomReads (floatRepr x) (.float x) := by
  have hreads : DecimalReads (Py.str "0" ++ Py.str "." ++ Py.str "0")
      (digitsValue (Py.str "0" ++ Py.str "0")) (-(Py.str "0").length) :=
    decimalReads_point whole_zero (by decide) fun c hc => isDigit_zeros (n := 1) hc
  have htext : floatRepr x = signText s ++ (Py.str "0" ++ Py.str "." ++ Py.str "0") := by
    unfold floatRepr
    rw [hx]
    rfl
  have heq := eq_ofModel x
  rw [hx] at heq
  rw [htext]
  apply hreads.atomReads s
  rw [heq]
  cases s <;> rfl

theorem atomReads_numberOf (s : Sign) {m : ℕ} {e : ℤ} (h : Canonical m e) :
    AtomReads (floatRepr (numberOf s h)) (.float (numberOf s h)) := by
  obtain ⟨d, k, hshortest, hd, hlarge, hlow, hhigh, hread⟩ := shortestDecimal_spec h
  obtain ⟨d', k', hreads, hvalue, hk'⟩ := decimalReads_layout hd k
  have hbounds : -2048 ≤ k' ∧ k' ≤ 2048 := by
    rcases hk' with rfl | ⟨z, rfl, hz⟩
    · omega
    · have hz' : z ≤ 17 := (Nat.pow_le_pow_iff_right (by norm_num)).mp (hz.trans hlarge)
      omega
  have hsame : floatOfDecimal false d' k' = numberOf .positive h := by
    rw [floatOfDecimal_congr hd ⟨by omega, by omega⟩ hbounds hvalue, hread]
  have htext : floatRepr (numberOf s h) = signText s ++ layoutDecimal d k := by
    unfold floatRepr
    rw [unpack_numberOf, abs_numberOf]
    have hlayout := congrArg (fun c : ℕ × ℤ => signText s ++ layoutDecimal c.1 c.2) hshortest
    exact hlayout
  rw [htext]
  apply hreads.atomReads s
  cases s with
  | positive => exact hsame
  | negative =>
    have hneg : floatOfDecimal true d' k' = -floatOfDecimal false d' k' := rfl
    exact hneg.trans (by rw [hsame, neg_numberOf])

/-- The decoder reads every finite float back. -/
theorem atomReads_float {x : Float} (hx : x.isFinite = true) :
    AtomReads (floatText x) (.float x) := by
  rw [floatText_of_isFinite hx]
  change x.toModel.unpack.isFinite = true at hx
  cases hunpack : x.toModel.unpack with
  | notANumber =>
    rw [hunpack] at hx
    cases hx
  | infinity s =>
    rw [hunpack] at hx
    cases hx
  | zero s => exact atomReads_zero hunpack
  | finite s m e h =>
    rw [eq_numberOf hunpack]
    exact atomReads_numberOf s _

end Py.Json
