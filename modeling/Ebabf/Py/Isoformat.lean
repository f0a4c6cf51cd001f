import Ebabf.Py.Instant
import Ebabf.Py.JsonRoundTrip

/-!
# Datetimes as text

`datetime.fromisoformat` over the extended formats, which are what `isoformat` writes. It reads
back every datetime, and the texts of datetimes in UTC are ordered as the datetimes are.
-/

namespace Py

open Json (isDigit digitsValue takeWhile_digits isDigit_zeroPadded digitsValue_zeroPadded
  digitsValue_cons)

/-- The value of the next `n` digits, and the rest. -/
def scanDigits (n : ℕ) (s : Str) : Option (ℕ × Str) :=
  if (s.take n).length = n ∧ (s.take n).all isDigit then some (digitsValue (s.take n), s.drop n)
  else none

/-- What follows one expected character. -/
def scanChar (c : Char) : Str → Option Str
  | [] => none
  | d :: rest => if d = CodePoint.ofChar c then some rest else none

/-- The digits of a fraction of a second as microseconds: padded or cut to six. -/
def microseconds (ds : Str) : ℕ :=
  digitsValue ((ds ++ List.replicate 6 (CodePoint.ofChar '0')).take 6)

/-- `.ffffff` after the seconds, if any. -/
def scanFraction (s : Str) : Option (ℕ × Str) :=
  match s with
  | [] => some (0, [])
  | c :: rest =>
    if c = CodePoint.ofChar '.' ∨ c = CodePoint.ofChar ',' then
      if rest.takeWhile isDigit = [] then none
      else some (microseconds (rest.takeWhile isDigit), rest.dropWhile isDigit)
    else some (0, s)

structure ClockTime where
  hour : ℕ
  minute : ℕ
  second : ℕ
  microsecond : ℕ

/-- `HH[:MM[:SS[.f]]]`, and the rest. -/
def scanClockTime (s : Str) : Option (ClockTime × Str) := do
  let (hour, s) ← scanDigits 2 s
  match scanChar ':' s with
  | none => return (⟨hour, 0, 0, 0⟩, s)
  | some s =>
    let (minute, s) ← scanDigits 2 s
    match scanChar ':' s with
    | none => return (⟨hour, minute, 0, 0⟩, s)
    | some s =>
      let (second, s) ← scanDigits 2 s
      let (microsecond, s) ← scanFraction s
      return (⟨hour, minute, second, microsecond⟩, s)

/-- The length of a clock time in microseconds. -/
def ClockTime.total (t : ClockTime) : ℕ :=
  ((t.hour * 60 + t.minute) * 60 + t.second) * 1000000 + t.microsecond

/-- An offset from UTC up to the end of the text, absent for a naive time. -/
def scanOffset (s : Str) : Option (Option ℤ) :=
  match s with
  | [] => some none
  | c :: rest =>
    if c = CodePoint.ofChar 'Z' ∧ rest = [] then some (some 0)
    else if c = CodePoint.ofChar '+' ∨ c = CodePoint.ofChar '-' then
      match scanClockTime rest with
      | some (t, []) => some (some (if c = CodePoint.ofChar '-' then -(t.total : ℤ) else t.total))
      | _ => none
    else none

namespace Datetime

/-- `datetime(year, month, day, hour, minute, second, microsecond, tzinfo)`, if they are in range. -/
def ofFields (year month day : ℕ) (t : ClockTime) (utcoffset : Option ℤ) : Option Datetime :=
  if h : (1 ≤ year ∧ year ≤ 9999 ∧ 1 ≤ month ∧ month ≤ 12 ∧ 1 ≤ day ∧
      day ≤ daysInMonth year month) ∧
      (t.hour < 24 ∧ t.minute < 60 ∧ t.second < 60 ∧ t.microsecond < 1000000) ∧
      ∀ o ∈ utcoffset, o.natAbs < dayMicroseconds then
    some
      { year
        month
        day
        hour := t.hour
        minute := t.minute
        second := t.second
        microsecond := t.microsecond
        utcoffset
        date_valid := h.1
        time_valid := h.2.1
        offset_valid := h.2.2 }
  else none

/-- `datetime.fromisoformat(s)`, nothing where it raises `ValueError`. -/
def fromisoformat (s : Str) : Option Datetime := do
  let (year, s) ← scanDigits 4 s
  let s ← scanChar '-' s
  let (month, s) ← scanDigits 2 s
  let s ← scanChar '-' s
  let (day, s) ← scanDigits 2 s
  match s with
  | [] => ofFields year month day ⟨0, 0, 0, 0⟩ none
  | _ :: s =>
    let (time, s) ← scanClockTime s
    let utcoffset ← scanOffset s
    ofFields year month day time utcoffset

end Datetime

theorem length_zeroPadded {width n : ℕ} (hwidth : 0 < width) (h : n < 10 ^ width) :
    (zeroPadded width n).length = width := by
  have hle : (decimal n).length ≤ width := by
    rw [decimal, List.length_map]
    exact (Nat.length_toDigits_le_iff (by norm_num) hwidth).mpr h
  rw [zeroPadded, List.length_append, List.length_replicate]
  omega

theorem scanDigits_zeroPadded {width n : ℕ} (hwidth : 0 < width) (h : n < 10 ^ width) (r : Str) :
    scanDigits width (zeroPadded width n ++ r) = some (n, r) := by
  have hlength := length_zeroPadded hwidth h
  have htake : (zeroPadded width n ++ r).take width = zeroPadded width n := by
    rw [List.take_append_of_le_length hlength.ge, List.take_of_length_le hlength.le]
  have hdrop : (zeroPadded width n ++ r).drop width = r := by
    rw [List.drop_append_of_le_length hlength.ge, List.drop_of_length_le hlength.le, List.nil_append]
  have hdigits : (zeroPadded width n).all isDigit = true :=
    List.all_eq_true.mpr fun c hc => isDigit_zeroPadded hc
  rw [scanDigits, htake, hdrop, if_pos ⟨hlength, hdigits⟩, digitsValue_zeroPadded]

/-- What may follow a clock time without becoming part of it. -/
def EndsClock (r : Str) : Prop :=
  ∀ c ∈ r.head?, isDigit c = false ∧ c ≠ CodePoint.ofChar '.' ∧ c ≠ CodePoint.ofChar ',' ∧
    c ≠ CodePoint.ofChar ':'

theorem endsClock_nil : EndsClock [] := by
  intro c hc
  cases hc

theorem endsClock_offsetText (offset : ℤ) : EndsClock (Datetime.offsetText offset) := by
  intro c hc
  have hsign : c = CodePoint.ofChar '-' ∨ c = CodePoint.ofChar '+' := by
    unfold Datetime.offsetText at hc
    by_cases hneg : offset < 0
    · left
      simpa [hneg, str, eq_comm] using hc
    · right
      simpa [hneg, str, eq_comm] using hc
  rcases hsign with rfl | rfl
  · decide
  · decide

theorem scanFraction_fractionText {microsecond : ℕ} (h : microsecond < 1000000) {r : Str}
    (hr : EndsClock r) :
    scanFraction (Datetime.fractionText microsecond ++ r) = some (microsecond, r) := by
  unfold Datetime.fractionText
  split_ifs with hzero
  · subst hzero
    cases r with
    | nil => rfl
    | cons c r =>
      obtain ⟨-, hdot, hcomma, -⟩ := hr c rfl
      rw [List.nil_append, scanFraction, if_neg]
      rintro (h | h)
      · exact hdot h
      · exact hcomma h
  · have hlength : (zeroPadded 6 microsecond).length = 6 := length_zeroPadded (by norm_num) h
    have hdigits : ∀ c ∈ zeroPadded 6 microsecond, isDigit c = true := fun c => isDigit_zeroPadded
    obtain ⟨htake, hdrop⟩ := takeWhile_digits hdigits fun c hc => (hr c hc).1
    have hvalue : microseconds (zeroPadded 6 microsecond) = microsecond := by
      rw [microseconds, List.take_append_of_le_length hlength.ge,
        List.take_of_length_le hlength.le, digitsValue_zeroPadded]
    have hne : zeroPadded 6 microsecond ≠ [] := by
      intro hnil
      rw [hnil] at hlength
      cases hlength
    have hdot : str "." ++ zeroPadded 6 microsecond ++ r =
        CodePoint.ofChar '.' :: (zeroPadded 6 microsecond ++ r) := rfl
    rw [hdot, scanFraction, if_pos (.inl rfl), htake, hdrop, if_neg hne, hvalue]

theorem scanChar_self (c : Char) (r : Str) : scanChar c (CodePoint.ofChar c :: r) = some r :=
  if_pos rfl

theorem scanChar_endsClock {r : Str} (hr : EndsClock r) : scanChar ':' r = none := by
  cases r with
  | nil => rfl
  | cons c r => exact if_neg (hr c rfl).2.2.2

theorem colon_append (r : Str) : Datetime.colon ++ r = CodePoint.ofChar ':' :: r := rfl

theorem scanClockTime_hourMinute {hour minute : ℕ} (hhour : hour < 100) (hminute : minute < 100)
    (r : Str) : scanClockTime (zeroPadded 2 hour ++ (Datetime.colon ++ (zeroPadded 2 minute ++ r))) =
      match scanChar ':' r with
      | none => some (⟨hour, minute, 0, 0⟩, r)
      | some s => (scanDigits 2 s).bind fun second => (scanFraction second.2).bind fun fraction =>
          some (⟨hour, minute, second.1, fraction.1⟩, fraction.2) := by
  unfold scanClockTime
  rw [scanDigits_zeroPadded (by norm_num) hhour, Option.bind_eq_bind, Option.bind_some]
  dsimp only
  rw [colon_append, scanChar_self]
  dsimp only
  rw [scanDigits_zeroPadded (by norm_num) hminute, Option.bind_some]
  rfl

theorem scanClockTime_minutes {hour minute : ℕ} (hhour : hour < 100) (hminute : minute < 100)
    {r : Str} (hr : EndsClock r) :
    scanClockTime (zeroPadded 2 hour ++ (Datetime.colon ++ (zeroPadded 2 minute ++ r))) =
      some (⟨hour, minute, 0, 0⟩, r) := by
  rw [scanClockTime_hourMinute hhour hminute, scanChar_endsClock hr]

theorem scanClockTime_seconds {hour minute second microsecond : ℕ} (hhour : hour < 100)
    (hminute : minute < 100) (hsecond : second < 100) (hmicrosecond : microsecond < 1000000)
    {r : Str} (hr : EndsClock r) :
    scanClockTime (zeroPadded 2 hour ++ (Datetime.colon ++ (zeroPadded 2 minute ++
        (Datetime.colon ++ (zeroPadded 2 second ++ (Datetime.fractionText microsecond ++ r)))))) =
      some (⟨hour, minute, second, microsecond⟩, r) := by
  rw [scanClockTime_hourMinute hhour hminute, colon_append, scanChar_self]
  dsimp only
  rw [scanDigits_zeroPadded (by norm_num) hsecond, Option.bind_some]
  dsimp only
  rw [scanFraction_fractionText hmicrosecond hr]
  rfl

theorem scanOffset_offsetText {offset : ℤ} (h : offset.natAbs < dayMicroseconds) :
    scanOffset (Datetime.offsetText offset) = some (some offset) := by
  have hclock : ∃ t : ClockTime, t.total = offset.natAbs ∧ ∃ body,
      scanClockTime body = some (t, []) ∧ Datetime.offsetText offset =
        (if offset < 0 then CodePoint.ofChar '-' else CodePoint.ofChar '+') :: body := by
    have hday : dayMicroseconds = 86400000000 := rfl
    have hhour : offset.natAbs / 3600000000 < 100 := by omega
    have hminute : offset.natAbs / 60000000 % 60 < 100 := by omega
    have hsecond : offset.natAbs / 1000000 % 60 < 100 := by omega
    have hmicrosecond : offset.natAbs % 1000000 < 1000000 := by omega
    unfold Datetime.offsetText
    dsimp only
    by_cases hwhole : offset.natAbs / 1000000 % 60 = 0 ∧ offset.natAbs % 1000000 = 0
    · refine ⟨⟨offset.natAbs / 3600000000, offset.natAbs / 60000000 % 60, 0, 0⟩, ?_, _,
        scanClockTime_minutes hhour hminute endsClock_nil, ?_⟩
      · unfold ClockTime.total
        dsimp only
        omega
      · rw [if_pos hwhole]
        split_ifs <;> simp [str]
    · refine ⟨⟨offset.natAbs / 3600000000, offset.natAbs / 60000000 % 60,
        offset.natAbs / 1000000 % 60, offset.natAbs % 1000000⟩, ?_, _,
        scanClockTime_seconds hhour hminute hsecond hmicrosecond endsClock_nil, ?_⟩
      · unfold ClockTime.total
        dsimp only
        omega
      · rw [if_neg hwhole]
        split_ifs <;> simp [str]
  obtain ⟨t, htotal, body, hbody, htext⟩ := hclock
  rw [htext, scanOffset]
  by_cases hneg : offset < 0
  · rw [if_pos hneg, if_neg fun h => absurd h.1 (by decide), if_pos (.inr rfl), hbody]
    dsimp only
    rw [if_pos rfl, htotal]
    congr 2
    omega
  · rw [if_neg hneg, if_neg fun h => absurd h.1 (by decide), if_pos (.inl rfl), hbody]
    dsimp only
    rw [if_neg (by decide), htotal]
    congr 2
    omega

namespace Datetime

theorem daysInMonth_le (year month : ℕ) : daysInMonth year month ≤ 31 := by
  unfold daysInMonth
  split_ifs <;> omega

theorem ofFields_self (d : Datetime) :
    ofFields d.year d.month d.day ⟨d.hour, d.minute, d.second, d.microsecond⟩ d.utcoffset = some d :=
  dif_pos ⟨d.date_valid, d.time_valid, d.offset_valid⟩

/-- The text of an offset, or nothing for a naive value. -/
def zoneText (d : Datetime) : Str :=
  match d.utcoffset with
  | none => []
  | some offset => offsetText offset

theorem zoneText_of_offset {d : Datetime} {offset : ℤ} (h : d.utcoffset = some offset) :
    d.zoneText = offsetText offset := by
  rw [zoneText, h]

theorem endsClock_zoneText (d : Datetime) : EndsClock d.zoneText := by
  unfold zoneText
  cases d.utcoffset with
  | none => exact endsClock_nil
  | some offset => exact endsClock_offsetText offset

theorem scanOffset_zoneText (d : Datetime) : scanOffset d.zoneText = some d.utcoffset := by
  have hvalid := d.offset_valid
  unfold zoneText
  cases hoffset : d.utcoffset with
  | none => rfl
  | some offset => exact scanOffset_offsetText (hvalid offset hoffset)

theorem isoformat_eq (d : Datetime) : d.isoformat =
    zeroPadded 4 d.year ++ (CodePoint.ofChar '-' :: (zeroPadded 2 d.month ++
      (CodePoint.ofChar '-' :: (zeroPadded 2 d.day ++ (CodePoint.ofChar 'T' ::
        (zeroPadded 2 d.hour ++ (colon ++ (zeroPadded 2 d.minute ++ (colon ++
          (zeroPadded 2 d.second ++ (fractionText d.microsecond ++ d.zoneText))))))))))) := by
  unfold isoformat zoneText
  cases d.utcoffset with
  | none =>
    simp only [List.append_assoc, List.append_nil]
    rfl
  | some offset =>
    simp only [List.append_assoc]
    rfl

/-- Every datetime is read back. -/
theorem fromisoformat_isoformat (d : Datetime) : fromisoformat d.isoformat = some d := by
  obtain ⟨hyear, hyear', hmonth, hmonth', hday, hday'⟩ := d.date_valid
  obtain ⟨hhour, hminute, hsecond, hmicrosecond⟩ := d.time_valid
  have hmonthLength := daysInMonth_le d.year d.month
  have hY : ∀ r, scanDigits 4 (zeroPadded 4 d.year ++ r) = some (d.year, r) :=
    scanDigits_zeroPadded (by norm_num) (by omega)
  have hM : ∀ r, scanDigits 2 (zeroPadded 2 d.month ++ r) = some (d.month, r) :=
    scanDigits_zeroPadded (by norm_num) (by omega)
  have hD : ∀ r, scanDigits 2 (zeroPadded 2 d.day ++ r) = some (d.day, r) :=
    scanDigits_zeroPadded (by norm_num) (by omega)
  have hT := scanClockTime_seconds (show d.hour < 100 by omega) (show d.minute < 100 by omega)
    (show d.second < 100 by omega) hmicrosecond d.endsClock_zoneText
  simp only [fromisoformat, isoformat_eq, hY, hM, hD, hT, scanChar_self, scanOffset_zoneText,
    Option.bind_eq_bind, Option.bind_some, ofFields_self]

theorem isoformat_injective {d d' : Datetime} (h : d.isoformat = d'.isoformat) : d = d' := by
  have hread := congrArg fromisoformat h
  rw [fromisoformat_isoformat, fromisoformat_isoformat] at hread
  exact Option.some.inj hread

end Datetime

theorem append_lt_append {a b : Str} (hlength : a.length = b.length) (h : a < b) (x y : Str) :
    a ++ x < b ++ y := by
  induction h with
  | nil => cases hlength
  | rel hlt => exact List.Lex.rel hlt
  | cons _ ih => exact List.Lex.cons (ih (by simpa using hlength))

theorem isDigit_iff {c : CodePoint} : isDigit c = true ↔ 0x30 ≤ c.val ∧ c.val ≤ 0x39 := by
  rw [isDigit, Bool.and_eq_true, decide_eq_true_eq, decide_eq_true_eq]

theorem digitsValue_lt {ds : Str} (h : ∀ c ∈ ds, isDigit c = true) :
    digitsValue ds < 10 ^ ds.length := by
  induction ds with
  | nil => decide
  | cons c ds ih =>
    obtain ⟨hc, hds⟩ := List.forall_mem_cons.mp h
    have hlt := ih hds
    have hdigit := isDigit_iff.mp hc
    have hle : (c.val - 0x30) * 10 ^ ds.length ≤ 9 * 10 ^ ds.length :=
      Nat.mul_le_mul_right _ (by omega)
    rw [digitsValue_cons, List.length_cons, pow_succ]
    omega

theorem digitsValue_lt_of_lt {a b : Str} (ha : ∀ c ∈ a, isDigit c = true)
    (hb : ∀ c ∈ b, isDigit c = true) (hlength : a.length = b.length) (h : a < b) :
    digitsValue a < digitsValue b := by
  induction h with
  | nil => cases hlength
  | @rel x xs y ys hlt =>
    obtain ⟨hx, hxs⟩ := List.forall_mem_cons.mp ha
    obtain ⟨hy, hys⟩ := List.forall_mem_cons.mp hb
    have hxlt := digitsValue_lt hxs
    have hlen : xs.length = ys.length := by simpa using hlength
    have hval : x.val < y.val := hlt
    have hxd := isDigit_iff.mp hx
    have hle : (x.val - 0x30 + 1) * 10 ^ ys.length ≤ (y.val - 0x30) * 10 ^ ys.length :=
      Nat.mul_le_mul_right _ (by omega)
    rw [digitsValue_cons, digitsValue_cons]
    rw [hlen] at hxlt ⊢
    rw [add_mul, one_mul] at hle
    omega
  | @cons x xs ys _ ih =>
    obtain ⟨-, hxs⟩ := List.forall_mem_cons.mp ha
    obtain ⟨-, hys⟩ := List.forall_mem_cons.mp hb
    have hlen : xs.length = ys.length := by simpa using hlength
    have hlt := ih hxs hys hlen
    rw [digitsValue_cons, digitsValue_cons, hlen]
    omega

theorem zeroPadded_lt {width n n' : ℕ} (hwidth : 0 < width) (h : n < n') (h' : n' < 10 ^ width) :
    zeroPadded width n < zeroPadded width n' := by
  have hlength : (zeroPadded width n').length = (zeroPadded width n).length := by
    rw [length_zeroPadded hwidth h', length_zeroPadded hwidth (h.trans h')]
  rcases lt_trichotomy (zeroPadded width n) (zeroPadded width n') with hlt | heq | hgt
  · exact hlt
  · have hvalue := congrArg digitsValue heq
    rw [digitsValue_zeroPadded, digitsValue_zeroPadded] at hvalue
    omega
  · have hvalue := digitsValue_lt_of_lt (fun c hc => isDigit_zeroPadded hc)
      (fun c hc => isDigit_zeroPadded hc) hlength hgt
    rw [digitsValue_zeroPadded, digitsValue_zeroPadded] at hvalue
    omega

theorem zeroPadded_append_lt {width n n' : ℕ} (hwidth : 0 < width) (h' : n' < 10 ^ width)
    {x y : Str} (h : n < n' ∨ n = n' ∧ x < y) :
    zeroPadded width n ++ x < zeroPadded width n' ++ y := by
  rcases h with hlt | ⟨rfl, hlt⟩
  · refine append_lt_append ?_ (zeroPadded_lt hwidth hlt h') x y
    rw [length_zeroPadded hwidth (hlt.trans h'), length_zeroPadded hwidth h']
  · exact List.append_left_lt hlt

theorem cons_lt_cons {c : CodePoint} {x y : Str} (h : x < y) : c :: x < c :: y := .cons h

theorem offsetText_eq_cons (offset : ℤ) : ∃ body, Datetime.offsetText offset =
    (if offset < 0 then CodePoint.ofChar '-' else CodePoint.ofChar '+') :: body := by
  unfold Datetime.offsetText
  dsimp only
  split_ifs <;> exact ⟨_, rfl⟩

theorem fractionText_append_lt {microsecond microsecond' : ℕ} (h : microsecond < microsecond')
    (h' : microsecond' < 1000000) (offset offset' : ℤ) :
    Datetime.fractionText microsecond ++ Datetime.offsetText offset <
      Datetime.fractionText microsecond' ++ Datetime.offsetText offset' := by
  have hpos : microsecond' ≠ 0 := by omega
  unfold Datetime.fractionText
  rw [if_neg hpos]
  split_ifs with hzero
  · -- the sign of an offset comes before the point
    obtain ⟨body, htext⟩ := offsetText_eq_cons offset
    rw [htext]
    split_ifs <;> exact .rel (by decide)
  · refine cons_lt_cons ?_
    exact zeroPadded_append_lt (by norm_num) h' (.inl h)

theorem offsetText_zero_lt {offset : ℤ} (hne : offset ≠ 0) (h : offset.natAbs < dayMicroseconds) :
    Datetime.offsetText 0 < Datetime.offsetText offset := by
  by_cases hneg : offset < 0
  · obtain ⟨body, htext⟩ := offsetText_eq_cons offset
    rw [htext, if_pos hneg]
    exact .rel (by decide)
  · have hday : dayMicroseconds = 86400000000 := rfl
    have hzero : Datetime.offsetText 0 =
        str "+" ++ (zeroPadded 2 0 ++ (Datetime.colon ++ (zeroPadded 2 0 ++ []))) := by decide
    rw [hzero]
    unfold Datetime.offsetText
    dsimp only
    rw [if_neg hneg]
    simp only [List.append_assoc]
    refine cons_lt_cons (zeroPadded_append_lt (by norm_num) (by omega) ?_)
    rcases Nat.eq_zero_or_pos (offset.natAbs / 3600000000) with hhour | hhour
    · refine .inr ⟨hhour.symm, cons_lt_cons (zeroPadded_append_lt (by norm_num) (by omega) ?_)⟩
      rcases Nat.eq_zero_or_pos (offset.natAbs / 60000000 % 60) with hminute | hminute
      · refine .inr ⟨hminute.symm, ?_⟩
        rw [if_neg (by omega)]
        exact .nil
      · exact .inl hminute
    · exact .inl hhour

namespace Datetime

/-- The text without the offset. -/
def clockText (d : Datetime) : Str :=
  zeroPadded 4 d.year ++ (CodePoint.ofChar '-' :: (zeroPadded 2 d.month ++
    (CodePoint.ofChar '-' :: (zeroPadded 2 d.day ++ (CodePoint.ofChar 'T' ::
      (zeroPadded 2 d.hour ++ (colon ++ (zeroPadded 2 d.minute ++ (colon ++
        (zeroPadded 2 d.second ++ fractionText d.microsecond))))))))))

theorem isoformat_eq_clockText (d : Datetime) : d.isoformat = d.clockText ++ d.zoneText := by
  rw [isoformat_eq, clockText]
  simp only [List.append_assoc, List.cons_append]

theorem isoformat_lt_of_wallClock {d d' : Datetime} (haware : d.utcoffset ≠ none)
    (haware' : d'.utcoffset ≠ none) (h : d.wallClock < d'.wallClock) :
    d.isoformat < d'.isoformat := by
  have horder := (wallClock_lt_iff d d').mp h
  simp only [fieldOrder, Prod.Lex.toLex_lt_toLex] at horder
  obtain ⟨-, hyear', -, hmonth', -, hday'⟩ := d'.date_valid
  obtain ⟨hhour, hminute, hsecond, hmicrosecond⟩ := d'.time_valid
  have hmonthLength := daysInMonth_le d'.year d'.month
  obtain ⟨offset, hoffset⟩ := Option.ne_none_iff_exists'.mp haware
  obtain ⟨offset', hoffset'⟩ := Option.ne_none_iff_exists'.mp haware'
  rw [isoformat_eq, isoformat_eq, zoneText_of_offset hoffset, zoneText_of_offset hoffset']
  refine zeroPadded_append_lt (by norm_num) (by omega) (horder.imp_right ?_)
  refine And.imp_right fun horder => cons_lt_cons ?_
  refine zeroPadded_append_lt (by norm_num) (by omega) (horder.imp_right ?_)
  refine And.imp_right fun horder => cons_lt_cons ?_
  refine zeroPadded_append_lt (by norm_num) (by omega) (horder.imp_right ?_)
  refine And.imp_right fun horder => cons_lt_cons ?_
  refine zeroPadded_append_lt (by norm_num) (by omega) (horder.imp_right ?_)
  refine And.imp_right fun horder => cons_lt_cons ?_
  refine zeroPadded_append_lt (by norm_num) (by omega) (horder.imp_right ?_)
  refine And.imp_right fun horder => cons_lt_cons ?_
  refine zeroPadded_append_lt (by norm_num) (by omega) (horder.imp_right ?_)
  exact And.imp_right fun hlt => fractionText_append_lt hlt hmicrosecond offset offset'

theorem isoformat_lt {d d' : Datetime} (hutc : d.utcoffset = some 0) (hutc' : d'.utcoffset = some 0)
    (h : d.instant < d'.instant) : d.isoformat < d'.isoformat := by
  have hwall : d.wallClock < d'.wallClock := by
    unfold instant at h
    rw [hutc, hutc'] at h
    simpa using h
  exact isoformat_lt_of_wallClock (by simp [hutc]) (by simp [hutc']) hwall

theorem clockText_eq {d d' : Datetime} (h : d.wallClock = d'.wallClock) :
    d.clockText = d'.clockText := by
  have hfields : d.fieldOrder = d'.fieldOrder := by
    rcases lt_trichotomy d.fieldOrder d'.fieldOrder with hlt | heq | hgt
    · exact absurd h ((wallClock_lt_iff d d').mpr hlt).ne
    · exact heq
    · exact absurd h ((wallClock_lt_iff d' d).mpr hgt).ne'
  simp only [fieldOrder, EmbeddingLike.apply_eq_iff_eq, Prod.mk.injEq] at hfields
  obtain ⟨hyear, hmonth, hday, hhour, hminute, hsecond, hmicrosecond⟩ := hfields
  unfold clockText
  rw [hyear, hmonth, hday, hhour, hminute, hsecond, hmicrosecond]

theorem isoformat_lt_iff {d d' : Datetime} (hutc : d.utcoffset = some 0)
    (hutc' : d'.utcoffset = some 0) : d.isoformat < d'.isoformat ↔ d.instant < d'.instant := by
  constructor
  · intro h
    rcases lt_trichotomy d.instant d'.instant with hlt | heq | hgt
    · exact hlt
    · have hwall : d.wallClock = d'.wallClock := by simpa [instant, hutc, hutc'] using heq
      rw [isoformat_eq_clockText, isoformat_eq_clockText, clockText_eq hwall,
        zoneText_of_offset hutc, zoneText_of_offset hutc'] at h
      exact absurd h (lt_irrefl _)
    · exact absurd h (isoformat_lt hutc' hutc hgt).not_gt
  · exact isoformat_lt hutc hutc'

/-- Text order is time order in UTC. -/
theorem cmp_isoformat {d d' : Datetime} (hutc : d.utcoffset = some 0)
    (hutc' : d'.utcoffset = some 0) :
    cmp d.isoformat d'.isoformat = cmp d.instant d'.instant := by
  simp only [cmp, cmpUsing, isoformat_lt_iff hutc hutc', isoformat_lt_iff hutc' hutc]

/-- A text is up to that of a datetime in UTC exactly when its wall clock is earlier, or the same
and in UTC. -/
theorem isoformat_le_utc_iff {d utc : Datetime} (haware : d.utcoffset ≠ none)
    (hutc : utc.utcoffset = some 0) : d.isoformat ≤ utc.isoformat ↔
      d.wallClock < utc.wallClock ∨ d.wallClock = utc.wallClock ∧ d.utcoffset = some 0 := by
  have haware' : utc.utcoffset ≠ none := by simp [hutc]
  rcases lt_trichotomy d.wallClock utc.wallClock with hlt | heq | hgt
  · exact iff_of_true (isoformat_lt_of_wallClock haware haware' hlt).le (.inl hlt)
  · obtain ⟨offset, hoffset⟩ := Option.ne_none_iff_exists'.mp haware
    rw [isoformat_eq_clockText, isoformat_eq_clockText, clockText_eq heq,
      zoneText_of_offset hoffset, zoneText_of_offset hutc, hoffset]
    by_cases hzero : offset = 0
    · rw [hzero]
      exact iff_of_true (le_refl _) (.inr ⟨heq, rfl⟩)
    · have hlt := offsetText_zero_lt hzero (d.offset_valid offset hoffset)
      refine iff_of_false (not_le.mpr (List.append_left_lt hlt)) ?_
      rintro (hearlier | ⟨-, hsame⟩)
      · exact absurd heq hearlier.ne
      · exact hzero (Option.some.inj hsame)
  · refine iff_of_false (not_le.mpr (isoformat_lt_of_wallClock haware' haware hgt)) ?_
    rintro (hearlier | ⟨hsame, -⟩)
    · exact absurd hearlier hgt.not_gt
    · exact absurd hsame hgt.ne'

theorem utc_isoformat_le_iff {d utc : Datetime} (haware : d.utcoffset ≠ none)
    (hutc : utc.utcoffset = some 0) :
    utc.isoformat ≤ d.isoformat ↔ utc.wallClock ≤ d.wallClock := by
  rw [← not_lt, ← not_lt, not_iff_not, lt_iff_le_and_ne, isoformat_le_utc_iff haware hutc]
  constructor
  · rintro ⟨hearlier | ⟨hsame, hzero⟩, hne⟩
    · exact hearlier
    · -- with one wall clock and both in UTC the texts are the same
      rw [isoformat_eq_clockText, isoformat_eq_clockText, clockText_eq hsame,
        zoneText_of_offset hzero, zoneText_of_offset hutc] at hne
      exact absurd rfl hne
  · intro h
    refine ⟨.inl h, fun heq => ?_⟩
    rw [isoformat_injective heq] at h
    exact lt_irrefl _ h

end Datetime
end Py
