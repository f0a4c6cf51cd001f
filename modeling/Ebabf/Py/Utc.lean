import Ebabf.Py.Isoformat
import Ebabf.Py.Statistics

/-!
# Conversion to UTC

`value.astimezone(timezone.utc)` keeps the instant and changes the wall clock, so it needs the
calendar read backwards, and fails when the date in UTC is not in the years 1 to 9999.
-/

namespace Py

/-- The year of the day with an ordinal, 9999 at most. -/
def yearOf (ordinal : ℕ) : ℕ := Nat.findGreatest (fun year => daysBeforeYear year < ordinal) 9999

/-- The month of the day with a number in its year. -/
def monthOf (year days : ℕ) : ℕ :=
  Nat.findGreatest (fun month => daysBeforeMonth year month < days) 12

theorem yearOf_spec {ordinal : ℕ} (h : 1 ≤ ordinal) :
    1 ≤ yearOf ordinal ∧ yearOf ordinal ≤ 9999 ∧ daysBeforeYear (yearOf ordinal) < ordinal ∧
      (ordinal ≤ daysBeforeYear 10000 → ordinal ≤ daysBeforeYear (yearOf ordinal + 1)) := by
  have hfirst : daysBeforeYear 1 < ordinal := h
  have hle : yearOf ordinal ≤ 9999 := Nat.findGreatest_le 9999
  refine ⟨Nat.le_findGreatest (by norm_num) hfirst, hle, ?_, ?_⟩
  · exact Nat.findGreatest_spec (P := fun year => daysBeforeYear year < ordinal)
      (by norm_num : 1 ≤ 9999) hfirst
  · intro hend
    rcases Nat.lt_or_eq_of_le hle with hlt | heq
    · exact Nat.not_lt.mp (Nat.findGreatest_is_greatest (P := fun year =>
        daysBeforeYear year < ordinal) (Nat.lt_succ_self (yearOf ordinal)) hlt)
    · rw [heq]
      exact hend

theorem monthOf_spec (year : ℕ) {days : ℕ} (h : 1 ≤ days) :
    1 ≤ monthOf year days ∧ monthOf year days ≤ 12 ∧
      daysBeforeMonth year (monthOf year days) < days ∧
      (days ≤ daysInYear year → days ≤ daysBeforeMonth year (monthOf year days + 1)) := by
  have hfirst : daysBeforeMonth year 1 < days := h
  have hle : monthOf year days ≤ 12 := Nat.findGreatest_le 12
  refine ⟨Nat.le_findGreatest (by norm_num) hfirst, hle, ?_, ?_⟩
  · exact Nat.findGreatest_spec (P := fun month => daysBeforeMonth year month < days)
      (by norm_num : 1 ≤ 12) hfirst
  · intro hend
    rcases Nat.lt_or_eq_of_le hle with hlt | heq
    · exact Nat.not_lt.mp (Nat.findGreatest_is_greatest (P := fun month =>
        daysBeforeMonth year month < days) (Nat.lt_succ_self (monthOf year days)) hlt)
    · rw [heq, daysBeforeMonth_end]
      exact hend

namespace Datetime

/-- The datetime whose wall clock reads a number of microseconds, if there is one. -/
def ofWallClock (n : ℕ) (utcoffset : Option ℤ) : Option Datetime :=
  let ordinal := n / dayMicroseconds
  let year := yearOf ordinal
  let days := ordinal - daysBeforeYear year
  let month := monthOf year days
  ofFields year month (days - daysBeforeMonth year month)
    ⟨n / 3600000000 % 24, n / 60000000 % 60, n / 1000000 % 60, n % 1000000⟩ utcoffset

/-- `value.astimezone(timezone.utc)`, where the system's zone is UTC for naive values. -/
def astimezoneUtc (d : Datetime) : Except Exc Datetime :=
  match ofWallClock d.instant.toNat (some 0) with
  | some utc => .ok utc
  | none => .error ⟨overflowError, str "date value out of range"⟩

/-- The wall clocks of the years 1 to 9999. -/
def InCalendar (n : ℤ) : Prop := dayMicroseconds ≤ n ∧ n < endOfTime

instance (n : ℤ) : Decidable (InCalendar n) := inferInstanceAs (Decidable (_ ∧ _))

theorem ofFields_eq_some {year month day : ℕ} {t : ClockTime} {utcoffset : Option ℤ} {d : Datetime}
    (h : ofFields year month day t utcoffset = some d) :
    d.year = year ∧ d.month = month ∧ d.day = day ∧ d.hour = t.hour ∧ d.minute = t.minute ∧
      d.second = t.second ∧ d.microsecond = t.microsecond ∧ d.utcoffset = utcoffset := by
  unfold ofFields at h
  split_ifs at h
  cases h
  exact ⟨rfl, rfl, rfl, rfl, rfl, rfl, rfl, rfl⟩

theorem endOfTime_eq : endOfTime = ((daysBeforeYear 10000 + 1) * dayMicroseconds : ℕ) := by
  rw [endOfTime, Nat.cast_mul]
  rfl

/-- In the calendar every reading of the wall clock is the time of a datetime. -/
theorem ofWallClock_inCalendar {n : ℕ} (h : InCalendar n) :
    ∃ d, ofWallClock n (some 0) = some d ∧ d.wallClock = n ∧ d.utcoffset = some 0 := by
  have hday : dayMicroseconds = 86400000000 := rfl
  obtain ⟨hfirst, hend⟩ := h
  set ordinal := n / dayMicroseconds with hordinal
  have hone : 1 ≤ ordinal := by
    rw [hday] at hfirst hordinal
    omega
  have hlast : ordinal ≤ daysBeforeYear 10000 := by
    rw [endOfTime_eq] at hend
    have hlt : n < (daysBeforeYear 10000 + 1) * dayMicroseconds := by exact_mod_cast hend
    exact Nat.lt_succ_iff.mp (Nat.div_lt_of_lt_mul (by rwa [mul_comm] at hlt))
  obtain ⟨hyear, hyear', hbefore, hnext⟩ := yearOf_spec hone
  have hdays : ordinal ≤ daysBeforeYear (yearOf ordinal) + daysInYear (yearOf ordinal) := by
    rw [← daysBeforeYear_succ hyear]
    exact hnext hlast
  have hdayOfYear : 1 ≤ ordinal - daysBeforeYear (yearOf ordinal) := by omega
  obtain ⟨hmonth, hmonth', hbeforeMonth, hnextMonth⟩ := monthOf_spec (yearOf ordinal) hdayOfYear
  have hinMonth := hnextMonth (by omega)
  rw [daysBeforeMonth_succ hmonth] at hinMonth
  have hvalid : ∃ d, ofWallClock n (some 0) = some d := by
    unfold ofWallClock ofFields
    dsimp only
    rw [← hordinal, dif_pos]
    · exact ⟨_, rfl⟩
    · refine ⟨⟨hyear, hyear', hmonth, hmonth', by omega, by omega⟩, ⟨by omega, by omega, by omega,
        by omega⟩, ?_⟩
      intro o ho
      cases ho
      decide
  obtain ⟨d, hd⟩ := hvalid
  have hfields := hd
  unfold ofWallClock at hfields
  dsimp only at hfields
  rw [← hordinal] at hfields
  obtain ⟨h₁, h₂, h₃, h₄, h₅, h₆, h₇, h₈⟩ := ofFields_eq_some hfields
  refine ⟨d, hd, ?_, h₈⟩
  have htoday : toordinal d.year d.month d.day = ordinal := by
    unfold toordinal
    rw [h₁, h₂, h₃]
    omega
  unfold wallClock
  rw [htoday, h₄, h₅, h₆, h₇]
  dsimp only
  rw [hday] at hordinal
  omega

theorem ofWallClock_outside {n : ℕ} (h : ¬InCalendar n) : ofWallClock n (some 0) = none := by
  have hday : dayMicroseconds = 86400000000 := rfl
  unfold ofWallClock ofFields
  dsimp only
  rw [dif_neg]
  intro hvalid
  obtain ⟨⟨hyear, hyear', -, -, hdayPos, hdayLe⟩, -, -⟩ := hvalid
  apply h
  set ordinal := n / dayMicroseconds with hordinal
  have hone : 1 ≤ ordinal := by
    by_contra hzero
    rw [Nat.lt_one_iff.mp (Nat.not_le.mp hzero)] at hdayPos
    omega
  obtain ⟨-, -, hbefore, -⟩ := yearOf_spec hone
  have hdayOfYear : 1 ≤ ordinal - daysBeforeYear (yearOf ordinal) := by omega
  obtain ⟨hmonth, hmonth', -, -⟩ := monthOf_spec (yearOf ordinal) hdayOfYear
  have hle : toordinal (yearOf ordinal) (monthOf (yearOf ordinal)
      (ordinal - daysBeforeYear (yearOf ordinal))) (ordinal - daysBeforeYear (yearOf ordinal) -
        daysBeforeMonth (yearOf ordinal) (monthOf (yearOf ordinal)
          (ordinal - daysBeforeYear (yearOf ordinal)))) ≤ daysBeforeYear 10000 :=
    toordinal_le hyear (by omega) hmonth hmonth' hdayLe
  have hlast : ordinal ≤ daysBeforeYear 10000 := by
    unfold toordinal at hle
    omega
  have hlt : n < (daysBeforeYear 10000 + 1) * dayMicroseconds := by
    have hdiv := Nat.lt_mul_div_succ n (show 0 < dayMicroseconds by decide)
    rw [mul_comm]
    exact lt_of_lt_of_le hdiv (Nat.mul_le_mul_left _ (by omega))
  constructor
  · rw [hday] at hordinal ⊢
    omega
  · rw [endOfTime_eq]
    exact_mod_cast hlt

/-- The conversion keeps the instant, and fails exactly when UTC has no date for it. -/
theorem astimezoneUtc_ok {d : Datetime} (h : InCalendar d.instant) :
    ∃ utc, d.astimezoneUtc = .ok utc ∧ utc.instant = d.instant ∧ utc.utcoffset = some 0 := by
  have hnonneg : 0 ≤ d.instant := le_trans (Int.natCast_nonneg _) h.1
  have hcast : (d.instant.toNat : ℤ) = d.instant := Int.toNat_of_nonneg hnonneg
  obtain ⟨utc, hutc, hclock, hoffset⟩ := ofWallClock_inCalendar (n := d.instant.toNat) (by rwa [hcast])
  refine ⟨utc, ?_, ?_, hoffset⟩
  · rw [astimezoneUtc, hutc]
  · rw [instant, hclock, hoffset, hcast, Option.getD_some, sub_zero]

theorem astimezoneUtc_error {d : Datetime} (h : ¬InCalendar d.instant) :
    ∃ e, d.astimezoneUtc = .error e := by
  have hnone : ofWallClock d.instant.toNat (some 0) = none := by
    apply ofWallClock_outside
    intro hin
    apply h
    by_cases hneg : d.instant < 0
    · rw [Int.toNat_of_nonpos hneg.le] at hin
      exact absurd hin.1 (by decide)
    · rwa [Int.toNat_of_nonneg (Int.not_lt.mp hneg)] at hin
  rw [astimezoneUtc, hnone]
  exact ⟨_, rfl⟩

end Datetime
end Py
