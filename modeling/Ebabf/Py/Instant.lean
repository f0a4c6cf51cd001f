import Ebabf.Py.Datetime
import Mathlib.Data.Nat.Find
import Mathlib.Data.Prod.Lex
import Mathlib.Tactic.Linarith

/-!
# Instants

The proleptic Gregorian calendar as `datetime` counts it, the microsecond a datetime stands for,
and the conversion of a datetime to UTC, which fails outside the years 1 to 9999.
-/

namespace Py

/-- Days before the first of January of a year. -/
def daysBeforeYear (year : ℕ) : ℕ :=
  (year - 1) * 365 + (year - 1) / 4 - (year - 1) / 100 + (year - 1) / 400

/-- Days of a year before the first of a month. -/
def daysBeforeMonth (year : ℕ) : ℕ → ℕ
  | 0 | 1 => 0
  | month + 2 => daysBeforeMonth year (month + 1) + daysInMonth year (month + 1)

/-- `date(year, month, day).toordinal()` -/
def toordinal (year month day : ℕ) : ℕ := daysBeforeYear year + daysBeforeMonth year month + day

/-- The first instant after the year 9999, in microseconds. -/
def endOfTime : ℤ := toordinal 10000 1 1 * dayMicroseconds

def daysInYear (year : ℕ) : ℕ := if isLeapYear year then 366 else 365

theorem isLeapYear_iff (year : ℕ) : isLeapYear year = true ↔
    year % 4 = 0 ∧ (year % 100 ≠ 0 ∨ year % 400 = 0) := by
  simp [isLeapYear]

theorem daysBeforeYear_succ {year : ℕ} (h : 1 ≤ year) :
    daysBeforeYear (year + 1) = daysBeforeYear year + daysInYear year := by
  obtain ⟨y, rfl⟩ : ∃ y, year = y + 1 := ⟨year - 1, by omega⟩
  have hfloor : ∀ n, 0 < n → (y + 1) / n = y / n + if (y + 1) % n = 0 then 1 else 0 := by
    intro n hn
    rw [Nat.succ_div]
    simp only [Nat.dvd_iff_mod_eq_zero]
  have hcentury : y / 100 ≤ y / 4 := Nat.div_le_div_left (by norm_num) (by norm_num)
  have hquad : (y + 1) % 100 = 0 → (y + 1) % 4 = 0 := by omega
  have hcycle : (y + 1) % 400 = 0 → (y + 1) % 100 = 0 := by omega
  unfold daysBeforeYear daysInYear
  rw [Nat.add_sub_cancel, Nat.add_sub_cancel, hfloor 4 (by norm_num), hfloor 100 (by norm_num),
    hfloor 400 (by norm_num)]
  simp only [isLeapYear_iff]
  generalize (y + 1) % 4 = a at *
  generalize (y + 1) % 100 = b at *
  generalize (y + 1) % 400 = c at *
  generalize y / 4 = u at *
  generalize y / 100 = v at *
  generalize y / 400 = w at *
  by_cases ha : a = 0
  · by_cases hb : b = 0
    · by_cases hc : c = 0
      · simp only [ha, hb, hc, ↓reduceIte, ne_eq, not_true_eq_false, or_true, and_self]
        omega
      · simp only [ha, hb, hc, ↓reduceIte, ne_eq, not_true_eq_false, or_self, and_false]
        omega
    · have hc : c ≠ 0 := fun hc => hb (hcycle hc)
      simp only [ha, hb, hc, ↓reduceIte, ne_eq, not_false_eq_true, or_false, and_self]
      omega
  · have hb : b ≠ 0 := fun hb => ha (hquad hb)
    have hc : c ≠ 0 := fun hc => hb (hcycle hc)
    simp only [ha, hb, hc, ↓reduceIte, false_and]
    omega

theorem daysBeforeMonth_end (year : ℕ) : daysBeforeMonth year 13 = daysInYear year := by
  have hfebruary : daysInMonth year 2 = if isLeapYear year then 29 else 28 := rfl
  have hrest : daysInMonth year 1 = 31 ∧ daysInMonth year 3 = 31 ∧ daysInMonth year 4 = 30 ∧
      daysInMonth year 5 = 31 ∧ daysInMonth year 6 = 30 ∧ daysInMonth year 7 = 31 ∧
      daysInMonth year 8 = 31 ∧ daysInMonth year 9 = 30 ∧ daysInMonth year 10 = 31 ∧
      daysInMonth year 11 = 30 ∧ daysInMonth year 12 = 31 :=
    ⟨rfl, rfl, rfl, rfl, rfl, rfl, rfl, rfl, rfl, rfl, rfl⟩
  simp only [daysBeforeMonth, Nat.zero_add, Nat.reduceAdd, hfebruary, hrest, daysInYear]
  split_ifs <;> rfl

theorem daysBeforeMonth_succ {year month : ℕ} (h : 1 ≤ month) :
    daysBeforeMonth year (month + 1) = daysBeforeMonth year month + daysInMonth year month := by
  obtain ⟨m, rfl⟩ : ∃ m, month = m + 1 := ⟨month - 1, by omega⟩
  rfl

theorem daysBeforeMonth_mono (year : ℕ) : Monotone (daysBeforeMonth year) := by
  apply monotone_nat_of_le_succ
  intro month
  rcases Nat.eq_zero_or_pos month with rfl | h
  · exact le_refl _
  · rw [daysBeforeMonth_succ h]
    exact Nat.le_add_right _ _

theorem daysBeforeYear_mono {year year' : ℕ} (h : 1 ≤ year) (hle : year ≤ year') :
    daysBeforeYear year ≤ daysBeforeYear year' := by
  induction year', hle using Nat.le_induction with
  | base => exact le_refl _
  | succ y hy ih =>
    rw [daysBeforeYear_succ (h.trans hy)]
    omega

theorem daysBeforeMonth_add_lt {year month month' day : ℕ} (hmonth : 1 ≤ month)
    (hlt : month < month') (hday : day ≤ daysInMonth year month) :
    daysBeforeMonth year month + day ≤ daysBeforeMonth year month' := by
  have hmono := daysBeforeMonth_mono year (show month + 1 ≤ month' from hlt)
  rw [daysBeforeMonth_succ hmonth] at hmono
  omega

theorem toordinal_le {year year' month day : ℕ} (hyear : 1 ≤ year) (hlt : year < year')
    (hmonth : 1 ≤ month) (hmonth' : month ≤ 12) (hday : day ≤ daysInMonth year month) :
    toordinal year month day ≤ daysBeforeYear year' := by
  have hend := daysBeforeMonth_add_lt hmonth (show month < 13 by omega) hday
  have hmono := daysBeforeYear_mono (show 1 ≤ year + 1 by omega) (show year + 1 ≤ year' from hlt)
  rw [daysBeforeMonth_end] at hend
  rw [daysBeforeYear_succ hyear] at hmono
  unfold toordinal
  omega

namespace Datetime

/-- Microseconds from the start of year 1 to the wall clock's time. -/
def wallClock (d : Datetime) : ℕ :=
  (((toordinal d.year d.month d.day * 24 + d.hour) * 60 + d.minute) * 60 + d.second) * 1000000 +
    d.microsecond

/-- The instant of an aware datetime, in microseconds. A naive one is read as UTC. -/
def instant (d : Datetime) : ℤ := d.wallClock - d.utcoffset.getD 0

/-- The fields in the order in which they matter. -/
def fieldOrder (d : Datetime) : ℕ ×ₗ ℕ ×ₗ ℕ ×ₗ ℕ ×ₗ ℕ ×ₗ ℕ ×ₗ ℕ :=
  toLex (d.year, toLex (d.month, toLex (d.day, toLex (d.hour, toLex (d.minute,
    toLex (d.second, d.microsecond))))))

theorem wallClock_lt_of_fieldOrder {d d' : Datetime} (h : d.fieldOrder < d'.fieldOrder) :
    d.wallClock < d'.wallClock := by
  obtain ⟨hy₁, hy₂, hm₁, hm₂, hd₁, hd₂⟩ := d.date_valid
  obtain ⟨hy₁', hy₂', hm₁', hm₂', hd₁', hd₂'⟩ := d'.date_valid
  obtain ⟨hh, hmin, hs, hus⟩ := d.time_valid
  obtain ⟨hh', hmin', hs', hus'⟩ := d'.time_valid
  simp only [fieldOrder, Prod.Lex.toLex_lt_toLex] at h
  have hday : toordinal d.year d.month d.day < toordinal d'.year d'.month d'.day ∨
      toordinal d.year d.month d.day = toordinal d'.year d'.month d'.day ∧
        (d.hour < d'.hour ∨ d.hour = d'.hour ∧ (d.minute < d'.minute ∨ d.minute = d'.minute ∧
          (d.second < d'.second ∨ d.second = d'.second ∧ d.microsecond < d'.microsecond))) := by
    rcases h with hyear | ⟨hyear, h⟩
    · left
      have hle := toordinal_le hy₁ hyear hm₁ hm₂ hd₂
      unfold toordinal at hle ⊢
      omega
    · rcases h with hmonth | ⟨hmonth, h⟩
      · left
        have hle : daysBeforeMonth d.year d.month + d.day ≤ daysBeforeMonth d.year d'.month :=
          daysBeforeMonth_add_lt hm₁ hmonth hd₂
        unfold toordinal
        rw [← hyear]
        omega
      · rcases h with hday | ⟨hday, h⟩
        · left
          unfold toordinal
          rw [← hyear, ← hmonth]
          omega
        · right
          rw [hyear, hmonth, hday]
          exact ⟨rfl, h⟩
  unfold wallClock
  omega

theorem wallClock_lt_iff (d d' : Datetime) : d.wallClock < d'.wallClock ↔
    d.fieldOrder < d'.fieldOrder := by
  constructor
  · intro h
    rcases lt_trichotomy d.fieldOrder d'.fieldOrder with hlt | heq | hgt
    · exact hlt
    · simp only [fieldOrder, EmbeddingLike.apply_eq_iff_eq, Prod.mk.injEq] at heq
      obtain ⟨hy, hm, hd, hh, hmin, hs, hus⟩ := heq
      unfold wallClock at h
      rw [hy, hm, hd, hh, hmin, hs, hus] at h
      exact absurd h (lt_irrefl _)
    · exact absurd (wallClock_lt_of_fieldOrder hgt) h.not_gt
  · exact wallClock_lt_of_fieldOrder

end Datetime
end Py
