import Mathlib.Tactic.IntervalCases
import RtpBroker.Timestamp

/-!
# Days and dates

Counting days and counting dates agree: the date that lies so many days after the start of
1970 is one of the calendar, and counting to it gives these days again. The proof takes an
era of 400 years apart into centuries, spans of four years, years and days.
-/

namespace RtpBroker.Timestamp

/-- The year of an era in which a day of the era lies; years begin in March. -/
def yearOfEra (day : Nat) : Nat := (day - day / 1460 + day / 36524 - day / 146096) / 365

/-- How many days of an era lie before one of its years. -/
def daysBefore (year : Nat) : Nat := 365 * year + year / 4 - year / 100

theorem yearOfEra_parts {c q y r : Nat} (hc : c ≤ 3) (hq : q ≤ 24) (hy : y ≤ 3) (hr : r ≤ 365)
    (hlast : r = 365 → y = 3 ∧ (q = 24 → c = 3)) :
    yearOfEra (36524 * c + 1461 * q + 365 * y + r) = 100 * c + 4 * q + y := by
  obtain ⟨day, hday⟩ : ∃ day, day = 36524 * c + 1461 * q + 365 * y + r := ⟨_, rfl⟩
  rw [← hday, yearOfEra]
  by_cases hend : day = 146096
  · obtain ⟨rfl, rfl, rfl⟩ : c = 3 ∧ q = 24 ∧ y = 3 := by omega
    rw [hend]
  · have hera : day / 146096 = 0 := Nat.div_eq_of_lt (by omega)
    have hcentury : day / 36524 = c := by omega
    -- a span of four years holds one day more than four times 365
    have hspans : day / 1460 = 25 * c + q ∨
        day / 1460 = 25 * c + q + 1 ∧ 1460 ≤ 24 * c + q + 365 * y + r := by omega
    rcases hspans with hspans | ⟨hspans, hcarry⟩ <;> rw [hera, hcentury, hspans] <;> omega

theorem daysBefore_parts {c q y : Nat} (hq : q ≤ 24) (hy : y ≤ 3) :
    daysBefore (100 * c + 4 * q + y) = 36524 * c + 1461 * q + 365 * y := by
  unfold daysBefore
  omega

/-- Every day of an era lies in a century of it, in a span of four years and in one of these. -/
theorem exists_parts {day : Nat} (h : day < 146097) :
    ∃ c q y r, c ≤ 3 ∧ q ≤ 24 ∧ y ≤ 3 ∧ r ≤ 365 ∧ (r = 365 → y = 3 ∧ (q = 24 → c = 3)) ∧
      day = 36524 * c + 1461 * q + 365 * y + r := by
  obtain ⟨c, hc, hlow, hhigh⟩ : ∃ c, c ≤ 3 ∧ 36524 * c ≤ day ∧
      (day < 36524 * c + 36524 ∨ c = 3) := ⟨min 3 (day / 36524), by omega, by omega, by omega⟩
  obtain ⟨q, hq⟩ : ∃ q, q = (day - 36524 * c) / 1461 := ⟨_, rfl⟩
  obtain ⟨y, hy⟩ : ∃ y, y = min 3 ((day - 36524 * c - 1461 * q) / 365) := ⟨_, rfl⟩
  exact ⟨c, q, y, day - 36524 * c - 1461 * q - 365 * y, hc, by omega, by omega, by omega, by omega,
    by omega⟩

/-- The month of the year, counted from March, in which a day of the year lies. -/
def monthOfYear (day : Nat) : Nat := (5 * day + 2) / 153

/-- The date of a day of a year that begins in March. -/
def dateOf (year : Int) (day : Nat) : Int × Nat × Nat :=
  let month := monthOfYear day
  let m := if month < 10 then month + 3 else month - 9
  (year + (if m ≤ 2 then 1 else 0), m, day - (153 * month + 2) / 5 + 1)

theorem dateOfDays_eq {days era : Int} {day year dayOfYear : Nat}
    (hdays : days + 719468 = era * 146097 + day) (hday : day < 146097)
    (hyear : yearOfEra day = year) (hdayOfYear : day = daysBefore year + dayOfYear) :
    dateOfDays days = dateOf (year + era * 400) dayOfYear := by
  have hera : (days + 719468).fdiv 146097 = era := by
    rw [Int.fdiv_eq_ediv_of_nonneg _ (by decide)]
    omega
  have hdayOfEra : (days + 719468 - era * 146097).toNat = day := by omega
  have hrest : day - (365 * year + year / 4 - year / 100) = dayOfYear := by
    rw [daysBefore] at hdayOfYear
    omega
  unfold yearOfEra at hyear
  simp only [dateOfDays, hera, hdayOfEra, hyear, hrest, dateOf, monthOfYear]
  rfl

/-- Within a year that begins in March, whose last day is there if the year after is a leap year. -/
theorem dateOf_valid {year : Int} {day : Nat} (hday : day ≤ 365)
    (hleap : day = 365 → isLeapYear (year + 1) = true) :
    1 ≤ (dateOf year day).2.1 ∧ (dateOf year day).2.1 ≤ 12 ∧ 1 ≤ (dateOf year day).2.2 ∧
      (dateOf year day).2.2 ≤ daysInMonth (dateOf year day).1 (dateOf year day).2.1 := by
  obtain ⟨month, hmonth⟩ : ∃ month, month = monthOfYear day := ⟨_, rfl⟩
  simp only [dateOf, ← hmonth]
  rw [monthOfYear] at hmonth
  rcases Nat.lt_or_ge month 11 with hlt | hge
  · interval_cases month <;> simp [daysInMonth] <;> omega
  · obtain rfl : month = 11 := by omega
    have hfebruary : daysInMonth (year + 1) 2 = if isLeapYear (year + 1) then 29 else 28 := rfl
    by_cases hlast : day = 365
    · simp [hfebruary, hleap hlast, hlast]
    · refine ⟨by decide, by decide, by omega, ?_⟩
      change day - (153 * 11 + 2) / 5 + 1 ≤ daysInMonth (year + 1) 2
      rw [hfebruary]
      split <;> omega

/-- Counting to a date gives the days from which the date was made. -/
theorem daysOfDate_dateOf {year day : Nat} {era : Int} (hyear : year < 400) (hday : day ≤ 365) :
    daysOfDate (dateOf (year + era * 400) day).1 (dateOf (year + era * 400) day).2.1
      (dateOf (year + era * 400) day).2.2 =
        era * 146097 + daysBefore year + day - 719468 := by
  obtain ⟨month, hmonth⟩ : ∃ month, month = monthOfYear day := ⟨_, rfl⟩
  simp only [dateOf, ← hmonth]
  rw [monthOfYear] at hmonth
  have hera : (year + era * 400 : Int).fdiv 400 = era := by
    rw [Int.fdiv_eq_ediv_of_nonneg _ (by decide)]
    omega
  rw [daysOfDate, daysBefore]
  rcases Nat.lt_or_ge month 10 with hlt | hge
  · have hmarch : ((month + 3 : Nat) + 9 : Int) % 12 = month := by omega
    simp only [if_pos hlt, if_neg (show ¬ month + 3 ≤ 2 by omega), Int.add_zero, hera,
      Int.add_sub_cancel, hmarch]
    omega
  · have hmarch : ((month - 9 : Nat) + 9 : Int) % 12 = month := by omega
    simp only [if_neg (show ¬ month < 10 by omega), if_pos (show month - 9 ≤ 2 by omega),
      Int.add_sub_cancel, hera, hmarch]
    omega

theorem daysInMonth_le (y : Int) (m : Nat) : daysInMonth y m ≤ 31 := by
  unfold daysInMonth
  split
  · split <;> decide
  all_goals decide

/-- The date after so many days is in the calendar, and has these days before it. -/
theorem dateOfDays_spec (days : Int) :
    1 ≤ (dateOfDays days).2.1 ∧ (dateOfDays days).2.1 ≤ 12 ∧ 1 ≤ (dateOfDays days).2.2 ∧
      (dateOfDays days).2.2 ≤ daysInMonth (dateOfDays days).1 (dateOfDays days).2.1 ∧
      daysOfDate (dateOfDays days).1 (dateOfDays days).2.1 (dateOfDays days).2.2 = days := by
  obtain ⟨era, day, hdays, hday⟩ : ∃ (era : Int) (day : Nat),
      days + 719468 = era * 146097 + day ∧ day < 146097 :=
    ⟨(days + 719468) / 146097, ((days + 719468) % 146097).toNat, by omega, by omega⟩
  obtain ⟨c, q, y, r, hc, hq, hy, hr, hlast, hparts⟩ := exists_parts hday
  have hyear : yearOfEra day = 100 * c + 4 * q + y := by
    rw [hparts, yearOfEra_parts hc hq hy hr hlast]
  have hbefore : day = daysBefore (100 * c + 4 * q + y) + r := by
    rw [hparts, daysBefore_parts hq hy]
  rw [dateOfDays_eq hdays hday hyear hbefore]
  have hleap : r = 365 →
      isLeapYear (((100 * c + 4 * q + y : Nat) : Int) + era * 400 + 1) = true := by
    intro hr
    obtain ⟨rfl, hcentury⟩ := hlast hr
    simp only [isLeapYear, Bool.and_eq_true, Bool.or_eq_true, beq_iff_eq, bne_iff_ne]
    omega
  obtain ⟨hm, hm', hd, hd'⟩ := dateOf_valid hr hleap
  refine ⟨hm, hm', hd, hd', ?_⟩
  rw [daysOfDate_dateOf (by omega) hr]
  omega

end RtpBroker.Timestamp
