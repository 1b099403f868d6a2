-- SUMMARY: The proleptic Gregorian calendar: valid dates, their day numbers, and the way back.
import Mathlib.Tactic.IntervalCases

/-!
# Calendar

Days are counted from 1970-01-01. The count runs through years that begin in
March, so that the leap day is the last day of its year, and through eras of 400
years, which all have the same number of days.
-/

namespace Calendar

def isLeap (year : ℤ) : Bool :=
  year % 4 = 0 && (year % 100 ≠ 0 || year % 400 = 0)

/-- The number of days of a month. -/
def daysIn (year : ℤ) (month : ℕ) : ℕ :=
  if month = 2 then if isLeap year then 29 else 28
  else if month = 4 ∨ month = 6 ∨ month = 9 ∨ month = 11 then 30
  else 31

/-- A day of the calendar. -/
structure Date where
  year : ℤ
  month : ℕ
  day : ℕ
  month_pos : 1 ≤ month
  month_le : month ≤ 12
  day_pos : 1 ≤ day
  day_le : day ≤ daysIn year month

/-- The date of numbers in their ranges. -/
def Date.ofValid (year : ℤ) (month day : ℕ)
    (h : 1 ≤ month ∧ month ≤ 12 ∧ 1 ≤ day ∧ day ≤ daysIn year month) : Date :=
  ⟨year, month, day, h.1, h.2.1, h.2.2.1, h.2.2.2⟩

/-- Days before month `mp` of a year that begins in March (`mp = 0`). -/
def daysBefore (mp : ℕ) : ℕ := (153 * mp + 2) / 5

/-- Days of an era before its year `yoe`. -/
def eraDays (yoe : ℕ) : ℕ := 365 * yoe + yoe / 4 - yoe / 100

namespace Date

variable (d : Date)

/-- The year that begins in the March before `d`. -/
def marchYear : ℤ := if d.month ≤ 2 then d.year - 1 else d.year

/-- The month of `d`, counted from March. -/
def marchMonth : ℕ := (d.month + 9) % 12

/-- The day of the year that begins in March. -/
def dayOfYear : ℕ := daysBefore d.marchMonth + (d.day - 1)

/-- Days since 1970-01-01. -/
def toDays : ℤ :=
  d.marchYear / 400 * 146097 + (eraDays (d.marchYear % 400).toNat + d.dayOfYear : ℕ) - 719468

end Date

/-- The year of an era that a day of it falls into. Only the last century of an era,
    and the last year of four, has the extra day, hence the minima. -/
def yearOfEra (doe : ℕ) : ℕ :=
  let century := min 3 (doe / 36524)
  let inCentury := doe - 36524 * century
  let four := inCentury / 1461
  let inFour := inCentury % 1461
  100 * century + 4 * four + min 3 (inFour / 365)

/-- The month from March and the day of the month of a day of the year. -/
def monthOfYear (doy : ℕ) : ℕ × ℕ :=
  let mp := (5 * doy + 2) / 153
  (mp, doy - daysBefore mp + 1)

/-- Year, month and day of a day number. -/
def ofDays (days : ℤ) : ℤ × ℕ × ℕ :=
  let era := (days + 719468) / 146097
  let doe := ((days + 719468) % 146097).toNat
  let yoe := yearOfEra doe
  let (mp, day) := monthOfYear (doe - eraDays yoe)
  let month := if mp < 10 then mp + 3 else mp - 9
  (400 * era + yoe + if month ≤ 2 then 1 else 0, month, day)

/-! ## The way back -/

/-- The number of days of a year that begins in March. -/
def yearDays (yoe : ℕ) : ℕ := if isLeap (yoe + 1) then 366 else 365

theorem isLeap_iff {year : ℤ} :
    isLeap year = true ↔ year % 4 = 0 ∧ (year % 100 ≠ 0 ∨ year % 400 = 0) := by
  simp [isLeap]

/-- Eras repeat. -/
theorem isLeap_emod (year : ℤ) : isLeap (year % 400 + 1) = isLeap (year + 1) := by
  rw [Bool.eq_iff_iff, isLeap_iff, isLeap_iff]
  omega

/-- The days of an era, year by year. -/
theorem eraDays_eq {a b c : ℕ} (hb : b < 25) (hc : c < 4) :
    eraDays (100 * a + 4 * b + c) = 36524 * a + 1461 * b + 365 * c := by
  unfold eraDays
  omega

/-- The last year of four has 366 days, but not that of the first three centuries. -/
theorem yearDays_cases {a b c : ℕ} (ha : a < 4) (hb : b < 25) (hc : c < 4) :
    yearDays (100 * a + 4 * b + c) = 366 ∧ c = 3 ∧ (b ≠ 24 ∨ a = 3) ∨
      yearDays (100 * a + 4 * b + c) = 365 ∧ ¬(c = 3 ∧ (b ≠ 24 ∨ a = 3)) := by
  have hleap : isLeap ((100 * a + 4 * b + c : ℕ) + 1) = true ↔ c = 3 ∧ (b ≠ 24 ∨ a = 3) := by
    rw [isLeap_iff]
    omega
  unfold yearDays
  split
  · rename_i h
    exact .inl ⟨rfl, hleap.mp h⟩
  · rename_i h
    exact .inr ⟨rfl, mt hleap.mpr h⟩

/-- A year of an era, cut into century, group of four and year. -/
theorem exists_century {yoe : ℕ} (h : yoe < 400) :
    ∃ a b c, a < 4 ∧ b < 25 ∧ c < 4 ∧ yoe = 100 * a + 4 * b + c :=
  ⟨yoe / 100, yoe % 100 / 4, yoe % 4, by omega, by omega, by omega, by omega⟩

theorem yearOfEra_eraDays {yoe doy : ℕ} (h : yoe < 400) (hdoy : doy < yearDays yoe) :
    yearOfEra (eraDays yoe + doy) = yoe := by
  obtain ⟨a, b, c, ha, hb, hc, rfl⟩ := exists_century h
  have hyear := yearDays_cases ha hb hc
  rw [eraDays_eq hb hc]
  generalize yearDays (100 * a + 4 * b + c) = days at hdoy hyear
  have hcentury : min 3 ((36524 * a + 1461 * b + 365 * c + doy) / 36524) = a := by omega
  have hrest : 36524 * a + 1461 * b + 365 * c + doy - 36524 * a = 1461 * b + (365 * c + doy) := by
    omega
  have hfour : (1461 * b + (365 * c + doy)) / 1461 = b := by omega
  have hinFour : (1461 * b + (365 * c + doy)) % 1461 = 365 * c + doy := by omega
  have hone : min 3 ((365 * c + doy) / 365) = c := by omega
  simp only [yearOfEra, hcentury, hrest, hfour, hinFour, hone]

theorem eraDays_lt {yoe doy : ℕ} (h : yoe < 400) (hdoy : doy < yearDays yoe) :
    eraDays yoe + doy < 146097 := by
  obtain ⟨a, b, c, ha, hb, hc, rfl⟩ := exists_century h
  have hyear := yearDays_cases ha hb hc
  rw [eraDays_eq hb hc]
  omega

namespace Date

variable (d : Date)

theorem marchMonth_lt : d.marchMonth < 12 := Nat.mod_lt _ (by decide)

/-- A month from March has the days up to the next one; the last has one more in a
    leap year. -/
theorem day_bounds : d.dayOfYear < daysBefore (d.marchMonth + 1) ∧
    d.dayOfYear < yearDays (d.marchYear % 400).toNat := by
  have hyear : (((d.marchYear % 400).toNat : ℕ) : ℤ) = d.marchYear % 400 := by omega
  obtain ⟨year, month, day, hpos, hle, hday, hdays⟩ := d
  unfold yearDays dayOfYear marchMonth daysBefore
  rw [hyear, isLeap_emod]
  unfold marchYear
  clear hyear
  dsimp only
  interval_cases month <;> simp [daysIn] at hdays ⊢ <;> grind

theorem monthOfYear_dayOfYear : monthOfYear d.dayOfYear = (d.marchMonth, d.day) := by
  have hmonth := d.marchMonth_lt
  have hnext := d.day_bounds.1
  have hpos := d.day_pos
  have hmp : (5 * d.dayOfYear + 2) / 153 = d.marchMonth := by
    unfold dayOfYear daysBefore at *
    omega
  have hday : d.dayOfYear - daysBefore d.marchMonth + 1 = d.day := by
    unfold dayOfYear
    omega
  simp only [monthOfYear, hmp, hday]

/-- A day number determines the date. -/
theorem ofDays_toDays : ofDays d.toDays = (d.year, d.month, d.day) := by
  have hyoe : (d.marchYear % 400).toNat < 400 := by omega
  have hdoy := d.day_bounds.2
  have hlt := eraDays_lt hyoe hdoy
  have hera : (d.toDays + 719468) / 146097 = d.marchYear / 400 := by
    unfold toDays
    omega
  have hdoe : ((d.toDays + 719468) % 146097).toNat =
      eraDays (d.marchYear % 400).toNat + d.dayOfYear := by
    unfold toDays
    omega
  have hmonth : (if d.marchMonth < 10 then d.marchMonth + 3 else d.marchMonth - 9) = d.month := by
    have := d.month_pos
    have := d.month_le
    unfold marchMonth
    grind
  have hyear : 400 * (d.marchYear / 400) + ((d.marchYear % 400).toNat : ℤ) +
      (if d.month ≤ 2 then 1 else 0) = d.year := by
    unfold marchYear
    split <;> omega
  simp only [ofDays, hera, hdoe, yearOfEra_eraDays hyoe hdoy, Nat.add_sub_cancel_left,
    monthOfYear_dayOfYear, hmonth, hyear]

end Date

example : ofDays 0 = (1970, 1, 1) := by decide
example : ofDays 19782 = (2024, 2, 29) := by decide

/-! ## Every day is a date -/

/-- Every day of an era falls into its year. -/
theorem yearOfEra_spec (doe : ℕ) (h : doe < 146097) :
    yearOfEra doe < 400 ∧ eraDays (yearOfEra doe) ≤ doe ∧
      doe - eraDays (yearOfEra doe) < yearDays (yearOfEra doe) := by
  obtain ⟨a, ha⟩ : ∃ a, a = min 3 (doe / 36524) := ⟨_, rfl⟩
  obtain ⟨b, hb⟩ : ∃ b, b = (doe - 36524 * a) / 1461 := ⟨_, rfl⟩
  obtain ⟨c, hc⟩ : ∃ c, c = min 3 ((doe - 36524 * a) % 1461 / 365) := ⟨_, rfl⟩
  have hyear : yearOfEra doe = 100 * a + 4 * b + c := by
    rw [yearOfEra, ← ha, ← hb, ← hc]
  have hb' : b < 25 := by omega
  have hdays := yearDays_cases (show a < 4 by omega) hb' (show c < 4 by omega)
  rw [hyear, eraDays_eq hb' (by omega)]
  refine ⟨by omega, by omega, ?_⟩
  omega

/-- Every day of a year that begins in March is a date. -/
theorem exists_dayOfYear (year : ℤ) {doy : ℕ} (h : doy < yearDays (year % 400).toNat) :
    ∃ d : Date, d.marchYear = year ∧ d.dayOfYear = doy := by
  have hyear : (((year % 400).toNat : ℕ) : ℤ) = year % 400 := by omega
  rw [yearDays, hyear, isLeap_emod] at h
  have hbound : doy < 366 := h.trans_le (by split <;> decide)
  obtain ⟨mp, hmp⟩ : ∃ mp, mp = (5 * doy + 2) / 153 := ⟨_, rfl⟩
  have hfirst : daysBefore mp ≤ doy := by
    unfold daysBefore
    omega
  have hlast : doy < daysBefore (mp + 1) := by
    unfold daysBefore
    omega
  have hlt : mp < 12 := by omega
  clear hyear hmp
  -- each month has its own number of days
  have hday : doy - daysBefore mp + 1 ≤ daysIn (if mp < 10 then year else year + 1)
      (if mp < 10 then mp + 3 else mp - 9) := by
    interval_cases mp <;> simp [daysIn, daysBefore] at hfirst hlast ⊢ <;> grind
  have hmonth : 1 ≤ (if mp < 10 then mp + 3 else mp - 9) ∧
      (if mp < 10 then mp + 3 else mp - 9) ≤ 12 := by
    split <;> omega
  refine ⟨⟨_, _, _, hmonth.1, hmonth.2, Nat.succ_pos _, hday⟩, ?_, ?_⟩
  · unfold Date.marchYear
    grind
  · have hmarch : ((if mp < 10 then mp + 3 else mp - 9) + 9) % 12 = mp := by
      split <;> omega
    simp only [Date.dayOfYear, Date.marchMonth, hmarch]
    omega

/-- Every day number is that of a date. -/
theorem exists_toDays (days : ℤ) : ∃ d : Date, d.toDays = days := by
  obtain ⟨doe, hdoe⟩ : ∃ doe, doe = ((days + 719468) % 146097).toNat := ⟨_, rfl⟩
  obtain ⟨hyoe, hle, hlt⟩ := yearOfEra_spec doe (by omega)
  generalize yearOfEra doe = yoe at hyoe hle hlt
  have hrest : ((400 * ((days + 719468) / 146097) + (yoe : ℤ)) % 400).toNat = yoe := by omega
  have hera : (400 * ((days + 719468) / 146097) + (yoe : ℤ)) / 400 =
      (days + 719468) / 146097 := by omega
  obtain ⟨d, hyear, hday⟩ := exists_dayOfYear (400 * ((days + 719468) / 146097) + yoe)
    (by rwa [hrest])
  refine ⟨d, ?_⟩
  rw [Date.toDays, hyear, hday, hera, hrest]
  omega

end Calendar
