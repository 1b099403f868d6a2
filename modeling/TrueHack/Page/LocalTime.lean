-- SUMMARY: Local times in the browser: the value of a datetime-local input, and the date that it stands for.
import TrueHack.Page.DateText

/-!
# Local times

A `datetime-local` input keeps a text only if it is a local date and time, without
a zone. `new Date` reads such a text on the user's clock, which is `zone`
milliseconds ahead of UTC.
-/

namespace Page

open Go

/-! ## The input -/

/-- The seconds of a time, as short as they can be written; `none` if they are not valid. -/
def shortSeconds : List Char → Option (List Char)
  | [] => some []
  | ':' :: v => do
      let (second, v) ← Decimal.read 2 v
      let fraction ← match v with
        | [] => some []
        | '.' :: digits =>
            if 1 ≤ digits.length ∧ digits.length ≤ 3 ∧ digits.all Char.isDigit then
              some (digits.rdropWhile (· = '0'))
            else none
        | _ => none
      if 60 ≤ second then none
      else if fraction ≠ [] then some (':' :: (Decimal.padded 2 second ++ '.' :: fraction))
      else if second ≠ 0 then some (':' :: Decimal.padded 2 second)
      else some []
  | _ => none

/-- A valid local date and time string in its normal form. -/
def normalized (value : List Char) : Option (List Char) :=
  let digits := value.takeWhile Char.isDigit
  let year := Nat.ofDigitChars 10 digits 0
  if digits.length < 4 ∨ year = 0 then none
  else do
    let v ← skip '-' (value.dropWhile Char.isDigit)
    let (month, v) ← Decimal.read 2 v
    let v ← skip '-' v
    let (day, v) ← Decimal.read 2 v
    let v ← (skip 'T' v).or (skip ' ' v)
    let (hour, v) ← Decimal.read 2 v
    let v ← skip ':' v
    let (minute, v) ← Decimal.read 2 v
    let seconds ← shortSeconds v
    if 1 ≤ month ∧ month ≤ 12 ∧ 1 ≤ day ∧ day ≤ Calendar.daysIn year month ∧ hour < 24 ∧
        minute < 60 then
      some (digits ++ '-' :: (Decimal.padded 2 month ++ '-' :: (Decimal.padded 2 day ++
        'T' :: (Decimal.padded 2 hour ++ ':' :: (Decimal.padded 2 minute ++ seconds)))))
    else none

/-- The value of a `datetime-local` input that is set to `value`. -/
def sanitize (value : String) : String := String.ofList ((normalized value.toList).getD [])

example : sanitize "2024-02-29 06:05:30.500" = "2024-02-29T06:05:30.5" := by decide
example : sanitize "2024-02-30T06:05" = "" := by decide

/-! ## Reading it -/

/-- `TimeClip` -/
def timeClip (ms : ℤ) : Option TimeValue :=
  if h : ms.natAbs ≤ 8640000000000000 then some ⟨ms, h⟩ else none

/-- Four digits, or a sign and six. -/
def readYear : List Char → Option (ℤ × List Char)
  | '+' :: v => do
      let (year, v) ← Decimal.read 6 v
      some (year, v)
  | '-' :: v => do
      let (year, v) ← Decimal.read 6 v
      if year = 0 then none else some (-year, v)
  | v => do
      let (year, v) ← Decimal.read 4 v
      some (year, v)

/-- A number behind its mark, or `missing` if there is no such mark. -/
def readPart (mark : Char) (width missing : ℕ) : List Char → Option (ℕ × List Char)
  | c :: v => if c = mark then Decimal.read width v else some (missing, c :: v)
  | [] => some (missing, [])

/-- Seconds and milliseconds, if there are any. -/
def readSeconds : List Char → Option (ℕ × ℕ × List Char)
  | ':' :: v => do
      let (second, v) ← Decimal.read 2 v
      let (ms, v) ← readPart '.' 3 0 v
      some (second, ms, v)
  | v => some (0, 0, v)

/-- How far the text's clock is ahead of UTC; a text that does not say is local. -/
def readOffset (zone : ℤ) : List Char → Option ℤ
  | [] => some zone
  | ['Z'] => some 0
  | sign :: v => do
      let (hour, v) ← Decimal.read 2 v
      let v ← skip ':' v
      let (minute, v) ← Decimal.read 2 v
      if v ≠ [] ∨ 24 ≤ hour ∨ 60 ≤ minute then none
      else if sign = '+' then some (hour * 3600000 + minute * 60000 : ℕ)
      else if sign = '-' then some (-(hour * 3600000 + minute * 60000 : ℕ))
      else none

/-- Milliseconds from the midnight of the date in UTC. A date without a time is in UTC. -/
def readTime (zone : ℤ) : List Char → Option ℤ
  | [] => some 0
  | 'T' :: v => do
      let (hour, v) ← Decimal.read 2 v
      let v ← skip ':' v
      let (minute, v) ← Decimal.read 2 v
      let (second, ms, v) ← readSeconds v
      let offset ← readOffset zone v
      if minute < 60 ∧ second < 60 ∧
          (hour < 24 ∨ hour = 24 ∧ minute = 0 ∧ second = 0 ∧ ms = 0) then
        some ((hour * 3600000 + minute * 60000 + second * 1000 + ms : ℕ) - offset)
      else none
  | _ => none

/-- `new Date(text)`, where the user's clock is `zone` milliseconds ahead of UTC; `none` is
    an invalid date. -/
def newDate (zone : ℤ) (text : String) : Option TimeValue := do
  let (year, v) ← readYear text.toList
  let (month, v) ← readPart '-' 2 1 v
  let (day, v) ← readPart '-' 2 1 v
  let time ← readTime zone v
  if h : 1 ≤ month ∧ month ≤ 12 ∧ 1 ≤ day ∧ day ≤ Calendar.daysIn year month then
    let date := Calendar.Date.ofValid year month day h
    timeClip (date.toDays * 86400000 + time)
  else none

example : (newDate 10800000 "2024-02-29T06:05").map toISOString =
    some "2024-02-29T03:05:00.000Z" := by decide

/-! ## A minute in the input -/

namespace Minute

variable (m : Minute)

/-- A minute is its own normal form, but for the year 0. -/
theorem normalized_text :
    normalized (m.text []) = if m.date.year = 0 then none else some (m.text []) := by
  have hlength : (Decimal.padded 4 m.date.year.toNat).length = 4 :=
    Decimal.length_padded (by decide) m.year_lt
  have hdash : '-'.isDigit = false := by decide
  have hzero : m.date.year.toNat = 0 ↔ m.date.year = 0 := by
    have hnonneg := m.fourDigits.1
    omega
  unfold normalized text
  rw [Decimal.takeWhile_padded _ _ hdash, Decimal.dropWhile_padded _ _ hdash]
  dsimp only
  rw [hlength, Decimal.ofDigitChars_padded]
  by_cases hyear : m.date.year = 0
  · rw [if_pos hyear, if_pos (.inr (hzero.mpr hyear))]
  · rw [if_neg hyear, if_neg (by simpa [hzero] using hyear)]
    have hvalid : 1 ≤ m.date.month ∧ m.date.month ≤ 12 ∧ 1 ≤ m.date.day ∧
        m.date.day ≤ Calendar.daysIn (m.date.year.toNat : ℕ) m.date.month ∧ m.hour < 24 ∧
        m.minute < 60 := by
      obtain ⟨hmonth, hmonth', hday, hday'⟩ := m.valid_date
      exact ⟨hmonth, hmonth', hday, hday', m.hour_lt, m.minute_lt⟩
    have htwo : 0 < 2 := by decide
    simp only [skip, if_true, Option.bind_eq_bind, Option.bind_some,
      Decimal.read_padded htwo m.month_lt, Decimal.read_padded htwo m.day_lt,
      Option.some_or, Decimal.read_padded htwo m.hour_lt', Decimal.read_padded htwo m.minute_lt',
      show shortSeconds [] = some [] from rfl, if_pos hvalid]

end Minute

theorem readYear_padded {n : ℕ} (h : n < 10000) (v : List Char) :
    readYear (Decimal.padded 4 n ++ v) = some ((n : ℤ), v) := by
  have hread := Decimal.read_padded (show 0 < 4 by decide) h v
  obtain ⟨digits, hpadded, hlength, hdigits, _⟩ := Decimal.exists_digits (show 0 < 4 by decide) h
  rw [hpadded] at hread ⊢
  match digits, hlength with
  | d :: ds, _ =>
      simp only [List.all_cons, Bool.and_eq_true] at hdigits
      rw [List.cons_append] at hread ⊢
      unfold readYear
      split
      · rename_i heq
        cases heq
        exact absurd hdigits.1 (by decide)
      · rename_i heq
        cases heq
        exact absurd hdigits.1 (by decide)
      · rw [hread]
        rfl

/-- A minute is read on the user's clock. -/
theorem Minute.newDate_text (m : Minute) (zone : ℤ) :
    newDate zone (String.ofList (m.text [])) = timeClip (m.ms - zone) := by
  have htwo : 0 < 2 := by decide
  have htime : readTime zone ('T' :: (Decimal.padded 2 m.hour ++
      ':' :: (Decimal.padded 2 m.minute ++ []))) =
      some ((m.hour * 3600000 + m.minute * 60000 : ℕ) - zone) := by
    simp only [readTime, Decimal.read_padded htwo m.hour_lt', skip, if_true, Option.bind_eq_bind,
      Option.bind_some, Decimal.read_padded htwo m.minute_lt', readSeconds, readOffset,
      zero_mul, add_zero]
    exact if_pos ⟨m.minute_lt, by decide, .inl m.hour_lt⟩
  simp only [newDate, String.toList_ofList, text, readYear_padded m.year_lt, readPart, if_true,
    Decimal.read_padded htwo m.month_lt, Decimal.read_padded htwo m.day_lt, htime,
    Option.bind_eq_bind, Option.bind_some, dif_pos m.valid_date, m.ofValid_date]
  rw [Minute.ms, add_sub_assoc]

end Page
