-- SUMMARY: The text of a date: what toISOString writes, and the instant that the server reads from it.
import TrueHack.Base.Decimal
import TrueHack.Go.Time

/-!
# The text of a date

`toISOString` writes a date of a year with four digits as RFC 3339 has it, and the
server reads the same instant back. Any other year begins with a sign, which the
server refuses.
-/

namespace Page

open Go

/-! ## The text -/

/-- A time value of a valid date: milliseconds since 1970, as far as dates go. -/
structure TimeValue where
  ms : ℤ
  bounded : ms.natAbs ≤ 8640000000000000

/-- `ToZeroPaddedDecimalString` -/
def toZeroPaddedDecimalString (n minLength : ℕ) : List Char :=
  (Nat.toDigits 10 n).leftpad minLength '0'

/-- The year of a date text. One that needs more than four digits, or is negative, has six
    and a sign. -/
def yearString (year : ℤ) : List Char :=
  if 0 ≤ year ∧ year ≤ 9999 then toZeroPaddedDecimalString year.toNat 4
  else (if year < 0 then '-' else '+') :: toZeroPaddedDecimalString year.natAbs 6

/-- `Date.prototype.toISOString` -/
def toISOString (tv : TimeValue) : String :=
  let (year, month, day) := Calendar.ofDays (tv.ms / 86400000)
  let inDay := (tv.ms % 86400000).toNat
  String.ofList (yearString year ++
    ['-'] ++ toZeroPaddedDecimalString month 2 ++
    ['-'] ++ toZeroPaddedDecimalString day 2 ++
    ['T'] ++ toZeroPaddedDecimalString (inDay / 3600000) 2 ++
    [':'] ++ toZeroPaddedDecimalString (inDay / 60000 % 60) 2 ++
    [':'] ++ toZeroPaddedDecimalString (inDay / 1000 % 60) 2 ++
    ['.'] ++ toZeroPaddedDecimalString (inDay % 1000) 3 ++ ['Z'])

example : toISOString ⟨1709186700500, by decide⟩ = "2024-02-29T06:05:00.500Z" := by decide

/-! ## Its minute -/

/-- `YearFromTime` -/
def yearFromTime (ms : ℤ) : ℤ := (Calendar.ofDays (ms / 86400000)).1

/-- The year has four digits. -/
def FourDigits (year : ℤ) : Prop := 0 ≤ year ∧ year ≤ 9999

instance (year : ℤ) : Decidable (FourDigits year) := inferInstanceAs (Decidable (_ ∧ _))

/-- A minute of such a year. -/
structure Minute where
  date : Calendar.Date
  hour : ℕ
  minute : ℕ
  fourDigits : FourDigits date.year
  hour_lt : hour < 24
  minute_lt : minute < 60

namespace Minute

variable (m : Minute)

/-- Its first millisecond, counted from 1970. -/
def ms : ℤ := m.date.toDays * 86400000 + (m.hour * 3600000 + m.minute * 60000 : ℕ)

/-- `YYYY-MM-DDTHH:mm`, and then `v`. -/
def text (v : List Char) : List Char :=
  Decimal.padded 4 m.date.year.toNat ++ '-' :: (Decimal.padded 2 m.date.month ++
    '-' :: (Decimal.padded 2 m.date.day ++ 'T' :: (Decimal.padded 2 m.hour ++
      ':' :: (Decimal.padded 2 m.minute ++ v))))

theorem year_lt : m.date.year.toNat < 10000 := by
  have h := m.fourDigits
  unfold FourDigits at h
  omega

theorem month_lt : m.date.month < 100 := by
  have h := m.date.month_le
  omega

theorem hour_lt' : m.hour < 100 := m.hour_lt.trans (by decide)

theorem minute_lt' : m.minute < 100 := m.minute_lt.trans (by decide)

theorem day_lt : m.date.day < 100 := by
  have h := m.date.day_le
  unfold Calendar.daysIn at h
  split at h
  · split at h <;> omega
  · split at h <;> omega

theorem toNat_year : ((m.date.year.toNat : ℕ) : ℤ) = m.date.year :=
  Int.toNat_of_nonneg m.fourDigits.1

theorem valid_date : 1 ≤ m.date.month ∧ m.date.month ≤ 12 ∧ 1 ≤ m.date.day ∧
    m.date.day ≤ Calendar.daysIn (m.date.year.toNat : ℕ) m.date.month := by
  rw [m.toNat_year]
  exact ⟨m.date.month_pos, m.date.month_le, m.date.day_pos, m.date.day_le⟩

theorem ofValid_date :
    Calendar.Date.ofValid (m.date.year.toNat : ℕ) m.date.month m.date.day m.valid_date =
      m.date := by
  simp only [Calendar.Date.ofValid, m.toNat_year]

theorem text_append (v : List Char) : m.text v = m.text [] ++ v := by
  simp [text]

theorem length_text : (m.text []).length = 16 := by
  simp [text, Decimal.length_padded (show 0 < 4 by decide) m.year_lt,
    Decimal.length_padded (show 0 < 2 by decide) m.month_lt,
    Decimal.length_padded (show 0 < 2 by decide) m.day_lt,
    Decimal.length_padded (show 0 < 2 by decide) m.hour_lt',
    Decimal.length_padded (show 0 < 2 by decide) m.minute_lt']

end Minute

/-- The text of a date in a year with four digits. -/
theorem toISOString_eq {tv : TimeValue} (h : FourDigits (yearFromTime tv.ms)) :
    ∃ (m : Minute) (second ms : ℕ), second < 60 ∧ ms < 1000 ∧
      m.date.year = yearFromTime tv.ms ∧ m.ms = tv.ms / 60000 * 60000 ∧
      m.ms + (second * 1000 + ms : ℕ) = tv.ms ∧
      toISOString tv = String.ofList (m.text (':' :: (Decimal.padded 2 second ++
        '.' :: (Decimal.padded 3 ms ++ ['Z'])))) := by
  obtain ⟨d, hd⟩ := Calendar.exists_toDays (tv.ms / 86400000)
  have hday : Calendar.ofDays (tv.ms / 86400000) = (d.year, d.month, d.day) := by
    rw [← hd, d.ofDays_toDays]
  have hyear : yearFromTime tv.ms = d.year := by rw [yearFromTime, hday]
  rw [hyear] at h
  let inDay := (tv.ms % 86400000).toNat
  have hinDay : (inDay : ℤ) = tv.ms % 86400000 := by
    simp only [inDay]
    omega
  refine ⟨⟨d, inDay / 3600000, inDay / 60000 % 60, h, by omega, by omega⟩, inDay / 1000 % 60,
    inDay % 1000, by omega, by omega, hyear.symm, ?_, ?_, ?_⟩
  · simp only [Minute.ms, hd]
    omega
  · simp only [Minute.ms, hd]
    omega
  · have hplain : yearString d.year = Decimal.padded 4 d.year.toNat := if_pos h
    unfold toISOString
    simp only [hday, hplain, Minute.text, toZeroPaddedDecimalString, Decimal.padded]
    simp [inDay]

/-- Any other year begins with a sign. -/
theorem toISOString_signed {tv : TimeValue} (h : ¬FourDigits (yearFromTime tv.ms)) :
    ∃ sign v, sign.isDigit = false ∧ toISOString tv = String.ofList (sign :: v) := by
  unfold toISOString
  unfold yearFromTime at h
  generalize Calendar.ofDays (tv.ms / 86400000) = date at h ⊢
  obtain ⟨year, month, day⟩ := date
  have hsigned : yearString year = _ := if_neg h
  simp only [hsigned, List.cons_append]
  refine ⟨_, _, ?_, rfl⟩
  split <;> rfl

/-! ## Read by the server -/

theorem getYear_padded {n : ℕ} (h : n < 10000) (v : List Char) :
    getYear (Decimal.padded 4 n ++ v) = some (n, v) := by
  obtain ⟨digits, hpadded, hlength, hdigits, hvalue⟩ :=
    Decimal.exists_digits (show 0 < 4 by decide) h
  rw [hpadded]
  match digits, hlength with
  | [a, b, c, d], _ =>
      rw [← hvalue]
      exact if_pos hdigits

theorem getnum_padded (fixed : Bool) {n : ℕ} (h : n < 100) (v : List Char) :
    getnum fixed (Decimal.padded 2 n ++ v) = some (n, v) := by
  obtain ⟨digits, hpadded, hlength, hdigits, hvalue⟩ :=
    Decimal.exists_digits (show 0 < 2 by decide) h
  rw [hpadded]
  match digits, hlength with
  | [a, b], _ =>
      have hvalue : atoi [a, b] = n := hvalue
      simp only [List.all_cons, List.all_nil, Bool.and_true, Bool.and_eq_true] at hdigits
      simp [getnum, hdigits, hvalue]

/-- Three digits after a dot are milliseconds. -/
theorem getFraction_padded {n : ℕ} (h : n < 1000) {c : Char} (hc : c.isDigit = false)
    (v : List Char) :
    getFraction ('.' :: (Decimal.padded 3 n ++ c :: v)) = (n * 1000000, c :: v) := by
  have htake := Decimal.takeWhile_padded 3 n hc v
  have hdrop := Decimal.dropWhile_padded 3 n hc v
  obtain ⟨digits, hpadded, hlength, hdigits, hvalue⟩ :=
    Decimal.exists_digits (show 0 < 3 by decide) h
  rw [hpadded] at htake hdrop ⊢
  have hnanoseconds : parseNanoseconds digits = n * 1000000 := by
    have hvalue : atoi digits = n := hvalue
    rw [parseNanoseconds, List.take_of_length_le (by omega), hvalue, hlength]
    norm_num
  match digits, hlength with
  | d :: ds, _ =>
      simp only [List.all_cons, Bool.and_eq_true] at hdigits
      rw [List.cons_append] at htake hdrop ⊢
      rw [getFraction, if_pos ⟨.inl rfl, hdigits.1⟩, htake, hdrop, hnanoseconds]

/-- A reading goes on behind what it has read. -/
theorem bind_of_some {α β : Type} {x : Option α} {a : α} (h : x = some a) (f : α → Option β) :
    x.bind f = f a := by
  rw [h, Option.bind_some]

/-- The server reads the numbers of the text. -/
theorem parse_text (m : Minute) {second ms : ℕ} (hsecond : second < 60) (hms : ms < 1000) :
    Stamp.parse (String.ofList (m.text (':' :: (Decimal.padded 2 second ++
      '.' :: (Decimal.padded 3 ms ++ ['Z']))))) =
    Stamp.check m.date.year.toNat m.date.month m.date.day m.hour m.minute second (ms * 1000000)
      none := by
  have hfraction := getFraction_padded hms (show 'Z'.isDigit = false by decide) []
  rw [Stamp.parse, String.toList_ofList]
  refine (bind_of_some (getYear_padded m.year_lt _) _).trans ?_
  refine (bind_of_some rfl _).trans ((bind_of_some (getnum_padded true m.month_lt _) _).trans ?_)
  refine (bind_of_some rfl _).trans ((bind_of_some (getnum_padded true m.day_lt _) _).trans ?_)
  refine (bind_of_some rfl _).trans ((bind_of_some (getnum_padded false m.hour_lt' _) _).trans ?_)
  refine (bind_of_some rfl _).trans
    ((bind_of_some (getnum_padded true m.minute_lt' _) _).trans ?_)
  refine (bind_of_some rfl _).trans
    ((bind_of_some (getnum_padded true (hsecond.trans (by decide)) _) _).trans ?_)
  dsimp only
  rw [hfraction]
  rfl

/-- So it accepts them. -/
theorem exists_stamp (m : Minute) {second ms : ℕ} (hsecond : second < 60) (hms : ms < 1000) :
    ∃ s, Stamp.check m.date.year.toNat m.date.month m.date.day m.hour m.minute second
        (ms * 1000000) none = some s ∧ s.date = m.date ∧ s.hour = m.hour ∧ s.minute = m.minute ∧
      s.second = second ∧ s.nsec = ms * 1000000 ∧ s.offset = none := by
  have hrest : m.date.year.toNat < 10000 ∧ m.hour < 24 ∧ m.minute < 60 ∧ second < 60 ∧
      ms * 1000000 < 1000000000 ∧ ((none : Option ℤ).getD 0).natAbs ≤ 1500 :=
    ⟨m.year_lt, m.hour_lt, m.minute_lt, hsecond, by omega, by decide⟩
  rw [Stamp.check, dif_pos m.valid_date, dif_pos hrest]
  exact ⟨_, rfl, m.ofValid_date, rfl, rfl, rfl, rfl, rfl⟩

/-- The server reads back the instant of a date, in a year with four digits. -/
theorem parseRFC3339_toISOString (loc : Location) (tv : TimeValue) :
    (parseRFC3339 loc (toISOString tv)).map Time.instant =
      if FourDigits (yearFromTime tv.ms) then some (tv.ms * 1000000) else none := by
  split
  · rename_i hyear
    obtain ⟨m, second, ms, hsecond, hms, _, _, hinstant, htext⟩ := toISOString_eq hyear
    obtain ⟨s, hstamp, hdate, hhour, hminute, hsec, hnsec, hoffset⟩ := exists_stamp m hsecond hms
    rw [htext, parseRFC3339, parse_text m hsecond hms, hstamp, Option.map_some, Option.map_some,
      Option.some.injEq, ← hinstant]
    simp only [Time.instant, Stamp.time, Stamp.unix, Stamp.wall, hdate, hhour, hminute, hsec, hnsec,
      hoffset, Option.getD_none, Minute.ms]
    push_cast
    omega
  · rename_i hyear
    obtain ⟨sign, v, hsign, htext⟩ := toISOString_signed hyear
    have hrefused : getYear (sign :: v) = none := by
      unfold getYear
      split
      · rename_i heq
        cases heq
        simp [hsign]
      · rfl
    have hparse : Stamp.parse (toISOString tv) = none := by
      rw [htext, Stamp.parse, String.toList_ofList, hrefused]
      rfl
    rw [parseRFC3339, hparse]
    rfl

end Page
