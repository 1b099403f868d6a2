-- SUMMARY: Go's time.Time with its zone: RFC 3339 parsing and the default text form.
import Mathlib.Data.List.DropRight
import TrueHack.Base.Calendar

/-!
# Times

A `Time` keeps the zone that is in effect at its instant, name and offset, so a
location matters only where a text is parsed. `parseRFC3339` is
`time.Parse(time.RFC3339, _)` with everything that layout admits: an hour of one
digit, any number of fractional digits after a dot or a comma, and offsets up to
`24:60`.
-/

namespace Go

/-- A zone: its abbreviation, and seconds east of UTC. -/
structure Zone where
  name : String
  offset : ℤ
deriving DecidableEq, Repr

/-- `time.UTC` -/
def Zone.utc : Zone := ⟨"UTC", 0⟩

/-- `time.FixedZone("", offset)` -/
def Zone.fixed (offset : ℤ) : Zone := ⟨"", offset⟩

/-- `time.Time` without a monotonic clock reading. -/
structure Time where
  unix : ℤ
  nsec : ℕ
  zone : Zone
  nsec_lt : nsec < 1000000000
deriving DecidableEq

/-- The nanoseconds of a whole second. -/
theorem zero_lt_second : 0 < 1000000000 := by decide

/-- `time.Local`: the zone in effect at each instant. Abbreviations follow the time
    zone database: a dash can only be the sign of a numeric one, and at offset zero
    an abbreviation that could be confused with `UTC` is `UTC`. -/
structure Location where
  lookup : ℤ → Zone
  dash : ∀ unix, '-' ∉ (lookup unix).name.toList.tail
  utc : ∀ unix, (lookup unix).offset = 0 → (lookup unix).name ≠ "" →
    ("UTC".toList <+: (lookup unix).name.toList ∨ (lookup unix).name.toList <+: "UTC".toList) →
    (lookup unix).name = "UTC"

/-- A machine that runs in UTC. -/
def Location.ofUTC : Location where
  lookup _ := .utc
  dash _ := by decide
  utc _ _ _ _ := rfl

namespace Time

/-- Nanoseconds since 1970-01-01 00:00:00 UTC. -/
def instant (t : Time) : ℤ := t.unix * 1000000000 + t.nsec

/-- `Time.Equal`: the same instant, whatever the zones. -/
def equal (t u : Time) : Bool := t.unix = u.unix && t.nsec = u.nsec

theorem equal_iff {t u : Time} : t.equal u = true ↔ t.unix = u.unix ∧ t.nsec = u.nsec := by
  simp [equal]

end Time

/-! ## Text -/

/-- `appendInt`: `x` in decimal, with zeros up to `width`. -/
def appendInt (x : ℤ) (width : ℕ) : List Char :=
  let u := x.natAbs
  let digits :=
    if width = 2 ∧ u < 100 then [u / 10, u % 10].map Nat.digitChar
    else if width = 4 ∧ u < 10000 then
      [u / 1000, u / 100 % 10, u / 10 % 10, u % 10].map Nat.digitChar
    else
      let ds := Nat.toDigits 10 u
      List.replicate (width - ds.length) '0' ++ ds
  if x < 0 then '-' :: digits else digits

/-- The nine digits of a nanosecond count. -/
def nineDigits (nsec : ℕ) : List Char :=
  [100000000, 10000000, 1000000, 100000, 10000, 1000, 100, 10, 1].map fun p =>
    Nat.digitChar (nsec / p % 10)

/-- The layout element `.999999999`: no trailing zeros, and nothing for zero. -/
def formatFraction (nsec : ℕ) : List Char :=
  match (nineDigits nsec).rdropWhile (· = '0') with
  | [] => []
  | digits => '.' :: digits

/-- The layout element `-0700`, with `sep` between hours and minutes. -/
def formatOffset (offset : ℤ) (sep : List Char) : List Char :=
  let minutes := offset.tdiv 60
  let u := minutes.natAbs
  (if minutes < 0 then '-' else '+') :: appendInt (u / 60 : ℕ) 2 ++ sep ++ appendInt (u % 60 : ℕ) 2

/-- The layout element `MST`. A zone without a name shows its offset. -/
def Zone.format (z : Zone) : List Char :=
  if z.name = "" then formatOffset z.offset [] else z.name.toList

namespace Time

variable (t : Time)

/-- Seconds since 1970-01-01 00:00:00 on a clock in `t`'s zone. -/
def wall : ℤ := t.unix + t.zone.offset

/-- The layout element `2006-01-02`. -/
def formatDate : List Char :=
  let (year, month, day) := Calendar.ofDays (t.wall / 86400)
  appendInt year 4 ++ '-' :: appendInt month 2 ++ '-' :: appendInt day 2

/-- The layout element `15:04:05`. -/
def formatClock : List Char :=
  let sec := (t.wall % 86400).toNat
  appendInt (sec / 3600 : ℕ) 2 ++ ':' :: appendInt (sec / 60 % 60 : ℕ) 2 ++
    ':' :: appendInt (sec % 60 : ℕ) 2

/-- `2006-01-02 15:04:05.999999999 -0700 MST` -/
def chars : List Char :=
  t.formatDate ++ ' ' :: t.formatClock ++ formatFraction t.nsec ++
    ' ' :: formatOffset t.zone.offset [] ++ ' ' :: t.zone.format

/-- `Time.String` -/
def string : String := String.ofList t.chars

/-- `Time.Format(time.RFC3339)` -/
def formatRFC3339 : String :=
  String.ofList (t.formatDate ++ 'T' :: t.formatClock ++
    if t.zone.offset = 0 then ['Z'] else formatOffset t.zone.offset [':'])

end Time

/-! ## Parsing -/

/-- The value of a decimal digit. -/
def digitVal (c : Char) : ℕ := c.toNat - '0'.toNat

/-- The value of a digit sequence. -/
def atoi (digits : List Char) : ℕ := digits.foldl (fun n c => 10 * n + digitVal c) 0

/-- `getnum`: two digits, or one where `fixed` does not ask for two. -/
def getnum (fixed : Bool) : List Char → Option (ℕ × List Char)
  | c :: d :: v =>
      if !c.isDigit then none
      else if d.isDigit then some (atoi [c, d], v)
      else if fixed then none
      else some (digitVal c, d :: v)
  | [c] => if c.isDigit && !fixed then some (digitVal c, []) else none
  | [] => none

/-- `skip`: the literal text of a layout. -/
def skip (c : Char) : List Char → Option (List Char)
  | d :: v => if d = c then some v else none
  | [] => none

/-- The layout element `2006`. -/
def getYear : List Char → Option (ℕ × List Char)
  | a :: b :: c :: d :: v =>
      if [a, b, c, d].all Char.isDigit then some (atoi [a, b, c, d], v) else none
  | _ => none

/-- `parseNanoseconds`: at most nine fractional digits count. -/
def parseNanoseconds (digits : List Char) : ℕ :=
  atoi (digits.take 9) * 10 ^ (9 - (digits.take 9).length)

/-- A fraction after the seconds, which the layout does not mention. -/
def getFraction : List Char → ℕ × List Char
  | c :: d :: v =>
      if (c = '.' ∨ c = ',') ∧ d.isDigit then
        (parseNanoseconds ((d :: v).takeWhile Char.isDigit), (d :: v).dropWhile Char.isDigit)
      else (0, c :: d :: v)
  | v => (0, v)

/-- The layout element `Z07:00`; `none` is the letter, otherwise minutes. -/
def getOffset : List Char → Option (Option ℤ × List Char)
  | 'Z' :: v => some (none, v)
  | sign :: v => do
      let (hr, v) ← getnum true v
      let v ← skip ':' v
      let (mm, v) ← getnum true v
      if hr > 24 ∨ mm > 60 then none
      else if sign = '+' then some (some (hr * 60 + mm : ℕ), v)
      else if sign = '-' then some (some (-(hr * 60 + mm : ℕ)), v)
      else none
  | [] => none

/-- What a well-formed RFC 3339 text says. -/
structure Stamp where
  date : Calendar.Date
  hour : ℕ
  minute : ℕ
  second : ℕ
  nsec : ℕ
  /-- Minutes east of UTC, or `none` for the letter `Z`. -/
  offset : Option ℤ
  year_nonneg : 0 ≤ date.year
  year_lt : date.year < 10000
  hour_lt : hour < 24
  minute_lt : minute < 60
  second_lt : second < 60
  nsec_lt : nsec < 1000000000
  offset_le : (offset.getD 0).natAbs ≤ 1500

namespace Stamp

/-- Seconds since 1970-01-01 00:00:00 on a clock in the stamp's own zone. -/
def wall (s : Stamp) : ℤ :=
  s.date.toDays * 86400 + (s.hour * 3600 + s.minute * 60 + s.second : ℕ)

/-- The instant the stamp names, in seconds. -/
def unix (s : Stamp) : ℤ := s.wall - s.offset.getD 0 * 60

/-- A numeric offset stands for the local zone if that has the same offset at the
    instant, and otherwise for a zone without a name. -/
def zone (loc : Location) (s : Stamp) : Zone :=
  match s.offset with
  | none => .utc
  | some minutes =>
      if (loc.lookup s.unix).offset = minutes * 60 then loc.lookup s.unix
      else .fixed (minutes * 60)

def time (loc : Location) (s : Stamp) : Time := ⟨s.unix, s.nsec, s.zone loc, s.nsec_lt⟩

/-- The range checks of `time.Parse`. -/
def check (year month day hour minute second nsec : ℕ) (offset : Option ℤ) : Option Stamp :=
  if hdate : 1 ≤ month ∧ month ≤ 12 ∧ 1 ≤ day ∧ day ≤ Calendar.daysIn year month then
    if h : year < 10000 ∧ hour < 24 ∧ minute < 60 ∧ second < 60 ∧ nsec < 1000000000 ∧
        (offset.getD 0).natAbs ≤ 1500 then
      some {
        date := ⟨year, month, day, hdate.1, hdate.2.1, hdate.2.2.1, hdate.2.2.2⟩
        hour, minute, second, nsec, offset
        year_nonneg := Int.natCast_nonneg year
        year_lt := by simpa using h.1
        hour_lt := h.2.1
        minute_lt := h.2.2.1
        second_lt := h.2.2.2.1
        nsec_lt := h.2.2.2.2.1
        offset_le := h.2.2.2.2.2 }
    else none
  else none

/-- The fields of an RFC 3339 text. -/
def parse (value : String) : Option Stamp := do
  let (year, v) ← getYear value.toList
  let v ← skip '-' v
  let (month, v) ← getnum true v
  let v ← skip '-' v
  let (day, v) ← getnum true v
  let v ← skip 'T' v
  let (hour, v) ← getnum false v
  let v ← skip ':' v
  let (minute, v) ← getnum true v
  let v ← skip ':' v
  let (second, v) ← getnum true v
  let (nsec, v) := getFraction v
  let (offset, v) ← getOffset v
  if v.isEmpty then check year month day hour minute second nsec offset else none

end Stamp

/-- `time.Parse(time.RFC3339, value)` on a machine in the location `loc`. -/
def parseRFC3339 (loc : Location) (value : String) : Option Time :=
  (Stamp.parse value).map fun s => s.time loc

/-- `t` is the result of parsing some text. -/
def Parsed (loc : Location) (t : Time) : Prop := ∃ value, parseRFC3339 loc value = some t

theorem Parsed.exists_stamp {loc : Location} {t : Time} (h : Parsed loc t) :
    ∃ s : Stamp, t = s.time loc := by
  obtain ⟨value, hvalue⟩ := h
  obtain ⟨s, _, rfl⟩ := Option.map_eq_some_iff.mp hvalue
  exact ⟨s, rfl⟩

example : (parseRFC3339 .ofUTC "2024-02-29T7:04:05.120+01:00").map Time.string =
    some "2024-02-29 07:04:05.12 +0100 +0100" := by decide

end Go
