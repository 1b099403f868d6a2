-- SUMMARY: The request schema of the API document, read as a function from valid bodies to what they say.
import TrueHack.Go.JsonDepth
import TrueHack.Go.Time

/-!
# The documented request

`docs/openapi.yaml` describes the body of an analyze request by the schema
`AnalysisRequest`. This is the reading of the document, not of the server: where a
body is valid under the schema, `AnalysisRequest.ofMembers` is what it says.
-/

namespace ApiDoc

open Go

/-! ## Date-times

The format `date-time` is that of RFC 3339: two digits everywhere but in the year,
either case for the letters, a fraction after a dot only, and a second 60 for leap
seconds. -/

/-- A letter in either case. -/
def letter (upper lower : Char) : List Char → Option (List Char)
  | c :: v => if c = upper ∨ c = lower then some v else none
  | [] => none

/-- `time-secfrac`, to the nanosecond. -/
def secfrac : List Char → ℕ × List Char
  | c :: d :: v =>
      if c = '.' ∧ d.isDigit then
        (parseNanoseconds ((d :: v).takeWhile Char.isDigit), (d :: v).dropWhile Char.isDigit)
      else (0, c :: d :: v)
  | v => (0, v)

/-- `time-offset`, in minutes east of UTC. -/
def timeOffset : List Char → Option (ℤ × List Char)
  | c :: v =>
      if c = 'Z' ∨ c = 'z' then some (0, v)
      else if c = '+' ∨ c = '-' then do
        let (hour, v) ← getnum true v
        let v ← skip ':' v
        let (minute, v) ← getnum true v
        if hour < 24 ∧ minute < 60 then
          some (if c = '+' then (hour * 60 + minute : ℕ) else -(hour * 60 + minute : ℕ), v)
        else none
      else none
  | [] => none

/-- The instant in nanoseconds since 1970, of fields in their ranges. -/
def instantOf (year month day hour minute second nsec : ℕ) (offset : ℤ) : Option ℤ :=
  if hdate : 1 ≤ month ∧ month ≤ 12 ∧ 1 ≤ day ∧ day ≤ Calendar.daysIn year month then
    if hour < 24 ∧ minute < 60 ∧ second ≤ 60 then
      let date := Calendar.Date.ofValid year month day hdate
      some ((date.toDays * 86400 + (hour * 3600 + minute * 60 + second : ℕ) - offset * 60)
        * 1000000000 + nsec)
    else none
  else none

/-- The instant of a `date-time`. -/
def dateTime (text : String) : Option ℤ := do
  let (year, v) ← getYear text.toList
  let v ← skip '-' v
  let (month, v) ← getnum true v
  let v ← skip '-' v
  let (day, v) ← getnum true v
  let v ← letter 'T' 't' v
  let (hour, v) ← getnum true v
  let v ← skip ':' v
  let (minute, v) ← getnum true v
  let v ← skip ':' v
  let (second, v) ← getnum true v
  let (nsec, v) := secfrac v
  let (offset, v) ← timeOffset v
  if v.isEmpty then instantOf year month day hour minute second nsec offset else none

example : dateTime "2024-02-29t07:04:60.5+01:00" = some 1709186700500000000 := by decide

/-! ### The same instant

Where `time.Parse` accepts a text, it finds the instant that the document means. -/

variable {v w : List Char}

theorem letter_of_skip {c d : Char} (h : skip c v = some w) : letter c d v = some w := by
  cases v with
  | nil => cases h
  | cons x v =>
      simp only [skip] at h
      simp only [letter]
      split at h
      · rename_i hx
        rw [if_pos (Or.inl hx)]
        exact h
      · cases h

theorem getnum_of_fixed {n : ℕ} (h : getnum true v = some (n, w)) :
    getnum false v = some (n, w) := by
  cases v with
  | nil => cases h
  | cons c v =>
      cases v with
      | nil => simp [getnum] at h
      | cons d v =>
          simp only [getnum] at h ⊢
          split_ifs at h ⊢
          exact h

/-- A comma is no fraction for the document, and then no offset can follow. -/
theorem getFraction_of_timeOffset {r : ℤ × List Char} (h : timeOffset (secfrac v).2 = some r) :
    getFraction v = secfrac v := by
  cases v with
  | nil => rfl
  | cons c v =>
      cases v with
      | nil => rfl
      | cons d v =>
          unfold secfrac at h ⊢
          unfold getFraction
          simp only at h ⊢
          by_cases hcomma : c = ','
          · subst hcomma
            simp [timeOffset] at h
          · simp [hcomma]

theorem timeOffset_of_getOffset {o : Option ℤ} {offset : ℤ} {w' : List Char}
    (hgo : getOffset v = some (o, w)) (hdoc : timeOffset v = some (offset, w')) :
    o.getD 0 = offset ∧ w = w' := by
  unfold getOffset at hgo
  split at hgo
  · simp [timeOffset] at hdoc
    cases hgo
    simp [hdoc]
  · rename_i sign v hz
    simp only [Option.bind_eq_bind, Option.bind_eq_some_iff, Prod.exists] at hgo
    obtain ⟨hr, v₁, hhr, v₂, hcolon, mm, v₃, hmm, hlast⟩ := hgo
    simp only [timeOffset, hhr, hcolon, hmm, Option.bind_eq_bind, Option.bind_some] at hdoc
    split at hlast
    · cases hlast
    split at hlast
    · rename_i hplus
      subst hplus
      cases hlast
      simpa using (Option.ite_none_right_eq_some.mp hdoc).2
    split at hlast
    · rename_i hminus
      subst hminus
      cases hlast
      simpa using (Option.ite_none_right_eq_some.mp hdoc).2
    · cases hlast
  · cases hgo

theorem instantOf_of_check {year month day hour minute second nsec : ℕ} {o : Option ℤ}
    {s : Stamp} {i : ℤ} {loc : Location}
    (hgo : Stamp.check year month day hour minute second nsec o = some s)
    (hdoc : instantOf year month day hour minute second nsec (o.getD 0) = some i) :
    (s.time loc).instant = i := by
  unfold Stamp.check at hgo
  unfold instantOf at hdoc
  split_ifs at hgo hdoc
  cases hgo
  cases hdoc
  rfl

/-- A reading goes on with what its first step has read. -/
theorem goes_on {α β : Type} {x : Option α} {f : α → Option β} {a : α} {b : β}
    (h : x.bind f = some b) (hx : x = some a) : f a = some b := by
  rw [hx] at h
  exact h

/-- Both read the text step by step; they take the same steps up to the offset. -/
theorem dateTime_agrees {loc : Location} {text : String} {t : Time} {i : ℤ}
    (hdoc : dateTime text = some i) (hgo : parseRFC3339 loc text = some t) : t.instant = i := by
  obtain ⟨s, hs, rfl⟩ := Option.map_eq_some_iff.mp hgo
  obtain ⟨⟨year, v₁⟩, hyear, hdoc⟩ := Option.bind_eq_some_iff.mp hdoc
  have hs := goes_on hs hyear
  obtain ⟨v₂, hdash, hdoc⟩ := Option.bind_eq_some_iff.mp hdoc
  have hs := goes_on hs hdash
  obtain ⟨⟨month, v₃⟩, hmonth, hdoc⟩ := Option.bind_eq_some_iff.mp hdoc
  have hs := goes_on hs hmonth
  obtain ⟨v₄, hdash', hdoc⟩ := Option.bind_eq_some_iff.mp hdoc
  have hs := goes_on hs hdash'
  obtain ⟨⟨day, v₅⟩, hday, hdoc⟩ := Option.bind_eq_some_iff.mp hdoc
  have hs := goes_on hs hday
  obtain ⟨v₆, hletter, hdoc⟩ := Option.bind_eq_some_iff.mp hdoc
  obtain ⟨w₆, hskip, hs⟩ := Option.bind_eq_some_iff.mp hs
  obtain rfl : w₆ = v₆ := Option.some.inj ((letter_of_skip hskip).symm.trans hletter)
  obtain ⟨⟨hour, v₇⟩, hhour, hdoc⟩ := Option.bind_eq_some_iff.mp hdoc
  have hs := goes_on hs (getnum_of_fixed hhour)
  obtain ⟨v₈, hcolon, hdoc⟩ := Option.bind_eq_some_iff.mp hdoc
  have hs := goes_on hs hcolon
  obtain ⟨⟨minute, v₉⟩, hminute, hdoc⟩ := Option.bind_eq_some_iff.mp hdoc
  have hs := goes_on hs hminute
  obtain ⟨v₁₀, hcolon', hdoc⟩ := Option.bind_eq_some_iff.mp hdoc
  have hs := goes_on hs hcolon'
  obtain ⟨⟨second, v₁₁⟩, hsecond, hdoc⟩ := Option.bind_eq_some_iff.mp hdoc
  have hs := goes_on hs hsecond
  obtain ⟨⟨offset, v₁₂⟩, hoffset, hend⟩ := Option.bind_eq_some_iff.mp hdoc
  dsimp only at hs hend
  rw [getFraction_of_timeOffset hoffset] at hs
  obtain ⟨⟨o, w₁₂⟩, hgetOffset, hcheck⟩ := Option.bind_eq_some_iff.mp hs
  obtain ⟨rfl, rfl⟩ := timeOffset_of_getOffset hgetOffset hoffset
  split at hend
  · rename_i hempty
    exact instantOf_of_check ((if_pos hempty).symm.trans hcheck) hend
  · cases hend

/-! ## The schema -/

/-- A property of an object. Where a name is repeated, its last value counts. -/
def property (members : List (String × Json)) (name : String) : Option Json :=
  members.reverse.lookup name

/-- `type: string` -/
def asString : Json → Option String
  | .string s => some s
  | _ => none

/-- `type: object` -/
def asObject : Json → Option (List (String × Json))
  | .object members => some members
  | _ => none

/-- `type: array` with string items -/
def asStrings : Json → Option (List String)
  | .array elems => elems.mapM asString
  | _ => none

/-- `AnalysisRequest`: the query, the instants of `time_range`, and the metrics. -/
structure AnalysisRequest where
  query : String
  startsAt : ℤ
  endsAt : ℤ
  metrics : List String
deriving DecidableEq

/-- What an object says under the schema, if it is valid. Only `metrics` is optional, and
    properties that the schema does not mention are free. -/
def AnalysisRequest.ofMembers (members : List (String × Json)) : Option AnalysisRequest := do
  let query ← (property members "query").bind asString
  let range ← (property members "time_range").bind asObject
  let startsAt ← ((property range "start").bind asString).bind dateTime
  let endsAt ← ((property range "end").bind asString).bind dateTime
  let metrics ← match property members "metrics" with
    | none => some []
    | some v => asStrings v
  some ⟨query, startsAt, endsAt, metrics⟩

/-- A body with these members, valid under the schema, that says `req`. -/
structure Documents (body : String) (members : List (String × Json)) (req : AnalysisRequest) :
    Prop where
  denotes : Json.Denotes body (.object members)
  conforms : AnalysisRequest.ofMembers members = some req

end ApiDoc
