-- SUMMARY: The default time range of the page: the last hour on a clock in UTC, and an hour of another time elsewhere.
import TrueHack.Page.Click

/-!
# The default range

When the page is loaded its script sets the two inputs to the last hour, as
`toISOString` writes it, which is in UTC. The inputs are for local times, and the
handler of the button reads them as such. So what is submitted is the last hour on
the user's clock as if that were UTC.
-/

namespace Page

open Go Collector Chain Server

/-! ## The script -/

/-- `text.slice(0, stop)` -/
def slice (text : String) (stop : ℕ) : String := String.ofList (text.toList.take stop)

/-- The value of an input after the script has set it to a date. -/
def fieldValue (tv : TimeValue) : String := sanitize (slice (toISOString tv) 16)

/-- What the script sets the two inputs to. If there is no date an hour ago, `toISOString`
    throws. -/
def defaultRange (now : TimeValue) : Option (String × String) := do
  let oneHourAgo ← timeClip (now.ms - 60 * 60 * 1000)
  some (fieldValue oneHourAgo, fieldValue now)

/-- The form of a user who leaves the two times as they are. -/
def untouched (now : TimeValue) (query : List CodePoint) (metrics : List Checkbox) :
    Option Form :=
  (defaultRange now).map fun (startTime, endTime) => ⟨query, startTime, endTime, metrics⟩

/-! ## What is submitted -/

/-- Truncated to the minute. -/
def truncated (ms : ℤ) : ℤ := ms / 60000 * 60000

/-- The call is about the hour before the page was loaded. -/
structure LastHour (now : TimeValue) (key : CacheKey) : Prop where
  startTime : key.startTime.instant = truncated (now.ms - 3600000) * 1000000
  endTime : key.endTime.instant = truncated now.ms * 1000000

/-- The user's clock is `zone` milliseconds ahead of UTC. With the two times as they are, a
    click submits a request, and the server calls the analyzer about the last hour. -/
def SubmitsLastHour (zone : ℤ) (now : TimeValue) (query : List CodePoint)
    (metrics : List Checkbox) (a : Analyzer) (cache : Cache LLMResponse) (out : Outside) : Prop :=
  ∃ form body key, untouched now query metrics = some form ∧
    form.click (newDate zone) = some body ∧
    (handleAnalyze a cache body out).called = some key ∧ LastHour now key

/-- A year that a `datetime-local` input takes from the text of a date. -/
def InputYear (year : ℤ) : Prop := 1 ≤ year ∧ year ≤ 9999

instance (year : ℤ) : Decidable (InputYear year) := inferInstanceAs (Decidable (_ ∧ _))

theorem sanitize_signed {sign : Char} (h : sign.isDigit = false) (v : List Char) :
    sanitize (String.ofList (sign :: v)) = "" := by
  have hdigits : (sign :: v).takeWhile Char.isDigit = [] :=
    List.takeWhile_cons_of_neg (Bool.eq_false_iff.mp h)
  have hinvalid : normalized (sign :: v) = none := by
    unfold normalized
    rw [hdigits]
    rfl
  rw [sanitize, String.toList_ofList, hinvalid]
  rfl

/-- The date that stands in an input is the minute that it was set to, on the user's
    clock. -/
theorem newDate_fieldValue (zone : ℤ) (tv : TimeValue) :
    newDate zone (fieldValue tv) =
      if InputYear (yearFromTime tv.ms) then timeClip (truncated tv.ms - zone) else none := by
  have hempty : newDate zone "" = none := rfl
  by_cases hfour : FourDigits (yearFromTime tv.ms)
  · obtain ⟨m, second, ms, _, _, hyear, hminute, _, htext⟩ := toISOString_eq hfour
    have hslice : slice (toISOString tv) 16 = String.ofList (m.text []) := by
      rw [slice, htext, String.toList_ofList, m.text_append, List.take_left' m.length_text]
    have hvalue : fieldValue tv = if m.date.year = 0 then "" else String.ofList (m.text []) := by
      rw [fieldValue, hslice, sanitize, String.toList_ofList, m.normalized_text]
      split <;> rfl
    rw [hvalue, ← hyear]
    unfold FourDigits at hfour
    split
    · rename_i hzero
      rw [hempty, hzero, if_neg (by decide)]
    · rename_i hpositive
      rw [m.newDate_text, hminute, truncated, if_pos]
      unfold InputYear
      omega
  · obtain ⟨sign, v, hsign, htext⟩ := toISOString_signed hfour
    have hslice : slice (toISOString tv) 16 = String.ofList (sign :: v.take 15) := by
      rw [slice, htext, String.toList_ofList]
      rfl
    rw [fieldValue, hslice, sanitize_signed hsign, hempty, if_neg]
    unfold FourDigits at hfour
    unfold InputYear
    omega

variable {zone : ℤ} {now tv : TimeValue} {query : List CodePoint} {metrics : List Checkbox}
  {form : Form} {body : String} {a : Analyzer} {cache : Cache LLMResponse} {out : Outside}
  {key : CacheKey}

theorem ms_of_timeClip {ms : ℤ} (h : timeClip ms = some tv) : tv.ms = ms := by
  unfold timeClip at h
  split at h
  · cases h
    rfl
  · cases h

/-- What the server reads for an input that was left alone. -/
theorem instant_of_field {loc : Location} {submitted : TimeValue} {t : Time}
    (hdate : newDate zone (fieldValue tv) = some submitted)
    (hparse : parseRFC3339 loc (toISOString submitted) = some t) :
    InputYear (yearFromTime tv.ms) ∧ t.instant = (truncated tv.ms - zone) * 1000000 := by
  rw [newDate_fieldValue] at hdate
  obtain ⟨hyear, hclip⟩ := Option.ite_none_right_eq_some.mp hdate
  refine ⟨hyear, ?_⟩
  have hinstant := parseRFC3339_toISOString loc submitted
  rw [hparse, Option.map_some] at hinstant
  obtain ⟨_, hinstant⟩ := Option.ite_none_right_eq_some.mp hinstant.symm
  rw [← Option.some.inj hinstant, ms_of_timeClip hclip]

/-- Whatever the zone, the call is about the last hour, earlier by as much as the user's
    clock is ahead of UTC. -/
theorem called_untouched (hform : untouched now query metrics = some form)
    (hbody : form.click (newDate zone) = some body)
    (hcalled : (handleAnalyze a cache body out).called = some key) :
    InputYear (yearFromTime (now.ms - 3600000)) ∧ InputYear (yearFromTime now.ms) ∧
      key.startTime.instant = (truncated (now.ms - 3600000) - zone) * 1000000 ∧
      key.endTime.instant = (truncated now.ms - zone) * 1000000 := by
  obtain ⟨range, hrange, hform⟩ := Option.map_eq_some_iff.mp hform
  obtain ⟨oneHourAgo, hago, hrange⟩ := Option.bind_eq_some_iff.mp hrange
  obtain rfl := Option.some.inj hrange
  obtain rfl := hform
  have hms : oneHourAgo.ms = now.ms - 3600000 := by
    rw [ms_of_timeClip hago]
    norm_num
  obtain ⟨startTime, endTime, hstart, hend, hdenotes⟩ := denotes_click hbody
  obtain ⟨_, hstart', hend', _⟩ := (parseRequest_submitted hdenotes).mp (called_iff.mp hcalled)
  obtain ⟨hstartYear, hstartInstant⟩ := instant_of_field hstart hstart'
  obtain ⟨hendYear, hendInstant⟩ := instant_of_field hend hend'
  rw [hms] at hstartYear hstartInstant
  exact ⟨hstartYear, hendYear, hstartInstant, hendInstant⟩

/-- Of the last hour, it is only about that of a clock in UTC. -/
theorem zone_eq_zero (h : SubmitsLastHour zone now query metrics a cache out) : zone = 0 := by
  obtain ⟨form, body, key, hform, hbody, hcalled, hlast⟩ := h
  obtain ⟨_, _, _, hend⟩ := called_untouched hform hbody hcalled
  have hsame := hlast.endTime.symm.trans hend
  omega

/-! ## On a clock in UTC -/

/-- The years of the inputs are well within the range of dates. -/
theorem le_of_inputYear {ms : ℤ} (h : InputYear (yearFromTime ms)) : -100000000000000 ≤ ms := by
  obtain ⟨d, hd⟩ := Calendar.exists_toDays (ms / 86400000)
  rw [yearFromTime, ← hd, d.ofDays_toDays] at h
  have hyear : 1 ≤ d.year := h.1
  unfold Calendar.Date.toDays Calendar.Date.marchYear at hd
  split at hd <;> omega

/-- The minute of an input is a date, and the server reads it. -/
theorem exists_submitted (loc : Location) (tv : TimeValue) (h : InputYear (yearFromTime tv.ms)) :
    ∃ submitted t, newDate 0 (fieldValue tv) = some submitted ∧
      parseRFC3339 loc (toISOString submitted) = some t ∧
      t.instant = truncated tv.ms * 1000000 := by
  have hbound : (truncated tv.ms).natAbs ≤ 8640000000000000 := by
    have hlow := le_of_inputYear h
    have hhigh := tv.bounded
    unfold truncated
    omega
  have hdate : newDate 0 (fieldValue tv) = some ⟨truncated tv.ms, hbound⟩ := by
    rw [newDate_fieldValue, if_pos h, sub_zero, timeClip, dif_pos hbound]
  have hsameDay : truncated tv.ms / 86400000 = tv.ms / 86400000 := by
    unfold truncated
    omega
  have hyear : FourDigits (yearFromTime (truncated tv.ms)) := by
    rw [yearFromTime, hsameDay]
    exact ⟨le_trans (by decide) h.1, h.2⟩
  have hinstant := parseRFC3339_toISOString loc ⟨truncated tv.ms, hbound⟩
  rw [if_pos hyear] at hinstant
  obtain ⟨t, hparse, ht⟩ := Option.map_eq_some_iff.mp hinstant
  exact ⟨_, t, hdate, hparse, ht⟩

/-- The default range is the last hour exactly on a clock in UTC, as long as the inputs
    can hold the two years. -/
theorem last_hour_iff (zone : ℤ) (now : TimeValue) (query : List CodePoint)
    (metrics : List Checkbox) (a : Analyzer) (cache : Cache LLMResponse) (out : Outside)
    (hquery : query ≠ []) :
    SubmitsLastHour zone now query metrics a cache out ↔
      zone = 0 ∧ InputYear (yearFromTime (now.ms - 3600000)) ∧
        InputYear (yearFromTime now.ms) := by
  constructor
  · intro h
    refine ⟨zone_eq_zero h, ?_⟩
    obtain ⟨form, body, key, hform, hbody, hcalled, _⟩ := h
    obtain ⟨hstartYear, hendYear, _⟩ := called_untouched hform hbody hcalled
    exact ⟨hstartYear, hendYear⟩
  · intro ⟨hzone, hstartYear, hendYear⟩
    subst hzone
    have hbound : (now.ms - 3600000).natAbs ≤ 8640000000000000 := by
      have hlow := le_of_inputYear hstartYear
      have hhigh := now.bounded
      omega
    let oneHourAgo : TimeValue := ⟨now.ms - 3600000, hbound⟩
    have hago : timeClip (now.ms - 60 * 60 * 1000) = some oneHourAgo := dif_pos hbound
    obtain ⟨startTime, t, hstart, hparse, hinstant⟩ :=
      exists_submitted a.loc oneHourAgo hstartYear
    obtain ⟨endTime, t', hend, hparse', hinstant'⟩ := exists_submitted a.loc now hendYear
    let form : Form := ⟨query, fieldValue oneHourAgo, fieldValue now, metrics⟩
    have hform : untouched now query metrics = some form := by
      rw [untouched, defaultRange, hago]
      rfl
    obtain ⟨body, hbody⟩ : ∃ body, form.click (newDate 0) = some body := by
      simp [Form.click, form, hstart, hend, hquery]
    obtain ⟨_, _, hstart', hend', hdenotes⟩ := denotes_click hbody
    cases hstart.symm.trans hstart'
    cases hend.symm.trans hend'
    refine ⟨form, body, ⟨received query, t, t', []⟩, hform, hbody, called_iff.mpr ?_, ?_⟩
    · exact (parseRequest_submitted hdenotes).mpr ⟨rfl, hparse, hparse', rfl⟩
    · exact ⟨hinstant, hinstant'⟩

/-- 2024-02-29T06:05:00.500Z -/
def leapMorning : TimeValue := ⟨1709186700500, by decide⟩

example : defaultRange leapMorning = some ("2024-02-29T05:05", "2024-02-29T06:05") := by decide

/-- On a clock in UTC it looks right. -/
theorem last_hour_utc : SubmitsLastHour 0 leapMorning (codePoints "cpu?") [] plainAnalyzer (.new 10)
    (reply 0 1 "fine") :=
  (last_hour_iff 0 leapMorning (codePoints "cpu?") [] plainAnalyzer (.new 10) (reply 0 1 "fine")
    (by decide)).mpr ⟨rfl, by decide, by decide⟩

/-- On a clock three hours ahead it is an hour that ended three hours ago. -/
theorem last_hour_shifted : ¬∀ zone now query metrics cache out, query ≠ [] →
    SubmitsLastHour zone now query metrics plainAnalyzer cache out := by
  intro h
  have hzone : (10800000 : ℤ) = 0 := zone_eq_zero (h 10800000 leapMorning (codePoints "cpu?") []
    (.new 10) (reply 0 1 "fine") (by decide))
  exact absurd hzone (by decide)

end Page
