-- SUMMARY: The page's request: what a click on the analyze button submits, and what the server makes of the ticked metrics.
import TrueHack.Page.LocalTime
import TrueHack.Page.Stringify
import TrueHack.Server.ApiDoc

/-!
# The analyze button

The handler of the button reads the question and the two times and submits them.
The page shows a checkbox for every metric as well, but the handler reads none.
-/

namespace Page

open Go Collector Chain Server

/-! ## The form -/

/-- The checkbox of a metric; its `id` is the name. -/
structure Checkbox where
  id : String
  checked : Bool

/-- The inputs of the page, with the values they have when the button is clicked. -/
structure Form where
  query : List CodePoint
  startTime : String
  endTime : String
  metrics : List Checkbox

/-- The names that the user ticked. -/
def Form.ticked (form : Form) : List String :=
  (form.metrics.filter Checkbox.checked).map Checkbox.id

/-- The handler of the button: the body it submits, if it does. `date` is `new Date` in the
    user's time zone; on an invalid date `toISOString` throws. -/
def Form.click (date : String → Option TimeValue) (form : Form) : Option String := do
  let startTime ← (date form.startTime).map toISOString
  let endTime ← (date form.endTime).map toISOString
  if form.query.isEmpty then none
  else some (stringify [("question", form.query), ("start_time", codePoints startTime),
    ("end_time", codePoints endTime)])

variable {date : String → Option TimeValue} {form : Form} {body : String} {a : Analyzer}
  {cache : Cache LLMResponse} {out : Outside} {key : CacheKey}

/-- A submitted body says the question and the two times. -/
theorem denotes_click (h : form.click date = some body) : ∃ startTime endTime,
    date form.startTime = some startTime ∧ date form.endTime = some endTime ∧
    Json.Denotes body (.object [("question", .string (received form.query)),
      ("start_time", .string (toISOString startTime)),
      ("end_time", .string (toISOString endTime))]) := by
  obtain ⟨startText, hstart, h⟩ := Option.bind_eq_some_iff.mp h
  obtain ⟨endText, hend, h⟩ := Option.bind_eq_some_iff.mp h
  obtain ⟨startTime, hstart', rfl⟩ := Option.map_eq_some_iff.mp hstart
  obtain ⟨endTime, hend', rfl⟩ := Option.map_eq_some_iff.mp hend
  obtain ⟨_, h⟩ := Option.ite_none_left_eq_some.mp h
  obtain rfl := Option.some.inj h
  refine ⟨startTime, endTime, hstart', hend', ?_⟩
  have hdenotes := denotes_stringify [("question", form.query),
    ("start_time", codePoints (toISOString startTime)),
    ("end_time", codePoints (toISOString endTime))] (List.cons_ne_nil _ _)
  simpa only [List.map_cons, List.map_nil, receivedProperty, received_codePoints] using hdenotes

/-- What the server reads from a body with these three members. -/
theorem parseRequest_submitted {loc : Location} {question startTime endTime : String}
    (h : Json.Denotes body (.object [("question", .string question),
      ("start_time", .string startTime), ("end_time", .string endTime)])) :
    parseRequest loc body = .ok key ↔ question = key.question ∧
      parseRFC3339 loc startTime = some key.startTime ∧
      parseRFC3339 loc endTime = some key.endTime ∧ key.metrics = [] := by
  have hdecode : decodeRequest body = some ⟨question, startTime, endTime, .nil⟩ := by
    have hnests : (Json.object [("question", .string question), ("start_time", .string startTime),
        ("end_time", .string endTime)]).depth ≤ Json.maxNestingDepth := by
      simp [Json.depth, Json.depthMembers, Json.maxNestingDepth]
    refine (decodeRequest_iff h).mpr ⟨hnests, ?_⟩
    have hnames : ∀ name ∈ ["question", "start_time", "end_time"], ∀ field ∈
        ["question", "start_time", "end_time", "metrics"],
        names name field = decide (name = field) := by decide
    simp [stored, hnames, Leaves, ApiDoc.asString]
  rw [parseRequest_iff]
  simp only [hdecode, Option.some.injEq, exists_eq_left']
  rw [show StringSlice.nil.toList = [] from rfl, eq_comm (a := [])]

/-- No submitted request names a metric. -/
theorem metrics_of_click (h : form.click date = some body)
    (hcalled : (handleAnalyze a cache body out).called = some key) : key.metrics = [] := by
  obtain ⟨startTime, endTime, _, _, hdenotes⟩ := denotes_click h
  exact ((parseRequest_submitted hdenotes).mp (called_iff.mp hcalled)).2.2.2

/-- The call is about the ticked metrics exactly when none is ticked. -/
theorem ticked_analyzed_iff (date : String → Option TimeValue) (form : Form) (body : String)
    (a : Analyzer) (cache : Cache LLMResponse) (out : Outside) (key : CacheKey)
    (hbody : form.click date = some body)
    (hcalled : (handleAnalyze a cache body out).called = some key) :
    (∀ name, name ∈ key.metrics ↔ name ∈ form.ticked) ↔ form.ticked = [] := by
  rw [metrics_of_click hbody hcalled]
  constructor
  · intro h
    exact List.eq_nil_iff_forall_not_mem.mpr fun name hname =>
      List.not_mem_nil ((h name).mpr hname)
  · intro h name
    rw [h]

/-- A question about the metric `up` and the first minute of 1970. -/
def upForm (checked : Bool) : Form :=
  ⟨codePoints "cpu?", "1970-01-01T00:00", "1970-01-01T00:00", [⟨"up", checked⟩]⟩

/-- What it submits where the clock is in UTC. -/
def upBody : String :=
  "\x7b\"question\":\"cpu?\",\"start_time\":\"1970-01-01T00:00:00.000Z\"," ++
    "\"end_time\":\"1970-01-01T00:00:00.000Z\"\x7d"

/-- What the server calls the analyzer with. -/
def momentKey : CacheKey := ⟨"cpu?", ⟨0, 0, .utc, zero_lt_second⟩, ⟨0, 0, .utc, zero_lt_second⟩, []⟩

theorem upForm_click (checked : Bool) : (upForm checked).click (newDate 0) = some upBody := by
  cases checked <;> decide +kernel

theorem upBody_called (cache : Cache LLMResponse) (out : Outside) :
    (handleAnalyze plainAnalyzer cache upBody out).called = some momentKey :=
  called_iff.mpr (show parseRequest .ofUTC upBody = .ok momentKey by decide +kernel)

/-- Without a tick the call names no metric, as it should. -/
theorem ticked_analyzed_none : (upForm false).click (newDate 0) = some upBody ∧
    ∀ name, name ∈ momentKey.metrics ↔ name ∈ (upForm false).ticked :=
  ⟨upForm_click false, (ticked_analyzed_iff (newDate 0) (upForm false) upBody plainAnalyzer
    (.new 10) (reply 0 1 "fine") _ (upForm_click false) (upBody_called _ _)).mpr rfl⟩

/-- With one it names none either. -/
theorem tick_ignored : ¬∀ (form : Form) (body : String) (cache : Cache LLMResponse)
    (out : Outside) (key : CacheKey), form.click (newDate 0) = some body →
    (handleAnalyze plainAnalyzer cache body out).called = some key →
    ∀ name, name ∈ key.metrics ↔ name ∈ form.ticked := by
  intro h
  have hup := h (upForm true) upBody (.new 10) (reply 0 1 "fine") _ (upForm_click true)
    (upBody_called _ _) "up"
  exact absurd (hup.mpr (by decide)) (by decide)

end Page
