-- SUMMARY: The documented request against the decoded one: when the server does what the API document promises.
import TrueHack.Server.Handle
import TrueHack.Server.Schema

/-!
# The document and the server

The document has a `query` and a nested `time_range`, the server reads `question`,
`start_time` and `end_time` at the top level and skips what it does not know. So a
documented request is served only if it says everything a second time in the
server's own fields.
-/

namespace Server

open Go Collector Chain ApiDoc

/-! ## One field at a time -/

/-- The values of the members that are stored in `field`, in order. -/
def stored (field : String) (members : List (String × Json)) : List Json :=
  (members.filter fun m => names m.1 field).map Prod.snd

variable {members : List (String × Json)} {field : String} {body : String}
  {cache : Cache LLMResponse} {out : Outside} {a : Analyzer} {loc : Location}
  {req : AnalysisRequest}

theorem stored_cons (m : String × Json) : stored field (m :: members) =
    if names m.1 field then m.2 :: stored field members else stored field members := by
  unfold stored
  rw [List.filter_cons]
  split <;> rfl

/-- The fields are decoded independently of each other. -/
theorem foldlM_member_iff {r r' : AnalyzeRequest} :
    members.foldlM AnalyzeRequest.member r = some r' ↔
      (stored "question" members).foldlM decodeString r.question = some r'.question ∧
      (stored "start_time" members).foldlM decodeString r.startTime = some r'.startTime ∧
      (stored "end_time" members).foldlM decodeString r.endTime = some r'.endTime ∧
      (stored "metrics" members).foldlM decodeStrings r.metrics = some r'.metrics := by
  induction members generalizing r with
  | nil => cases r; cases r'; simp [stored]
  | cons m members ih =>
      simp only [List.foldlM_cons, stored_cons, AnalyzeRequest.member]
      by_cases hquestion : names m.1 "question" = true
      · have hstart := not_names_of_names "start_time" hquestion (by decide)
        have hend := not_names_of_names "end_time" hquestion (by decide)
        have hmetrics := not_names_of_names "metrics" hquestion (by decide)
        cases hdecode : decodeString r.question m.2 <;>
          simp [hquestion, hstart, hend, hmetrics, hdecode, ih]
      by_cases hstart : names m.1 "start_time" = true
      · have hend := not_names_of_names "end_time" hstart (by decide)
        have hmetrics := not_names_of_names "metrics" hstart (by decide)
        cases hdecode : decodeString r.startTime m.2 <;>
          simp [hquestion, hstart, hend, hmetrics, hdecode, ih]
      by_cases hend : names m.1 "end_time" = true
      · have hmetrics := not_names_of_names "metrics" hend (by decide)
        cases hdecode : decodeString r.endTime m.2 <;>
          simp [hquestion, hstart, hend, hmetrics, hdecode, ih]
      by_cases hmetrics : names m.1 "metrics" = true
      · cases hdecode : decodeStrings r.metrics m.2 <;>
          simp [hquestion, hstart, hend, hmetrics, hdecode, ih]
      · simp [hquestion, hstart, hend, hmetrics, ih]

/-- The values leave `text` in a string field: there are only strings and nulls, and
    `text` is the last string, or empty. -/
def Leaves (vs : List Json) (text : String) : Prop :=
  (∀ v ∈ vs, v = .null ∨ ∃ s, v = .string s) ∧ (vs.filterMap asString).getLastD "" = text

theorem foldlM_decodeString_iff {vs : List Json} {old text : String} :
    vs.foldlM decodeString old = some text ↔
      (∀ v ∈ vs, v = .null ∨ ∃ s, v = .string s) ∧
        (vs.filterMap asString).getLastD old = text := by
  induction vs generalizing old with
  | nil => simp
  | cons v vs ih =>
      rw [List.foldlM_cons]
      cases v with
      | null => simp [decodeString, asString, ih]
      | string s =>
          have hlast : ((Json.string s :: vs).filterMap asString).getLastD old =
              (vs.filterMap asString).getLastD s := by
            rw [List.filterMap_cons_some (show asString (.string s) = some s from rfl),
              List.getLastD_cons]
          rw [hlast, List.forall_mem_cons, and_assoc, ← ih]
          simp [decodeString]
      | bool | number | array | object => simp [decodeString]

/-! ## What the server needs -/

/-- The members say `req` in the server's own fields, and nest no deeper than its
    scanner goes. -/
structure Restates (loc : Location) (members : List (String × Json)) (req : AnalysisRequest) :
    Prop where
  nests : (Json.object members).depth ≤ Json.maxNestingDepth
  question : Leaves (stored "question" members) req.query
  start_time : ∃ text t, Leaves (stored "start_time" members) text ∧
    parseRFC3339 loc text = some t ∧ t.instant = req.startsAt
  end_time : ∃ text t, Leaves (stored "end_time" members) text ∧
    parseRFC3339 loc text = some t ∧ t.instant = req.endsAt
  metrics : ∃ slice, (stored "metrics" members).foldlM decodeStrings .nil = some slice ∧
    slice.toList = req.metrics

/-- What the document promises for `req`: no answer 400, but a call with the query, the
    two instants and the metrics. -/
def Serves (handled : Handled) (req : AnalysisRequest) : Prop :=
  (∀ message, handled.response ≠ .error 400 message) ∧
    ∃ key, handled.called = some key ∧ key.question = req.query ∧
      key.startTime.instant = req.startsAt ∧ key.endTime.instant = req.endsAt ∧
      key.metrics = req.metrics

/-- The request is the body's one value, decoded field by field. -/
theorem decodeRequest_iff {r : AnalyzeRequest} (hbody : Json.Denotes body (.object members)) :
    decodeRequest body = some r ↔
      (Json.object members).depth ≤ Json.maxNestingDepth ∧
      Leaves (stored "question" members) r.question ∧
      Leaves (stored "start_time" members) r.startTime ∧
      Leaves (stored "end_time" members) r.endTime ∧
      (stored "metrics" members).foldlM decodeStrings .nil = some r.metrics := by
  unfold decodeRequest
  simp only [Option.bind_eq_bind, Option.bind_eq_some_iff, Json.firstValue_iff hbody]
  constructor
  · intro ⟨v, ⟨hv, hdepth⟩, hdecode⟩
    subst hv
    obtain ⟨hquestion, hstart, hend, hmetrics⟩ := foldlM_member_iff.mp hdecode
    exact ⟨hdepth, foldlM_decodeString_iff.mp hquestion, foldlM_decodeString_iff.mp hstart,
      foldlM_decodeString_iff.mp hend, hmetrics⟩
  · intro ⟨hdepth, hquestion, hstart, hend, hmetrics⟩
    exact ⟨_, ⟨rfl, hdepth⟩, foldlM_member_iff.mpr ⟨foldlM_decodeString_iff.mpr hquestion,
      foldlM_decodeString_iff.mpr hstart, foldlM_decodeString_iff.mpr hend, hmetrics⟩⟩

theorem parseRequest_iff {key : CacheKey} :
    parseRequest loc body = .ok key ↔ ∃ r, decodeRequest body = some r ∧
      r.question = key.question ∧ parseRFC3339 loc r.startTime = some key.startTime ∧
      parseRFC3339 loc r.endTime = some key.endTime ∧ r.metrics.toList = key.metrics := by
  unfold parseRequest
  cases hdecode : decodeRequest body with
  | none => simp
  | some r =>
      cases hstart : parseRFC3339 loc r.startTime with
      | none => simp [hstart]
      | some startTime =>
          cases hend : parseRFC3339 loc r.endTime with
          | none => simp [hstart, hend]
          | some endTime =>
              cases key
              simp [hstart, hend]

/-- A call is made, or the answer is 400. -/
theorem response_ne_of_called {key : CacheKey}
    (h : (handleAnalyze a cache body out).called = some key) (message : String) :
    (handleAnalyze a cache body out).response ≠ .error 400 message := by
  simp only [handleAnalyze, called_iff.mp h]
  cases (a.analyze cache key out).result <;> simp

/-- A documented request is served as the document promises exactly when it also says
    everything in the server's own fields. -/
theorem serves_documented_iff (a : Analyzer) (cache : Cache LLMResponse) (out : Outside)
    (body : String) (members : List (String × Json)) (req : AnalysisRequest)
    (hdoc : Documents body members req) :
    Serves (handleAnalyze a cache body out) req ↔ Restates a.loc members req := by
  constructor
  · intro ⟨_, key, hcalled, hquestion, hstart, hend, hmetrics⟩
    obtain ⟨r, hdecode, hq, hs, he, hm⟩ := parseRequest_iff.mp (called_iff.mp hcalled)
    obtain ⟨hdepth, hlq, hls, hle, hlm⟩ := (decodeRequest_iff hdoc.denotes).mp hdecode
    have hquery : Leaves (stored "question" members) req.query := by
      rw [← hquestion, ← hq]
      exact hlq
    exact {
      nests := hdepth
      question := hquery
      start_time := ⟨_, _, hls, hs, hstart⟩
      end_time := ⟨_, _, hle, he, hend⟩
      metrics := ⟨_, hlm, hm.trans hmetrics⟩ }
  · intro h
    obtain ⟨startText, startTime, hls, hs, hstart⟩ := h.start_time
    obtain ⟨endText, endTime, hle, he, hend⟩ := h.end_time
    obtain ⟨slice, hslice, hmetrics⟩ := h.metrics
    have hdecode : decodeRequest body = some ⟨req.query, startText, endText, slice⟩ :=
      (decodeRequest_iff hdoc.denotes).mpr ⟨h.nests, h.question, hls, hle, hslice⟩
    have hcalled : (handleAnalyze a cache body out).called =
        some ⟨req.query, startTime, endTime, req.metrics⟩ :=
      called_iff.mpr (parseRequest_iff.mpr ⟨_, hdecode, rfl, hs, he, hmetrics⟩)
    exact ⟨response_ne_of_called hcalled, _, hcalled, rfl, hstart, hend, rfl⟩

/-- A body that never mentions a start time gets the answer 400, whatever else it says.
    The document knows no such member. -/
theorem refused_of_no_start_time (hbody : Json.Denotes body (.object members))
    (hnone : stored "start_time" members = []) :
    ∃ message, (handleAnalyze a cache body out).response = .error 400 message := by
  cases hparse : parseRequest a.loc body with
  | error message => exact ⟨message, by simp only [handleAnalyze, hparse]⟩
  | ok key =>
      obtain ⟨r, hdecode, _, hstart, _⟩ := parseRequest_iff.mp hparse
      obtain ⟨_, _, hleaves, _⟩ := (decodeRequest_iff hbody).mp hdecode
      have hempty : r.startTime = "" := by
        rw [← hleaves.2, hnone]
        rfl
      rw [hempty] at hstart
      cases hstart

/-! ## Two bodies -/

/-- The members of a body that is read without trouble, and what they say. -/
theorem exists_documents {p : List (String × Json) → Bool}
    (h : (((Json.parse body).bind asObject).any fun members =>
      AnalysisRequest.ofMembers members = some req && p members) = true) :
    ∃ members, Documents body members req ∧ p members = true := by
  cases hparse : Json.parse body with
  | none => simp [hparse] at h
  | some v =>
      cases v with
      | object members =>
          simp [hparse, asObject] at h
          exact ⟨members, ⟨Json.denotes_of_parse hparse, h.1⟩, h.2⟩
      | null | bool | number | string | array => simp [hparse, asObject] at h

/-- The first second of 1970, as the document asks for it. -/
def documentedBody : String :=
  "\x7b\"query\": \"cpu?\", \"time_range\": \x7b\"start\": \"1970-01-01T00:00:00Z\", " ++
    "\"end\": \"1970-01-01T00:00:01Z\"\x7d, \"metrics\": [\"up\"]\x7d"

/-- The same, and once more in the words of the server. -/
def restatedBody : String :=
  "\x7b\"query\": \"cpu?\", \"time_range\": \x7b\"start\": \"1970-01-01T00:00:00Z\", " ++
    "\"end\": \"1970-01-01T00:00:01Z\"\x7d, \"metrics\": [\"up\"], " ++
    "\"question\": \"cpu?\", \"start_time\": \"1970-01-01T00:00:00Z\", " ++
    "\"end_time\": \"1970-01-01T00:00:01Z\"\x7d"

/-- What both say under the schema. -/
def firstSecond : AnalysisRequest := ⟨"cpu?", 0, 1000000000, ["up"]⟩

/-- Saying it twice helps. -/
theorem serves_documented_twice :
    Serves (handleAnalyze plainAnalyzer (.new 10) restatedBody (reply 0 1 "fine"))
      firstSecond := by
  obtain ⟨members, hdoc, hmembers⟩ : ∃ members, Documents restatedBody members firstSecond ∧
      decide ((Json.object members).depth ≤ Json.maxNestingDepth ∧
        members.foldlM AnalyzeRequest.member .zero = some ⟨"cpu?", "1970-01-01T00:00:00Z",
          "1970-01-01T00:00:01Z", ⟨some ["up"], []⟩⟩) = true := exists_documents (by decide +kernel)
  refine (serves_documented_iff plainAnalyzer _ _ _ members _ hdoc).mpr ?_
  obtain ⟨hdepth, hdecode⟩ := of_decide_eq_true hmembers
  obtain ⟨hquestion, hstart, hend, hmetrics⟩ := foldlM_member_iff.mp hdecode
  exact {
    nests := hdepth
    question := foldlM_decodeString_iff.mp hquestion
    start_time := ⟨_, ⟨0, 0, .utc, by decide⟩, foldlM_decodeString_iff.mp hstart, by decide,
      by decide⟩
    end_time := ⟨_, ⟨1, 0, .utc, by decide⟩, foldlM_decodeString_iff.mp hend, by decide,
      by decide⟩
    metrics := ⟨_, hmetrics, rfl⟩ }

/-- Saying it as documented does not. -/
theorem documented_refused : ¬∀ (cache : Cache LLMResponse) (out : Outside) (body : String)
    (members : List (String × Json)) (req : AnalysisRequest), Documents body members req →
    Serves (handleAnalyze plainAnalyzer cache body out) req := by
  intro h
  obtain ⟨members, hdoc, hnone⟩ : ∃ members, Documents documentedBody members firstSecond ∧
      (stored "start_time" members).isEmpty = true := exists_documents (by decide +kernel)
  obtain ⟨message, hrefused⟩ := refused_of_no_start_time hdoc.denotes (List.isEmpty_iff.mp hnone)
  exact (h (.new 10) (reply 0 1 "fine") _ _ _ hdoc).1 message hrefused

end Server
