-- SUMMARY: The body of an answer: when suggestions and metrics are arrays in it, and when they are null.
import TrueHack.Chain.ReplyFields
import TrueHack.Go.Slices
import TrueHack.Server.Handle

/-!
# The body of an answer

A slice that is `nil` is encoded as `null`. A reply that decodes leaves a slice
`nil` unless its last value is an array, and any other reply unless the text has a
match for it: the empty slices that the fallback starts from are overwritten.
-/

namespace Chain

open Go

namespace LLMResponse

/-- The body that `json.NewEncoder(w).Encode` writes, where `formatFloat` gives the text of
    a number. -/
def encode (formatFloat : ℚ → List Char) (v : LLMResponse) : Json :=
  .object [("analysis", .string v.analysis), ("confidence", .number (formatFloat v.confidence)),
    ("suggestions", encodeStrings v.suggestions), ("relevant_metrics", encodeStrings v.metrics)]

variable {response : String}

theorem suggestions_slice : SliceOf Fields.member "suggestions" Fields.suggestions where
  stored hname h := by
    cases stores_of_member h with
    | suggestions _ hdecode => exact hdecode
    | analysis hother | confidence hother | metrics hother =>
        cases hname.symm.trans (not_names_of_names "suggestions" hother (by decide))
    | skipped hnone => cases hname.symm.trans (hnone "suggestions" (by decide))
  kept hname h := by
    cases stores_of_member h with
    | suggestions hother => cases hname.symm.trans hother
    | analysis | confidence | metrics | skipped => rfl

theorem metrics_slice : SliceOf Fields.member "relevant_metrics" Fields.metrics where
  stored hname h := by
    cases stores_of_member h with
    | metrics _ hdecode => exact hdecode
    | analysis hother | confidence hother | suggestions hother =>
        cases hname.symm.trans (not_names_of_names "relevant_metrics" hother (by decide))
    | skipped hnone => cases hname.symm.trans (hnone "relevant_metrics" (by decide))
  kept hname h := by
    cases stores_of_member h with
    | metrics hother => cases hname.symm.trans hother
    | analysis | confidence | suggestions | skipped => rfl

/-- The last value that a reply gives for `field`, if it is an object. -/
def lastMember (field response : String) : Option Json :=
  match Json.parse response with
  | some (.object members) => lastNamed field members
  | _ => none

/-- A decoded reply has the slices whose last values are arrays. -/
theorem unmarshal_slices {v : LLMResponse} (h : unmarshalLLMResponse response = some v) :
    v.suggestions.isSome = (lastMember "suggestions" response).any Json.isArray ∧
      v.metrics.isSome = (lastMember "relevant_metrics" response).any Json.isArray := by
  cases decodes_of_unmarshal h with
  | null hparse =>
      simp only [lastMember, hparse]
      exact ⟨rfl, rfl⟩
  | object hparse hdecode =>
      simp only [lastMember, hparse]
      exact ⟨suggestions_slice.isSome rfl hdecode, metrics_slice.isSome rfl hdecode⟩

end LLMResponse

open LLMResponse

/-- Suggestions and metrics are arrays, as the document of the interface has them. -/
structure HasArrays (body : Json) : Prop where
  suggestions : (body.member "suggestions").any Json.isArray = true
  metrics : (body.member "relevant_metrics").any Json.isArray = true

/-- The reply decodes, and its last suggestions and metrics are arrays; or it does not, and
    its text has a match for each. -/
structure GivesArrays (response : String) : Prop where
  json : unmarshalLLMResponse response ≠ none →
    (lastMember "suggestions" response).any Json.isArray = true ∧
      (lastMember "relevant_metrics" response).any Json.isArray = true
  text : unmarshalLLMResponse response = none →
    Regex.findAll suggestionRegex response ≠ [] ∧ Regex.findAll metricRegex response ≠ []

variable {formatFloat : ℚ → List Char}

theorem hasArrays_encode_iff {v : LLMResponse} : HasArrays (v.encode formatFloat) ↔
    v.suggestions.isSome = true ∧ v.metrics.isSome = true := by
  have hsuggestions : ((v.encode formatFloat).member "suggestions").any Json.isArray =
      v.suggestions.isSome := isArray_encodeStrings v.suggestions
  have hmetrics : ((v.encode formatFloat).member "relevant_metrics").any Json.isArray =
      v.metrics.isSome := isArray_encodeStrings v.metrics
  constructor
  · intro h
    exact ⟨hsuggestions.symm.trans h.suggestions, hmetrics.symm.trans h.metrics⟩
  · intro h
    exact ⟨hsuggestions.trans h.1, hmetrics.trans h.2⟩

/-- The fallback has the slices that its text has matches for. -/
theorem isSome_findMarked {regex : List Regex.Item} {marker response : String} :
    (findMarked regex marker response).isSome = true ↔ Regex.findAll regex response ≠ [] := by
  unfold findMarked
  cases Regex.findAll regex response with
  | nil => simp
  | cons m ms => simp

/-- On every path a parsed reply has its arrays exactly when the reply gives them. -/
theorem parse_hasArrays_iff (formatFloat : ℚ → List Char) (response : String) :
    HasArrays ((parseLLMResponse response).encode formatFloat) ↔ GivesArrays response := by
  rw [hasArrays_encode_iff]
  cases hunmarshal : unmarshalLLMResponse response with
  | some v =>
      obtain ⟨hsuggestions, hmetrics⟩ := unmarshal_slices hunmarshal
      rw [parse_of_unmarshal hunmarshal, hsuggestions, hmetrics]
      constructor
      · intro h
        exact ⟨fun _ => h, fun hnone => absurd (hunmarshal.symm.trans hnone) nofun⟩
      · intro h
        exact h.json (by simp [hunmarshal])
  | none =>
      have hparse : (parseLLMResponse response).suggestions =
            findMarked suggestionRegex "suggestion" response ∧
          (parseLLMResponse response).metrics = findMarked metricRegex "metric" response := by
        rw [parseLLMResponse, hunmarshal]
        exact ⟨rfl, rfl⟩
      rw [hparse.1, hparse.2, isSome_findMarked, isSome_findMarked]
      constructor
      · intro h
        exact ⟨fun hsome => absurd hunmarshal hsome, fun _ => h⟩
      · intro h
        exact h.text hunmarshal

end Chain

namespace Server

open Go Chain

variable {a : Analyzer} {cache : Cache LLMResponse} {key : CacheKey} {out : Outside}
  {body content : String}

/-- A request that the model replies to is answered with the parsed reply. -/
theorem response_replied (haccepted : parseRequest a.loc body = .ok key)
    (hreplied : Replied a cache key out content) :
    (handleAnalyze a cache body out).response = .json (parseLLMResponse content) := by
  unfold handleAnalyze
  rw [haccepted]
  simp only [(analyze_replied hreplied).1]

/-- The body of the answer has arrays for suggestions and metrics exactly when the reply
    gives them. -/
theorem reply_arrays_iff (formatFloat : ℚ → List Char) (a : Analyzer)
    (cache : Cache LLMResponse) (key : CacheKey) (out : Outside) (body content : String)
    (haccepted : parseRequest a.loc body = .ok key)
    (hreplied : Replied a cache key out content) :
    ∃ v, (handleAnalyze a cache body out).response = .json v ∧
      (HasArrays (v.encode formatFloat) ↔ GivesArrays content) :=
  ⟨_, response_replied haccepted hreplied, parse_hasArrays_iff formatFloat content⟩

/-- A reply with two empty arrays. -/
def emptyArrays : String := "\x7b\"suggestions\": [], \"relevant_metrics\": []\x7d"

/-- They stay arrays. -/
theorem reply_arrays_empty : ∃ v,
    (handleAnalyze plainAnalyzer (.new 10) epochBody (reply 0 1 emptyArrays)).response = .json v ∧
      HasArrays (v.encode fun _ => ['0']) := by
  obtain ⟨v, hresponse, hiff⟩ := reply_arrays_iff (fun _ => ['0']) plainAnalyzer (.new 10) _
    (reply 0 1 emptyArrays) epochBody emptyArrays epochBody_accepted (reply_replied emptyArrays)
  refine ⟨v, hresponse, hiff.mpr ?_⟩
  constructor
  · intro _
    decide +kernel
  · intro hnone
    exact absurd hnone (by decide +kernel)

/-- A reply in plain words has neither. -/
theorem reply_arrays_null : ¬∀ formatFloat cache key out body content,
    parseRequest plainAnalyzer.loc body = .ok key → Replied plainAnalyzer cache key out content →
    ∃ v, (handleAnalyze plainAnalyzer cache body out).response = .json v ∧
      HasArrays (v.encode formatFloat) := by
  intro h
  obtain ⟨v, hv, harrays⟩ := h (fun _ => "0.8".toList) (.new 10) _ (reply 0 1 "fine") epochBody
    "fine" epochBody_accepted (reply_replied "fine")
  have hresponse : (handleAnalyze plainAnalyzer (.new 10) epochBody (reply 0 1 "fine")).response =
      .json (parseLLMResponse "fine") := response_replied epochBody_accepted (reply_replied "fine")
  cases hresponse.symm.trans hv
  exact absurd harrays.suggestions (by decide +kernel)

end Server
