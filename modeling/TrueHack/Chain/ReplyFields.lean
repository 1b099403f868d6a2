-- SUMMARY: The confidence and the analysis of a parsed reply: when the one is a fraction, and the other not empty.
import TrueHack.Chain.AnalyzerRuns
import TrueHack.Go.JsonDepth

/-!
# Fields of a reply

A reply that decodes is taken as it is, with whatever number it gives for the
confidence and whatever text, or none, for the analysis. Only a reply that does
not decode gets the defaults of the fallback.
-/

namespace Chain

open Go Collector

namespace LLMResponse

variable {fields fields' : Fields} {key : String} {v : Json} {response : String}

/-- Everything a member can do: it is stored in the field that it names, or skipped. -/
inductive Stores (fields : Fields) (key : String) (v : Json) : Fields → Prop where
  | analysis {analysis : String} (hname : names key "analysis" = true)
      (hdecode : decodeString fields.analysis v = some analysis) :
      Stores fields key v { fields with analysis := analysis }
  | confidence {confidence : ℚ} (hname : names key "confidence" = true)
      (hdecode : decodeFloat32 fields.confidence v = some confidence) :
      Stores fields key v { fields with confidence := confidence }
  | suggestions {suggestions : StringSlice} (hname : names key "suggestions" = true)
      (hdecode : decodeStrings fields.suggestions v = some suggestions) :
      Stores fields key v { fields with suggestions := suggestions }
  | metrics {metrics : StringSlice} (hname : names key "relevant_metrics" = true)
      (hdecode : decodeStrings fields.metrics v = some metrics) :
      Stores fields key v { fields with metrics := metrics }
  | skipped (hname : ∀ field ∈ ["analysis", "confidence", "suggestions", "relevant_metrics"],
      names key field = false) : Stores fields key v fields

theorem stores_of_member (h : fields.member (key, v) = some fields') :
    Stores fields key v fields' := by
  unfold Fields.member at h
  simp only [Option.bind_eq_bind] at h
  split at h
  · rename_i hname
    obtain ⟨analysis, hdecode, hfields⟩ := Option.bind_eq_some_iff.mp h
    cases hfields
    exact .analysis hname hdecode
  rename_i hanalysis
  split at h
  · rename_i hname
    obtain ⟨confidence, hdecode, hfields⟩ := Option.bind_eq_some_iff.mp h
    cases hfields
    exact .confidence hname hdecode
  rename_i hconfidence
  split at h
  · rename_i hname
    obtain ⟨suggestions, hdecode, hfields⟩ := Option.bind_eq_some_iff.mp h
    cases hfields
    exact .suggestions hname hdecode
  rename_i hsuggestions
  split at h
  · rename_i hname
    obtain ⟨metrics, hdecode, hfields⟩ := Option.bind_eq_some_iff.mp h
    cases hfields
    exact .metrics hname hdecode
  · rename_i hmetrics
    cases h
    exact .skipped (by simp [hanalysis, hconfidence, hsuggestions, hmetrics])

theorem analysis_field : FieldOf Fields.member "analysis" Fields.analysis decodeString where
  stored hname h := by
    cases stores_of_member h with
    | analysis _ hdecode => exact hdecode
    | confidence hother | suggestions hother | metrics hother =>
        cases hname.symm.trans (not_names_of_names "analysis" hother (by decide))
    | skipped hnone => cases hname.symm.trans (hnone "analysis" (by decide))
  kept hname h := by
    cases stores_of_member h with
    | analysis hother => cases hname.symm.trans hother
    | confidence | suggestions | metrics | skipped => rfl
  null _ := rfl
  overwrites _ _ v h := by cases v <;> first | rfl | cases h

theorem confidence_field :
    FieldOf Fields.member "confidence" Fields.confidence decodeFloat32 where
  stored hname h := by
    cases stores_of_member h with
    | confidence _ hdecode => exact hdecode
    | analysis hother | suggestions hother | metrics hother =>
        cases hname.symm.trans (not_names_of_names "confidence" hother (by decide))
    | skipped hnone => cases hname.symm.trans (hnone "confidence" (by decide))
  kept hname h := by
    cases stores_of_member h with
    | confidence hother => cases hname.symm.trans hother
    | analysis | suggestions | metrics | skipped => rfl
  null _ := rfl
  overwrites _ _ v h := by cases v <;> first | rfl | cases h

/-! ## Decoded replies -/

/-- The last value that a reply stores in `field`, if it is an object. -/
def lastGiven (field response : String) : Option Json :=
  match Json.parse response with
  | some (.object members) => lastValue field members
  | _ => none

/-- A reply that decodes is a null, or an object whose members are stored in order. -/
inductive Decodes (response : String) : LLMResponse → Prop where
  | null (hparse : Json.parse response = some .null) : Decodes response Fields.zero.toResponse
  | object {members : List (String × Json)} {fields : Fields}
      (hparse : Json.parse response = some (.object members))
      (hdecode : members.foldlM Fields.member .zero = some fields) :
      Decodes response fields.toResponse

theorem decodes_of_unmarshal {v : LLMResponse} (h : unmarshalLLMResponse response = some v) :
    Decodes response v := by
  unfold unmarshalLLMResponse at h
  obtain ⟨json, hparse, h⟩ := Option.bind_eq_some_iff.mp h
  obtain ⟨fields, hdecode, h⟩ := Option.bind_eq_some_iff.mp h
  cases h
  cases json with
  | null =>
      cases hdecode
      exact .null hparse
  | object members => exact .object hparse hdecode
  | bool | number | string | array => cases hdecode

/-- What the fields of a decoded reply hold. -/
theorem unmarshal_becomes {v : LLMResponse} (h : unmarshalLLMResponse response = some v) :
    Becomes decodeString "" v.analysis (lastGiven "analysis" response) ∧
      Becomes decodeFloat32 0 v.confidence (lastGiven "confidence" response) := by
  cases decodes_of_unmarshal h with
  | null hparse =>
      simp only [lastGiven, hparse]
      exact ⟨rfl, rfl⟩
  | object hparse hdecode =>
      simp only [lastGiven, hparse]
      exact ⟨analysis_field.becomes hdecode, confidence_field.becomes hdecode⟩

/-- An analysis is the last string, or empty. -/
theorem analysis_cases {v : LLMResponse} (h : unmarshalLLMResponse response = some v) :
    lastGiven "analysis" response = some (.string v.analysis) ∨
      v.analysis = "" ∧ ∀ s, lastGiven "analysis" response ≠ some (.string s) := by
  have hleft := (unmarshal_becomes h).1
  cases hlast : lastGiven "analysis" response with
  | none =>
      rw [hlast] at hleft
      exact .inr ⟨hleft, nofun⟩
  | some json =>
      rw [hlast] at hleft
      cases json with
      | string s => exact .inl (by rw [Option.some.inj hleft])
      | null => exact .inr ⟨(Option.some.inj hleft).symm, nofun⟩
      | bool | number | array | object => cases hleft

theorem parseFloat32_eq {literal : List Char} {x : ℚ} (h : parseFloat32 literal = some x) :
    x = decimal literal :=
  (Option.some.inj (Option.ite_none_right_eq_some.mp h).2).symm

/-- A confidence is the last number, or zero. -/
theorem confidence_cases {v : LLMResponse} (h : unmarshalLLMResponse response = some v) :
    (∃ literal, lastGiven "confidence" response = some (.number literal) ∧
      v.confidence = decimal literal) ∨
    v.confidence = 0 ∧ ∀ literal, lastGiven "confidence" response ≠ some (.number literal) := by
  have hleft := (unmarshal_becomes h).2
  cases hlast : lastGiven "confidence" response with
  | none =>
      rw [hlast] at hleft
      exact .inr ⟨hleft, nofun⟩
  | some json =>
      rw [hlast] at hleft
      cases json with
      | number literal => exact .inl ⟨literal, rfl, parseFloat32_eq hleft⟩
      | null => exact .inr ⟨(Option.some.inj hleft).symm, nofun⟩
      | bool | string | array | object => cases hleft

end LLMResponse

open LLMResponse

variable {response : String}

theorem parse_of_unmarshal {v : LLMResponse} (h : unmarshalLLMResponse response = some v) :
    parseLLMResponse response = v := by
  rw [parseLLMResponse, h]

/-! ## The confidence -/

theorem decimal_nonneg {literal : List Char} (h : ∀ c ∈ literal.head?, c ≠ '-') :
    0 ≤ decimal literal := by
  unfold decimal
  split
  rename_i sign rest hsign
  have hpositive : 0 ≤ sign := by
    split at hsign
    · exact absurd rfl (h '-' rfl)
    · cases hsign
      exact zero_le_one
  dsimp only
  split <;> exact mul_nonneg (mul_nonneg hpositive (Nat.cast_nonneg _)) (zpow_nonneg (by decide) _)

/-- A scanned number has no sign. -/
theorem scanFloat_nonneg {text : List Char} {x : ℚ} (h : scanFloat text = some x) : 0 ≤ x := by
  obtain ⟨_, hparse⟩ := Option.ite_none_left_eq_some.mp h
  rw [parseFloat32_eq hparse]
  apply decimal_nonneg
  intro c hc
  cases hint : text.takeWhile Char.isDigit with
  | nil =>
      rw [hint] at hc
      cases hc
      decide
  | cons d int =>
      rw [hint] at hc
      cases hc
      have hdigit : c.isDigit = true := List.mem_takeWhile_imp (hint ▸ List.mem_cons_self)
      intro hdash
      rw [hdash] at hdigit
      cases hdigit

/-- The confidence that the fallback finds. -/
def textConfidence (response : String) : ℚ :=
  match Regex.find confidenceRegex response with
  | some m => (scanFloat (captured m)).getD defaultConfidence
  | none => defaultConfidence

theorem confidence_of_reject (h : unmarshalLLMResponse response = none) :
    (parseLLMResponse response).confidence = textConfidence response := by
  unfold parseLLMResponse
  split
  · rename_i v hsome
    cases h.symm.trans hsome
  · rfl

theorem textConfidence_nonneg : 0 ≤ textConfidence response := by
  have hdefault : 0 ≤ defaultConfidence := by norm_num [defaultConfidence]
  unfold textConfidence
  split
  · rename_i m _
    cases hscan : scanFloat (captured m) with
    | none => exact hdefault
    | some x => exact scanFloat_nonneg hscan
  · exact hdefault

theorem textConfidence_le_iff : textConfidence response ≤ 1 ↔
    ∀ m x, Regex.find confidenceRegex response = some m → scanFloat (captured m) = some x →
      x ≤ 1 := by
  have hdefault : defaultConfidence ≤ 1 := by norm_num [defaultConfidence]
  unfold textConfidence
  cases Regex.find confidenceRegex response with
  | none => simpa using hdefault
  | some m =>
      constructor
      · intro hle m' x hm hscan
        cases hm
        simpa [hscan] using hle
      · intro h
        cases hscan : scanFloat (captured m) with
        | none => simpa [hscan] using hdefault
        | some x => simpa [hscan] using h m x rfl hscan

/-- The reply gives a fraction for its confidence, or nothing: the last number in its
    JSON, or the number after the first marker in any other text. -/
structure GivesFraction (response : String) : Prop where
  json : ∀ v literal, unmarshalLLMResponse response = some v →
    lastGiven "confidence" response = some (.number literal) →
    0 ≤ decimal literal ∧ decimal literal ≤ 1
  text : unmarshalLLMResponse response = none → ∀ m x,
    Regex.find confidenceRegex response = some m → scanFloat (captured m) = some x → x ≤ 1

/-- The confidence is a fraction exactly when the reply gives one, or nothing. -/
theorem confidence_fraction_iff (response : String) :
    (0 ≤ (parseLLMResponse response).confidence ∧ (parseLLMResponse response).confidence ≤ 1) ↔
      GivesFraction response := by
  cases hunmarshal : unmarshalLLMResponse response with
  | some v =>
      have htext : unmarshalLLMResponse response ≠ none := by simp [hunmarshal]
      rw [parse_of_unmarshal hunmarshal]
      rcases confidence_cases hunmarshal with ⟨literal, hlast, hconfidence⟩ | ⟨hzero, hno⟩
      · rw [hconfidence]
        constructor
        · intro hfraction
          constructor
          · intro v' literal' _ hlast'
            cases hlast.symm.trans hlast'
            exact hfraction
          · intro hnone
            exact absurd hnone htext
        · intro hgives
          exact hgives.json v literal hunmarshal hlast
      · rw [hzero]
        exact iff_of_true ⟨le_rfl, zero_le_one⟩
          ⟨fun v' literal _ hlast => absurd hlast (hno literal), fun hnone => absurd hnone htext⟩
  | none =>
      rw [confidence_of_reject hunmarshal, textConfidence_le_iff]
      constructor
      · intro ⟨_, htext⟩
        exact ⟨fun v literal hsome => absurd (hunmarshal.symm.trans hsome) nofun, fun _ => htext⟩
      · intro hgives
        exact ⟨textConfidence_nonneg, hgives.text hunmarshal⟩

/-- A percentage is no fraction. -/
theorem confidence_percent : ¬∀ response, 0 ≤ (parseLLMResponse response).confidence ∧
    (parseLLMResponse response).confidence ≤ 1 := by
  intro h
  have hconfidence : (parseLLMResponse "confidence: 95").confidence = 95 := by decide +kernel
  have hle := (h "confidence: 95").2
  rw [hconfidence] at hle
  exact absurd hle (by decide)

/-! ## The analysis -/

variable {a : Analyzer} {cache : Cache LLMResponse} {key : CacheKey} {out : Outside}
  {content : String}

/-- The call does not find its answer, and the model replies with `content`. -/
structure Replied (a : Analyzer) (cache : Cache LLMResponse) (key : CacheKey) (out : Outside)
    (content : String) : Prop where
  miss : (cache.get key out.getAt).1 = none
  chat : ∃ c choices, collectPrometheusData a.loc out.prometheus key.startTime key.endTime
    key.metrics = .ok c ∧ out.chat (a.chatRequest key.question c.result) = .ok (content :: choices)

/-- The call returns a result with an analysis, and stores it for the time to live. -/
def KeepsText (a : Analyzer) (cache : Cache LLMResponse) (key : CacheKey) (out : Outside) : Prop :=
  ∃ v, (a.analyze cache key out).result = .ok v ∧
    (a.analyze cache key out).cache.stored key.string = some ⟨v, out.setAt + cache.ttl⟩ ∧
    v.analysis ≠ ""

/-- The reply decodes to what is returned and stored. -/
theorem analyze_replied (h : Replied a cache key out content) :
    (a.analyze cache key out).result = .ok (parseLLMResponse content) ∧
      (a.analyze cache key out).cache.stored key.string =
        some ⟨parseLLMResponse content, out.setAt + cache.ttl⟩ := by
  obtain ⟨hmiss, c, choices, hcollect, hchat⟩ := h
  rw [analyze_miss hmiss]
  simp only [Analyzer.analyzeMiss, hcollect, hchat, true_and]
  rw [Cache.stored_set, Function.update_self, Cache.get_ttl]

theorem analysis_ne_iff (hcontent : content ≠ "") : (parseLLMResponse content).analysis ≠ "" ↔
    unmarshalLLMResponse content = none ∨
      ∃ s, lastGiven "analysis" content = some (.string s) ∧ s ≠ "" := by
  cases hunmarshal : unmarshalLLMResponse content with
  | none =>
      have hparsed : (parseLLMResponse content).analysis = content := by
        rw [parseLLMResponse, hunmarshal]
      rw [hparsed]
      exact iff_of_true hcontent (.inl rfl)
  | some v =>
      rw [parse_of_unmarshal hunmarshal]
      simp only [reduceCtorEq, false_or]
      rcases analysis_cases hunmarshal with hlast | ⟨hempty, hno⟩
      · constructor
        · intro hne
          exact ⟨v.analysis, hlast, hne⟩
        · intro ⟨s, hlast', hne⟩
          cases hlast.symm.trans hlast'
          exact hne
      · exact iff_of_false (not_not.mpr hempty) fun ⟨s, hlast, _⟩ => hno s hlast

/-- The text of a reply is kept exactly when the reply does not decode, or its last
    analysis is not empty. -/
theorem text_kept_iff (a : Analyzer) (cache : Cache LLMResponse) (key : CacheKey)
    (out : Outside) (content : String) (hreplied : Replied a cache key out content)
    (hcontent : content ≠ "") : KeepsText a cache key out ↔
      unmarshalLLMResponse content = none ∨
        ∃ s, lastGiven "analysis" content = some (.string s) ∧ s ≠ "" := by
  obtain ⟨hresult, hstored⟩ := analyze_replied hreplied
  rw [← analysis_ne_iff hcontent]
  constructor
  · intro ⟨v, hv, _, hne⟩
    cases hresult.symm.trans hv
    exact hne
  · intro hne
    exact ⟨_, hresult, hstored, hne⟩

theorem reply_replied (content : String) : Replied plainAnalyzer (.new 10) (epochKey "cpu?" ["up"])
    (reply 0 1 content) content :=
  ⟨rfl, _, [], rfl, rfl⟩

/-- A reply in plain words is kept. -/
theorem text_kept_fine :
    KeepsText plainAnalyzer (.new 10) (epochKey "cpu?" ["up"]) (reply 0 1 "fine") :=
  (text_kept_iff _ _ _ _ "fine" (reply_replied "fine") (by decide)).mpr (.inl (by decide +kernel))

/-- An empty object is not. -/
theorem text_swallowed : ¬∀ (cache : Cache LLMResponse) (key : CacheKey) (out : Outside)
    (content : String), Replied plainAnalyzer cache key out content → content ≠ "" →
    KeepsText plainAnalyzer cache key out := by
  intro h
  obtain ⟨v, hv, _, hne⟩ := h (.new 10) (epochKey "cpu?" ["up"]) (reply 0 1 "\x7b\x7d") _
    (reply_replied _) (by decide)
  rw [(analyze_replied (reply_replied _)).1] at hv
  cases hv
  exact hne (by decide +kernel)

end Chain
