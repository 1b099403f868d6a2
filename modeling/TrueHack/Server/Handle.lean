-- SUMMARY: The analyze endpoint: decoding the body, calling the analyzer, and what becomes of the requested range.
import TrueHack.Chain.AnalyzerRuns

/-!
# The analyze endpoint

`handleAnalyze` decodes the first JSON value of the body, parses the two times
and passes them on. The range then becomes part of the cache key and travels down
to the collector, but no query depends on it: each is evaluated at the reading of
the server's clock.
-/

namespace Server

open Go Collector Chain

/-- `AnalyzeRequest` -/
structure AnalyzeRequest where
  question : String
  startTime : String
  endTime : String
  metrics : StringSlice
deriving DecidableEq

/-- The zero value. -/
def AnalyzeRequest.zero : AnalyzeRequest := ⟨"", "", "", .nil⟩

/-- One member of the body's object. -/
def AnalyzeRequest.member (req : AnalyzeRequest) (m : String × Json) : Option AnalyzeRequest := do
  let (key, v) := m
  if names key "question" then
    let question ← decodeString req.question v
    some { req with question := question }
  else if names key "start_time" then
    let startTime ← decodeString req.startTime v
    some { req with startTime := startTime }
  else if names key "end_time" then
    let endTime ← decodeString req.endTime v
    some { req with endTime := endTime }
  else if names key "metrics" then
    let metrics ← decodeStrings req.metrics v
    some { req with metrics := metrics }
  else some req

/-- `json.NewDecoder(r.Body).Decode(&req)` -/
def decodeRequest (body : String) : Option AnalyzeRequest := do
  let v ← Json.firstValue body
  decodeStruct AnalyzeRequest.member .zero v

/-- The arguments of the call that the body asks for, or the text of the answer 400. -/
def parseRequest (loc : Location) (body : String) : Except String CacheKey :=
  match decodeRequest body with
  | none => .error "Invalid request"
  | some req =>
      match parseRFC3339 loc req.startTime with
      | none => .error "Invalid start time format"
      | some startTime =>
          match parseRFC3339 loc req.endTime with
          | none => .error "Invalid end time format"
          | some endTime => .ok ⟨req.question, startTime, endTime, req.metrics.toList⟩

/-- What the client gets. A panic ends the connection without a response. -/
inductive Response where
  | error (status : ℕ) (message : String)
  | json (result : LLMResponse)
  | aborted
deriving DecidableEq

/-- A handled request: the response, the cache it leaves, the arguments of the call of
    `Analyze` if there was one, and what was asked of the outside. -/
structure Handled where
  response : Response
  cache : Cache LLMResponse
  called : Option CacheKey
  contacts : List Contact

/-- `Server.handleAnalyze` -/
def handleAnalyze (a : Analyzer) (cache : Cache LLMResponse) (body : String) (out : Outside) :
    Handled :=
  match parseRequest a.loc body with
  | .error message => ⟨.error 400 message, cache, none, []⟩
  | .ok key =>
      let outcome := a.analyze cache key out
      let response := match outcome.result with
        | .ok result => .json result
        | .err err => .error 500 s!"Analysis failed: {err}"
        | .panic => .aborted
      ⟨response, outcome.cache, some key, outcome.contacts⟩

variable {a : Analyzer} {cache : Cache LLMResponse} {body : String} {out : Outside}
  {key : CacheKey}

theorem handleAnalyze_accepted (h : parseRequest a.loc body = .ok key) :
    (handleAnalyze a cache body out).called = some key ∧
      (handleAnalyze a cache body out).contacts = (a.analyze cache key out).contacts := by
  simp [handleAnalyze, h]

theorem called_iff : (handleAnalyze a cache body out).called = some key ↔
    parseRequest a.loc body = .ok key := by
  unfold handleAnalyze
  cases parseRequest a.loc body with
  | error message => simp
  | ok key' => simp

/-- The times of an accepted request come from parsing. -/
theorem parsed_of_accepted {loc : Location} (h : parseRequest loc body = .ok key) :
    key.Parsed loc := by
  unfold parseRequest at h
  split at h
  · cases h
  · rename_i req _
    split at h
    · cases h
    · rename_i startTime hstart
      split at h
      · cases h
      · rename_i endTime hend
        obtain rfl := Except.ok.inj h
        exact ⟨⟨req.startTime, hstart⟩, ⟨req.endTime, hend⟩⟩

/-! ## The range -/

/-- The instant lies in the range of the key. -/
def InRange (key : CacheKey) (instant : ℤ) : Prop :=
  key.startTime.instant ≤ instant ∧ instant ≤ key.endTime.instant

instance (key : CacheKey) (instant : ℤ) : Decidable (InRange key instant) :=
  inferInstanceAs (Decidable (_ ∧ _))

/-- The queries of a call that does not find its answer are those of the loop. -/
theorem query_mem_miss {q : Query} (hmiss : (cache.get key out.getAt).1 = none) :
    .query q ∈ (a.analyze cache key out).contacts ↔
      ∃ ms, requestedMetrics out.prometheus key.metrics = .ok ms ∧
        q ∈ (collectLoop a.loc out.prometheus key.startTime key.endTime ms).queries := by
  have hcollect : .query q ∈ Analyzer.collectContacts key.metrics
      (collectPrometheusData a.loc out.prometheus key.startTime key.endTime key.metrics) ↔
      ∃ ms, requestedMetrics out.prometheus key.metrics = .ok ms ∧
        q ∈ (collectLoop a.loc out.prometheus key.startTime key.endTime ms).queries := by
    unfold Analyzer.collectContacts collectPrometheusData
    cases requestedMetrics out.prometheus key.metrics with
    | error err => by_cases hempty : key.metrics.length = 0 <;> simp [hempty]
    | ok ms => by_cases hempty : key.metrics.length = 0 <;> simp [hempty]
  rw [analyze_miss hmiss, ← hcollect]
  have hmisses := misses a (cache.get key out.getAt).2 key out
  generalize a.analyzeMiss (cache.get key out.getAt).2 key out = outcome at hmisses ⊢
  cases hmisses with
  | collectFailed h => rw [h]
  | chatFailed h => simp [h]
  | noChoice h => simp [h]
  | answered h => simp [h]

/-- For an accepted request, every query lies in the requested range exactly when the
    answer is cached or the server's clock reads a time in the range whenever the loop
    asks for a metric; and where all queries do, so do the samples that come back. -/
theorem range_respected_iff (a : Analyzer) (cache : Cache LLMResponse) (body : String)
    (out : Outside) (key : CacheKey) (haccepted : parseRequest a.loc body = .ok key) :
    ((∀ q, .query q ∈ (handleAnalyze a cache body out).contacts → InRange key q.instant) ↔
      (∃ v, (cache.get key out.getAt).1 = some v) ∨
      ∀ ms, requestedMetrics out.prometheus key.metrics = .ok ms →
        ∀ i metric, ms[i]? = some metric →
          Asked a.loc out.prometheus key.startTime key.endTime ms i metric →
          InRange key (out.prometheus.queryAt i)) ∧
    ((∀ i q value, out.prometheus.query i q = .ok value →
        ∀ timestamp ∈ value.timestamps, timestamp = q.instant) →
      (∀ q, .query q ∈ (handleAnalyze a cache body out).contacts → InRange key q.instant) →
      ∀ i q value, .query q ∈ (handleAnalyze a cache body out).contacts →
        out.prometheus.query i q = .ok value →
        ∀ timestamp ∈ value.timestamps, InRange key timestamp) := by
  rw [(handleAnalyze_accepted haccepted).2]
  refine ⟨?_, ?_⟩
  · cases hget : (cache.get key out.getAt).1 with
    | some v => simp [analyze_hit hget]
    | none =>
        simp only [query_mem_miss hget, reduceCtorEq, exists_false, false_or]
        constructor
        · intro hqueries ms hms i metric hmetric hasked
          exact hqueries (metricQuery metric (out.prometheus.queryAt i))
            ⟨ms, hms, mem_queries_iff.mpr ⟨i, metric, hmetric, hasked, rfl⟩⟩
        · intro hclock q hq
          obtain ⟨ms, hms, hmem⟩ := hq
          obtain ⟨i, metric, hmetric, hasked, rfl⟩ := mem_queries_iff.mp hmem
          exact hclock ms hms i metric hmetric hasked
  · intro hstamped hqueries i q value hq hvalue timestamp htimestamp
    rw [hstamped i q value hvalue timestamp htimestamp]
    exact hqueries q hq

/-- A request for the first second of 1970. -/
def epochBody : String :=
  "\x7b\"question\": \"cpu?\", \"start_time\": \"1970-01-01T00:00:00Z\", " ++
    "\"end_time\": \"1970-01-01T00:00:01Z\", \"metrics\": [\"up\"]\x7d"

theorem epochBody_accepted : parseRequest .ofUTC epochBody = .ok (epochKey "cpu?" ["up"]) := by
  decide +kernel

/-- During that second the request is accepted and keeps to its range. -/
theorem range_respected_then :
    parseRequest plainAnalyzer.loc epochBody = .ok (epochKey "cpu?" ["up"]) ∧
    ∀ q, .query q ∈ (handleAnalyze plainAnalyzer (.new 10) epochBody (reply 0 1 "fine")).contacts →
      InRange (epochKey "cpu?" ["up"]) q.instant := by
  have hiff := range_respected_iff plainAnalyzer (.new 10) epochBody (reply 0 1 "fine") _
    epochBody_accepted
  refine ⟨epochBody_accepted, hiff.1.mpr (.inr ?_)⟩
  intro ms _ i metric _ _
  have hclock : (reply 0 1 "fine").prometheus.queryAt i = 0 := rfl
  rw [hclock]
  decide

/-- Nine seconds after the range is over, the query is evaluated nine seconds after it. -/
theorem range_ignored : ¬∀ (cache : Cache LLMResponse) (body : String) (out : Outside)
    (key : CacheKey), parseRequest .ofUTC body = .ok key →
    key.startTime.instant ≤ key.endTime.instant →
    ∀ q, .query q ∈ (handleAnalyze plainAnalyzer cache body out).contacts →
      InRange key q.instant := by
  intro h
  have hquery := h (.new 10) epochBody (reply 10000000000 10000000001 "fine") _ epochBody_accepted
    (by decide) ⟨"up", 10000000000⟩
  have haccepted : parseRequest plainAnalyzer.loc epochBody = .ok (epochKey "cpu?" ["up"]) :=
    epochBody_accepted
  rw [(handleAnalyze_accepted haccepted).2, query_mem_miss rfl] at hquery
  have hin := hquery ⟨["up"], rfl, mem_queries_iff.mpr ⟨0, "up", rfl, .inr (by decide), rfl⟩⟩
  exact absurd hin (by decide)

end Server
