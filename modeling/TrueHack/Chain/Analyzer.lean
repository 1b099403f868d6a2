-- SUMMARY: One call of the analyzer: cache, metric data, prompt, model reply, cache again.
import TrueHack.Chain.Cache
import TrueHack.Chain.Collect
import TrueHack.Chain.Parser

/-!
# The analyzer

A call of `analyze` is a function of the cache and of everything the outside
answers during the call. What it asks the outside is recorded in order.
-/

namespace Chain

open Go Collector

/-- `openai.ChatCompletionMessage` -/
structure ChatCompletionMessage where
  role : String
  content : String
deriving DecidableEq

/-- `openai.ChatCompletionRequest`, as far as the analyzer fills it in. -/
structure ChatCompletionRequest where
  model : String
  messages : List ChatCompletionMessage
  maxTokens : ℤ
deriving DecidableEq

/-- `GitInfo` -/
structure GitInfo where
  lastCommitHash : String
  lastCommitDiff : String

/-- `Analyzer` without its clients and its cache. -/
structure Analyzer where
  model : String
  maxTokens : ℤ
  gitInfo : GitInfo
  loc : Location

/-- What the outside does during one call. -/
structure Outside where
  /-- The clock in `cache.Get`. -/
  getAt : ℤ
  prometheus : Prometheus
  /-- The model's answer: the contents of the choices. -/
  chat : ChatCompletionRequest → Except String (List String)
  /-- The clock in `cache.Set`, or when a call that stores nothing ends. -/
  setAt : ℤ

/-- A request to the outside. -/
inductive Contact where
  | labelValues
  | query (q : Query)
  | chat (req : ChatCompletionRequest)
deriving DecidableEq

def Contact.isPrometheus : Contact → Bool
  | .chat _ => false
  | _ => true

/-- What a Go call with an error result comes to. -/
inductive GoResult (α : Type) where
  | ok (value : α)
  | err (message : String)
  | panic
deriving DecidableEq

/-- The result of a call, the cache it leaves, and what it asked the outside. -/
structure Outcome where
  result : GoResult LLMResponse
  cache : Cache LLMResponse
  contacts : List Contact

/-- The system prompt. -/
def systemPrompt : String :=
  "You are a system metrics analyzer. Analyze the provided metrics and provide insights. " ++
    "Be concise and focus on key findings. Consider recent code changes when analyzing the metrics."

namespace Analyzer

variable (a : Analyzer)

/-- `userPrompt` -/
def userPrompt (question : String) (prometheusData : List String) : String :=
  "Question: " ++ question ++ "\n\nMetrics data:\n" ++ String.join prometheusData ++
    "\n\nRecent changes:\n" ++ a.gitInfo.lastCommitHash ++ "\n" ++ a.gitInfo.lastCommitDiff

/-- The request for a chat completion. -/
def chatRequest (question : String) (prometheusData : List String) : ChatCompletionRequest where
  model := a.model
  messages := [⟨"system", systemPrompt⟩, ⟨"user", a.userPrompt question prometheusData⟩]
  maxTokens := a.maxTokens

/-- What `collectPrometheusData` asks Prometheus. -/
def collectContacts (metrics : List String) (collected : Except String Collected) :
    List Contact :=
  (if metrics.length = 0 then [.labelValues] else []) ++
    match collected with
    | .error _ => []
    | .ok c => c.queries.map .query

/-- `Analyzer.Analyze` after a cache miss that left the cache `cache`. -/
def analyzeMiss (cache : Cache LLMResponse) (key : CacheKey) (out : Outside) : Outcome :=
  let collected :=
    collectPrometheusData a.loc out.prometheus key.startTime key.endTime key.metrics
  let contacts := collectContacts key.metrics collected
  match collected with
  | .error err => ⟨.err s!"failed to collect Prometheus data: {err}", cache, contacts⟩
  | .ok c =>
      let req := a.chatRequest key.question c.result
      let contacts := contacts ++ [.chat req]
      match out.chat req with
      | .error err => ⟨.err s!"failed to get chat completion: {err}", cache, contacts⟩
      | .ok [] => ⟨.panic, cache, contacts⟩
      | .ok (content :: _) =>
          let result := parseLLMResponse content
          ⟨.ok result, cache.set key result out.setAt, contacts⟩

/-- `Analyzer.Analyze`; the key holds its arguments. -/
def analyze (cache : Cache LLMResponse) (key : CacheKey) (out : Outside) : Outcome :=
  match cache.get key out.getAt with
  | (some cached, cache) => ⟨.ok cached, cache, []⟩
  | (none, cache) => a.analyzeMiss cache key out

end Analyzer

/-! ## Hits and misses -/

variable {a : Analyzer} {cache : Cache LLMResponse} {key : CacheKey} {out : Outside}

/-- A call that finds its answer asks nobody and leaves the cache alone. -/
theorem analyze_hit {v : LLMResponse} (h : (cache.get key out.getAt).1 = some v) :
    a.analyze cache key out = ⟨.ok v, cache, []⟩ := by
  simp only [Analyzer.analyze, Cache.get_of_some h]

theorem analyze_miss (h : (cache.get key out.getAt).1 = none) :
    a.analyze cache key out = a.analyzeMiss (cache.get key out.getAt).2 key out := by
  unfold Analyzer.analyze
  cases hget : cache.get key out.getAt with
  | mk found rest =>
      rw [hget] at h
      simp only at h
      rw [h]

/-- Everything a call can come to that does not find its answer. -/
inductive Misses (a : Analyzer) (cache : Cache LLMResponse) (key : CacheKey) (out : Outside) :
    Outcome → Prop where
  | collectFailed {err : String}
      (hcollect : collectPrometheusData a.loc out.prometheus key.startTime key.endTime
        key.metrics = .error err) :
      Misses a cache key out ⟨.err s!"failed to collect Prometheus data: {err}", cache,
        Analyzer.collectContacts key.metrics (.error err)⟩
  | chatFailed {c : Collected} {err : String}
      (hcollect : collectPrometheusData a.loc out.prometheus key.startTime key.endTime
        key.metrics = .ok c)
      (hchat : out.chat (a.chatRequest key.question c.result) = .error err) :
      Misses a cache key out ⟨.err s!"failed to get chat completion: {err}", cache,
        Analyzer.collectContacts key.metrics (.ok c) ++
          [.chat (a.chatRequest key.question c.result)]⟩
  | noChoice {c : Collected}
      (hcollect : collectPrometheusData a.loc out.prometheus key.startTime key.endTime
        key.metrics = .ok c)
      (hchat : out.chat (a.chatRequest key.question c.result) = .ok []) :
      Misses a cache key out ⟨.panic, cache,
        Analyzer.collectContacts key.metrics (.ok c) ++
          [.chat (a.chatRequest key.question c.result)]⟩
  | answered {c : Collected} {content : String} {choices : List String}
      (hcollect : collectPrometheusData a.loc out.prometheus key.startTime key.endTime
        key.metrics = .ok c)
      (hchat : out.chat (a.chatRequest key.question c.result) = .ok (content :: choices)) :
      Misses a cache key out ⟨.ok (parseLLMResponse content),
        cache.set key (parseLLMResponse content) out.setAt,
        Analyzer.collectContacts key.metrics (.ok c) ++
          [.chat (a.chatRequest key.question c.result)]⟩

theorem misses (a : Analyzer) (cache : Cache LLMResponse) (key : CacheKey) (out : Outside) :
    Misses a cache key out (a.analyzeMiss cache key out) := by
  unfold Analyzer.analyzeMiss
  cases hcollect : collectPrometheusData a.loc out.prometheus key.startTime key.endTime
      key.metrics with
  | error err => exact .collectFailed hcollect
  | ok c =>
      dsimp only
      cases hchat : out.chat (a.chatRequest key.question c.result) with
      | error err => exact .chatFailed hcollect hchat
      | ok choices =>
          cases choices with
          | nil => exact .noChoice hcollect hchat
          | cons content choices => exact .answered hcollect hchat

/-- Collecting always asks Prometheus something. -/
theorem collectContacts_prometheus (a : Analyzer) (key : CacheKey) (out : Outside) :
    ∃ contact ∈ Analyzer.collectContacts key.metrics
      (collectPrometheusData a.loc out.prometheus key.startTime key.endTime key.metrics),
      contact.isPrometheus = true := by
  by_cases hempty : key.metrics.length = 0
  · exact ⟨.labelValues, by simp [Analyzer.collectContacts, hempty], rfl⟩
  · have hne : key.metrics ≠ [] := fun h => hempty (by rw [h]; rfl)
    have hqueries : (collectLoop a.loc out.prometheus key.startTime key.endTime
      key.metrics).queries ≠ [] := queries_ne_nil hne
    obtain ⟨q, hq⟩ := List.exists_mem_of_ne_nil _ hqueries
    refine ⟨.query q, ?_, rfl⟩
    simpa [Analyzer.collectContacts, hempty, collectPrometheusData, requestedMetrics] using hq

/-- A call that does not find its answer asks Prometheus. -/
theorem Misses.prometheus {outcome : Outcome} (h : Misses a cache key out outcome) :
    ∃ contact ∈ outcome.contacts, contact.isPrometheus = true := by
  obtain ⟨contact, hmem, hprometheus⟩ := collectContacts_prometheus a key out
  refine ⟨contact, ?_, hprometheus⟩
  cases h with
  | collectFailed hcollect => rwa [hcollect] at hmem
  | chatFailed hcollect => exact List.mem_append_left _ (by rwa [hcollect] at hmem)
  | noChoice hcollect => exact List.mem_append_left _ (by rwa [hcollect] at hmem)
  | answered hcollect => exact List.mem_append_left _ (by rwa [hcollect] at hmem)

/-- A call asks nobody exactly when its answer is in the cache. -/
theorem contacts_eq_nil_iff :
    (a.analyze cache key out).contacts = [] ↔ ∃ v, (cache.get key out.getAt).1 = some v := by
  cases hget : (cache.get key out.getAt).1 with
  | some v => simp [analyze_hit hget]
  | none =>
      obtain ⟨contact, hmem, _⟩ :=
        (misses a (cache.get key out.getAt).2 key out).prometheus
      simp only [analyze_miss hget, reduceCtorEq, exists_false, iff_false]
      exact List.ne_nil_of_mem hmem

end Chain
