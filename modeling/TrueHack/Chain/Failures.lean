-- SUMMARY: Calls that fail: when an outage is reported, when a call panics, and what a failed call leaves behind.
import TrueHack.Chain.AnalyzerRuns
import TrueHack.Chain.Selection

/-!
# Failures

A call with an empty list of metrics fails with Prometheus. A call that names its
metrics skips each of them and asks the model about nothing. And a completion
without choices is indexed as if it had one.
-/

namespace Chain

open Go Collector

variable {a : Analyzer} {cache : Cache LLMResponse} {key : CacheKey} {out : Outside}

/-! ## Outages -/

/-- Prometheus fails on every call for a list of metrics: on the one for all names if the list
    is empty, and on the query of every metric. -/
structure Down (p : Prometheus) (metrics : List String) : Prop where
  labelValues : metrics.length = 0 → ∃ err, p.labelValues = .error err
  query : ∀ i metric, metrics[i]? = some metric →
    ∃ err, p.query i (metricQuery metric (p.queryAt i)) = .error err

/-- The call returns an error, and no entry is in the cache that was not there before. -/
def Reported (a : Analyzer) (cache : Cache LLMResponse) (key : CacheKey) (out : Outside) : Prop :=
  (∃ err, (a.analyze cache key out).result = .err err) ∧
    ∀ k entry, (a.analyze cache key out).cache.stored k = some entry →
      cache.stored k = some entry

/-- A call that asks anybody reports the outage. One that finds its answer in the cache asks
    nobody. -/
def ReportsOutage (a : Analyzer) (cache : Cache LLMResponse) (key : CacheKey) (out : Outside) :
    Prop :=
  (a.analyze cache key out).contacts ≠ [] → Reported a cache key out

theorem plainSelection_down {loc : Location} {p : Prometheus} {startTime endTime : Time}
    {metrics : List String} (hdown : Down p metrics) :
    plainSelection loc p startTime endTime metrics = [] := by
  have hnone : ∀ o ∈ offers loc p startTime endTime metrics, o.item = none := by
    intro o ho
    obtain ⟨⟨metric, i⟩, hmem, rfl⟩ := List.mem_map.mp ho
    obtain ⟨err, herr⟩ := hdown.query i metric (List.mem_zipIdx_iff_getElem?.mp hmem)
    simp [offer, entryOf, getMetricData, herr]
  rw [plainSelection, importantEntries, acceptedEntries, Budget.vitals_of_none hnone,
    Budget.accepted_of_none hnone]
  rfl

/-- During an outage only a list of metrics in the request lets the collector succeed,
    and then it has nothing. -/
theorem collect_down {a : Analyzer} (hdown : Down out.prometheus key.metrics) :
    (key.metrics.length = 0 → ∃ err, collectPrometheusData a.loc out.prometheus key.startTime
      key.endTime key.metrics = .error err) ∧
    (key.metrics.length ≠ 0 → ∃ c, collectPrometheusData a.loc out.prometheus key.startTime
      key.endTime key.metrics = .ok c ∧ c.result = []) := by
  constructor
  · intro hempty
    obtain ⟨err, herr⟩ := hdown.labelValues hempty
    simp [collectPrometheusData, requestedMetrics, hempty, getAllMetrics, herr]
  · intro hnamed
    have hrequested : requestedMetrics out.prometheus key.metrics = .ok key.metrics :=
      requestedMetrics_of_names _ (mt List.length_eq_zero_iff.mpr hnamed)
    refine ⟨_, collect_ok_iff.mpr ⟨key.metrics, hrequested, rfl⟩, ?_⟩
    rw [collectLoop_result, plainSelection_down hdown]

/-- A call that stores nothing leaves no new entry. -/
theorem stored_of_get {k : String} {entry : CacheEntry LLMResponse}
    (h : (cache.get key out.getAt).2.stored k = some entry) : cache.stored k = some entry := by
  rcases Cache.stored_get cache key out.getAt with heq | ⟨_, _, _, heq⟩
  · rwa [heq] at h
  · rw [heq] at h
    by_cases hk : k = key.string
    · subst hk
      simp at h
    · rwa [Function.update_of_ne hk] at h

/-- A call that does not find its answer reports the outage exactly if it leaves the choice of
    metrics to Prometheus, or fails at the model as well. -/
theorem reported_iff_of_miss (hdown : Down out.prometheus key.metrics)
    (hget : (cache.get key out.getAt).1 = none) :
    Reported a cache key out ↔ key.metrics.length = 0 ∨
      ∃ err, out.chat (a.chatRequest key.question []) = .error err := by
  obtain ⟨hempty, hnamed⟩ := collect_down hdown
  have hmiss := misses a (cache.get key out.getAt).2 key out
  rw [← analyze_miss hget] at hmiss
  have hchatted {c : Collected} (hcollect : collectPrometheusData a.loc out.prometheus
      key.startTime key.endTime key.metrics = .ok c) :
      key.metrics.length ≠ 0 ∧ c.result = [] := by
    have hlength : key.metrics.length ≠ 0 := by
      intro hzero
      obtain ⟨err, herr⟩ := hempty hzero
      cases hcollect.symm.trans herr
    obtain ⟨c', hc', hnil⟩ := hnamed hlength
    obtain rfl := Except.ok.inj (hc'.symm.trans hcollect)
    exact ⟨hlength, hnil⟩
  unfold Reported
  generalize a.analyze cache key out = outcome at hmiss ⊢
  cases hmiss with
  | @collectFailed err hcollect =>
      have hlength : key.metrics.length = 0 := by
        by_contra hne
        obtain ⟨c, hc, _⟩ := hnamed hne
        cases hc.symm.trans hcollect
      exact iff_of_true ⟨⟨_, rfl⟩, fun k entry h => stored_of_get h⟩ (.inl hlength)
  | @chatFailed c err hcollect hchat =>
      rw [(hchatted hcollect).2] at hchat
      exact iff_of_true ⟨⟨_, rfl⟩, fun k entry h => stored_of_get h⟩ (.inr ⟨err, hchat⟩)
  | noChoice hcollect hchat =>
      obtain ⟨hlength, hnil⟩ := hchatted hcollect
      rw [hnil] at hchat
      simp [hlength, hchat]
  | answered hcollect hchat =>
      obtain ⟨hlength, hnil⟩ := hchatted hcollect
      rw [hnil] at hchat
      simp [hlength, hchat]

/-- An outage is reported exactly if the call finds its answer in the cache and meets no
    outage, leaves the choice of metrics to Prometheus, or fails at the model as well. -/
theorem outage_reported_iff (a : Analyzer) (cache : Cache LLMResponse) (key : CacheKey)
    (out : Outside) (hdown : Down out.prometheus key.metrics) :
    ReportsOutage a cache key out ↔ (∃ v, (cache.get key out.getAt).1 = some v) ∨
      key.metrics.length = 0 ∨ ∃ err, out.chat (a.chatRequest key.question []) = .error err := by
  unfold ReportsOutage
  cases hget : (cache.get key out.getAt).1 with
  | some v =>
      have hnobody := contacts_eq_nil_iff (a := a).mpr ⟨v, hget⟩
      exact iff_of_true (fun hasks => absurd hnobody hasks) (.inl ⟨v, rfl⟩)
  | none =>
      have hasks : (a.analyze cache key out).contacts ≠ [] := by
        rw [ne_eq, contacts_eq_nil_iff, hget]
        simp
      rw [reported_iff_of_miss hdown hget]
      simp [hasks]

/-- Prometheus is down, and the model says something all the same. -/
def outage (content : String) : Outside where
  getAt := 0
  prometheus := ⟨.error "connection refused", fun _ => 0, fun _ _ => .error "connection refused"⟩
  chat _ := .ok [content]
  setAt := 1

theorem outage_down (content : String) (metrics : List String) :
    Down (outage content).prometheus metrics :=
  ⟨fun _ => ⟨_, rfl⟩, fun _ _ _ => ⟨_, rfl⟩⟩

/-- A request that names no metrics fails. -/
theorem outage_reported :
    ReportsOutage plainAnalyzer (.new 10) (epochKey "cpu?" []) (outage "fine") :=
  (outage_reported_iff _ _ _ _ (outage_down "fine" [])).mpr (.inr (.inl rfl))

/-- A request that names a metric is answered, and the answer is stored. -/
theorem outage_answered : ¬∀ (cache : Cache LLMResponse) (key : CacheKey) (out : Outside),
    Down out.prometheus key.metrics → ReportsOutage plainAnalyzer cache key out := by
  intro h
  have hreports := h (.new 10) (epochKey "cpu?" ["up"]) (outage "fine") (outage_down "fine" _)
  obtain ⟨⟨err, herr⟩, _⟩ := hreports (by decide)
  cases herr

/-! ## Panics -/

/-- The call returns a result or an error; and if it returns no result, every entry is as
    before, but for its own expired one. -/
def Clean (a : Analyzer) (cache : Cache LLMResponse) (key : CacheKey) (out : Outside) : Prop :=
  ((∃ v, (a.analyze cache key out).result = .ok v) ∨
    ∃ err, (a.analyze cache key out).result = .err err) ∧
  ((∀ v, (a.analyze cache key out).result ≠ .ok v) →
    ∀ k, (a.analyze cache key out).cache.stored k = cache.stored k ∨
      k = key.string ∧ (a.analyze cache key out).cache.stored k = none ∧
        ∃ entry, cache.stored k = some entry ∧ entry.expiresAt < out.getAt)

/-- A call without a result stores nothing. -/
theorem stored_of_no_result (hno : ∀ v, (a.analyze cache key out).result ≠ .ok v) (k : String) :
    (a.analyze cache key out).cache.stored k = cache.stored k ∨
      k = key.string ∧ (a.analyze cache key out).cache.stored k = none ∧
        ∃ entry, cache.stored k = some entry ∧ entry.expiresAt < out.getAt := by
  have hanswer : (logged a cache key out).answer = none := by
    unfold logged Call.answer
    split
    · rename_i v hv
      exact absurd hv (hno v)
    · rfl
  exact stored_of_no_answer (s := ⟨cache, 0, []⟩) hanswer k

/-- The prompt is about the plain selection of the metrics asked for. -/
theorem result_of_collect {ms : List String} {c : Collected}
    (hms : requestedMetrics out.prometheus key.metrics = .ok ms)
    (hcollect : collectPrometheusData a.loc out.prometheus key.startTime key.endTime
      key.metrics = .ok c) :
    plainSelection a.loc out.prometheus key.startTime key.endTime ms = c.result := by
  obtain ⟨ms', hms', rfl⟩ := collect_ok_iff.mp hcollect
  cases hms.symm.trans hms'
  exact (collectLoop_result _ _ _ _ ms).symm

/-- A call leaves without a result or an error exactly if it does not find its answer, the
    metrics are known, and the model completes its prompt with no choice. -/
theorem clean_iff (a : Analyzer) (cache : Cache LLMResponse) (key : CacheKey) (out : Outside) :
    Clean a cache key out ↔ ¬((cache.get key out.getAt).1 = none ∧
      ∃ ms, requestedMetrics out.prometheus key.metrics = .ok ms ∧
        out.chat (a.chatRequest key.question
          (plainSelection a.loc out.prometheus key.startTime key.endTime ms)) = .ok []) := by
  have hframe (hno : ∀ v, (a.analyze cache key out).result ≠ .ok v) := stored_of_no_result hno
  unfold Clean
  rcases analyze_cases a cache key out with ⟨v, hget, heq⟩ | ⟨hget, hmiss⟩
  · rw [heq]
    simp [hget]
  generalize a.analyze cache key out = outcome at hmiss hframe ⊢
  cases hmiss with
  | collectFailed hcollect =>
      refine iff_of_true ⟨.inr ⟨_, rfl⟩, hframe⟩ ?_
      intro ⟨_, ms, hms, _⟩
      cases hcollect.symm.trans (collect_ok_iff.mpr ⟨ms, hms, rfl⟩)
  | chatFailed hcollect hchat =>
      refine iff_of_true ⟨.inr ⟨_, rfl⟩, hframe⟩ ?_
      intro ⟨_, ms, hms, hnone⟩
      rw [result_of_collect hms hcollect] at hnone
      cases hchat.symm.trans hnone
  | noChoice hcollect hchat =>
      obtain ⟨ms, hms, _⟩ := collect_ok_iff.mp hcollect
      refine iff_of_false (by simp) (not_not.mpr ⟨hget, ms, hms, ?_⟩)
      rw [result_of_collect hms hcollect]
      exact hchat
  | answered hcollect hchat =>
      refine iff_of_true ⟨.inl ⟨_, rfl⟩, hframe⟩ ?_
      intro ⟨_, ms, hms, hnone⟩
      rw [result_of_collect hms hcollect] at hnone
      cases hchat.symm.trans hnone

/-- A completion with no choices. -/
def choiceless : Outside where
  getAt := 0
  prometheus := ⟨.ok [], fun _ => 0, fun _ _ => .ok .other⟩
  chat _ := .ok []
  setAt := 1

/-- The call for it panics. -/
theorem choiceless_panic : ¬∀ (cache : Cache LLMResponse) (key : CacheKey) (out : Outside),
    Clean plainAnalyzer cache key out := by
  intro h
  have hpanic : (plainAnalyzer.analyze (.new 10) (epochKey "cpu?" ["up"]) choiceless).result =
      .panic := by
    decide
  have hclean := (h (.new 10) (epochKey "cpu?" ["up"]) choiceless).1
  rw [hpanic] at hclean
  simp at hclean

end Chain
