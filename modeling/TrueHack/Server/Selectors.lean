-- SUMMARY: What a requested name becomes in a query: a metric selector, or any other expression.
import TrueHack.Server.Handle

/-!
# Names and queries

The strings of a request go into queries with underscores for dots and otherwise
as they are. Only a string made of the characters of metric names and dots
becomes a selector; any other string is an expression of its own.
-/

namespace Server

open Go Collector Chain

/-- `[a-zA-Z_:]` -/
def isNameStart (c : Char) : Bool := c.isAlpha || c = '_' || c = ':'

/-- `[a-zA-Z0-9_:]` -/
def isNameRest (c : Char) : Bool := isNameStart c || c.isDigit

/-- The text matches `[a-zA-Z_:][a-zA-Z0-9_:]*`. -/
def isBareSelector (text : String) : Bool :=
  match text.toList with
  | [] => false
  | c :: cs => isNameStart c && cs.all isNameRest

/-- The text is the name of a metric in which some underscores may be dots. -/
def isDottedName (text : String) : Bool :=
  match text.toList with
  | [] => false
  | c :: cs => (isNameStart c || c = '.') && cs.all fun c => isNameRest c || c = '.'

/-- Where an underscore is allowed, a dot is before escaping. -/
theorem escaped_char {allowed : Char → Bool} (h : allowed '_' = true) (c : Char) :
    allowed (if c = '.' then '_' else c) = (allowed c || c = '.') := by
  split
  · rename_i hdot
    rw [h, decide_eq_true hdot, Bool.or_true]
  · rename_i hdot
    rw [decide_eq_false hdot, Bool.or_false]

/-- A name becomes a selector exactly if it is one up to dots. -/
theorem isBareSelector_escapeMetric (metric : String) :
    isBareSelector (escapeMetric metric) = isDottedName metric := by
  unfold isBareSelector isDottedName escapeMetric
  rw [String.toList_ofList]
  cases metric.toList with
  | nil => rfl
  | cons c cs =>
      have hstart : isNameStart '_' = true := rfl
      have hrest : isNameRest '_' = true := rfl
      simp only [List.map_cons, List.all_map, Function.comp_def, escaped_char hstart,
        escaped_char hrest]

/-- For every request, the queries for its names are selectors exactly when its answer is
    cached, or every name that the loop asks for is a metric's name up to dots. -/
theorem bare_selectors_iff (a : Analyzer) (cache : Cache LLMResponse) (body : String)
    (out : Outside) :
    (∀ key, (handleAnalyze a cache body out).called = some key → key.metrics ≠ [] →
      ∀ q, .query q ∈ (handleAnalyze a cache body out).contacts → isBareSelector q.expr = true) ↔
    ∀ key, parseRequest a.loc body = .ok key → key.metrics ≠ [] →
      (∃ v, (cache.get key out.getAt).1 = some v) ∨
      ∀ i metric, key.metrics[i]? = some metric →
        Asked a.loc out.prometheus key.startTime key.endTime key.metrics i metric →
        isDottedName metric = true := by
  apply forall_congr'
  intro key
  rw [called_iff]
  apply imp_congr_right
  intro haccepted
  apply imp_congr_right
  intro hnames
  have hrequested : requestedMetrics out.prometheus key.metrics = .ok key.metrics :=
    requestedMetrics_of_names out.prometheus hnames
  rw [(handleAnalyze_accepted haccepted).2]
  cases hget : (cache.get key out.getAt).1 with
  | some v => simp [analyze_hit hget]
  | none =>
      simp only [query_mem_miss hget, reduceCtorEq, exists_false, false_or]
      constructor
      · intro hqueries i metric hmetric hasked
        rw [← isBareSelector_escapeMetric]
        exact hqueries (metricQuery metric (out.prometheus.queryAt i))
          ⟨key.metrics, hrequested, mem_queries_iff.mpr ⟨i, metric, hmetric, hasked, rfl⟩⟩
      · intro hdotted q hq
        obtain ⟨ms, hms, hmem⟩ := hq
        cases hrequested.symm.trans hms
        obtain ⟨i, metric, hmetric, hasked, rfl⟩ := mem_queries_iff.mp hmem
        exact (isBareSelector_escapeMetric metric).trans (hdotted i metric hmetric hasked)

/-- A request whose only name is an expression. -/
def expressionBody : String :=
  "\x7b\"question\": \"cpu?\", \"start_time\": \"1970-01-01T00:00:00Z\", " ++
    "\"end_time\": \"1970-01-01T00:00:01Z\", \"metrics\": [\"up or vector(1)\"]\x7d"

/-- The expression is evaluated as it is. -/
theorem expression_evaluated : ¬∀ cache body out key,
    (handleAnalyze plainAnalyzer cache body out).called = some key → key.metrics ≠ [] →
    ∀ q, .query q ∈ (handleAnalyze plainAnalyzer cache body out).contacts →
      isBareSelector q.expr = true := by
  intro h
  have haccepted : parseRequest plainAnalyzer.loc expressionBody =
      .ok (epochKey "cpu?" ["up or vector(1)"]) := by decide +kernel
  have hselector := h (.new 10) expressionBody (reply 0 1 "fine") _
    (called_iff.mpr haccepted) (List.cons_ne_nil _ _) ⟨"up or vector(1)", 0⟩
  rw [(handleAnalyze_accepted haccepted).2, query_mem_miss rfl] at hselector
  have hbare := hselector ⟨["up or vector(1)"], rfl,
    mem_queries_iff.mpr ⟨0, "up or vector(1)", rfl, .inr (by decide), by decide +kernel⟩⟩
  exact absurd hbare (by decide +kernel)

end Server
