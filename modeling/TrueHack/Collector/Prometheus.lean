-- SUMMARY: The Prometheus collector: metric names, one instant query per metric, and the text of its answer.
import TrueHack.Go.Time

/-!
# The Prometheus collector

Prometheus is outside the program: `Prometheus` holds what it answers during one
request, and what the clock reads when each query is sent. The range of the
request reaches `getMetricData` and is not used there.
-/

namespace Collector

open Go

/-- `model.Metric`: the labels of a series in the order in which a `range` over the map
    meets them. -/
structure LabelSet where
  labels : List (String × String)
  nodup : (labels.map Prod.fst).Nodup

/-- `model.Sample`. A value is what its `String` method prints, a timestamp is an instant
    in nanoseconds. -/
structure Sample where
  metric : LabelSet
  value : String
  timestamp : ℤ

/-- `model.SamplePair` -/
structure SamplePair where
  timestamp : ℤ
  value : String

/-- `model.SampleStream` -/
structure SampleStream where
  metric : LabelSet
  values : List SamplePair

/-- `model.Value`; scalars and strings are `other`. -/
inductive Value where
  | vector (v : List Sample)
  | matrix (v : List SampleStream)
  | other

/-- The timestamps of all samples of a value. -/
def Value.timestamps : Value → List ℤ
  | .vector v => v.map Sample.timestamp
  | .matrix v => v.flatMap fun stream => stream.values.map SamplePair.timestamp
  | .other => []

/-- An instant query: its expression, and the instant it is evaluated at. -/
structure Query where
  expr : String
  instant : ℤ
deriving DecidableEq

/-- What Prometheus and the clock do during one request. Position `i` stands for the
    `i`-th metric of the list. -/
structure Prometheus where
  /-- The answer to the request for all values of `__name__`. -/
  labelValues : Except String (List String)
  /-- `time.Now()` when the query is sent. -/
  queryAt : ℕ → ℤ
  query : ℕ → Query → Except String Value

/-- `PrometheusCollector.GetAllMetrics` -/
def getAllMetrics (p : Prometheus) : Except String (List String) :=
  match p.labelValues with
  | .error err => .error s!"failed to get metric names: {err}"
  | .ok names => .ok names

/-- `strings.ReplaceAll(metric, ".", "_")` -/
def escapeMetric (metric : String) : String :=
  String.ofList (metric.toList.map fun c => if c = '.' then '_' else c)

/-- The label text of a series: nothing without labels, otherwise in braces. -/
def formatLabels (metric : LabelSet) : String :=
  let labels := (metric.labels.filter fun (name, _) => name ≠ "__name__").map
    fun (name, value) => name ++ "=" ++ value
  let labelStr := ", ".intercalate labels
  if labelStr ≠ "" then "\x7b" ++ labelStr ++ "\x7d" else labelStr

/-- `Timestamp.Time()` on a machine in the location `loc`. -/
def timestampTime (loc : Location) (timestamp : ℤ) : Time where
  unix := timestamp / 1000000000
  nsec := (timestamp % 1000000000).toNat
  zone := loc.lookup (timestamp / 1000000000)
  nsec_lt := by omega

/-- One line of a vector. -/
def formatSample (metric : String) (sample : Sample) : String :=
  metric ++ formatLabels sample.metric ++ ": " ++ sample.value ++ "\n"

/-- One line of a stream. -/
def formatPoint (loc : Location) (point : SamplePair) : String :=
  "  " ++ (timestampTime loc point.timestamp).formatRFC3339 ++ ": " ++ point.value ++ "\n"

/-- A stream of a matrix. -/
def formatStream (loc : Location) (metric : String) (stream : SampleStream) : String :=
  metric ++ formatLabels stream.metric ++ ":\n" ++
    String.join (stream.values.map (formatPoint loc))

/-- The text of an answer. -/
def formatValue (loc : Location) (metric : String) : Value → String
  | .vector v => String.join (v.map (formatSample metric))
  | .matrix v => String.join (v.map (formatStream loc metric))
  | .other => ""

/-- The query `GetMetricData` sends when the clock reads `now`. -/
def metricQuery (metric : String) (now : ℤ) : Query := ⟨escapeMetric metric, now⟩

/-- `PrometheusCollector.GetMetricData` for the metric at position `i`. -/
def getMetricData (loc : Location) (p : Prometheus) (i : ℕ) (metric : String)
    (_startTime _endTime : Time) : Except String String :=
  match p.query i (metricQuery metric (p.queryAt i)) with
  | .error err => .error s!"failed to query metric: {err}"
  | .ok value => .ok (formatValue loc metric value)

end Collector
