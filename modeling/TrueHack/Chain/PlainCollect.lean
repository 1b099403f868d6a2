-- SUMMARY: The collector's own Collect without a budget, and when the analyzer leaves out nothing of what it collects.
import TrueHack.Chain.Selection

/-!
# Collecting without a budget

`PrometheusCollector.Collect` asks for every metric and keeps every answer. The
analyzer goes through the metrics itself, with a budget, and puts the important
ones in front. The two agree up to the order as long as each metric that is not
important fits when its turn comes.
-/

namespace Collector

open Go

variable (loc : Location) (p : Prometheus) (startTime endTime : Time)

/-- The loop body of `PrometheusCollector.Collect` for the metric at position `i`. -/
def collectBody (result : String) (metricAt : String × ℕ) : String :=
  let (metric, i) := metricAt
  match getMetricData loc p i metric startTime endTime with
  | .error _ => result
  | .ok data => if data ≠ "" then result ++ data ++ "\n" else result

/-- `PrometheusCollector.Collect`; it never returns an error. -/
def collectMetrics (metrics : List String) : String :=
  metrics.zipIdx.foldl (collectBody loc p startTime endTime) ""

/-- The data of the metric at position `i`, if Prometheus has some. -/
def dataOf (metricAt : String × ℕ) : Option String :=
  match getMetricData loc p metricAt.2 metricAt.1 startTime endTime with
  | .error _ => none
  | .ok data => if data = "" then none else some data

/-- The data of all metrics, in order. -/
def allData (metrics : List String) : List String :=
  metrics.zipIdx.filterMap (dataOf loc p startTime endTime)

variable {loc p startTime endTime}

/-- What is collected is the data of all metrics, each on lines of its own. -/
theorem collectMetrics_eq (metrics : List String) :
    collectMetrics loc p startTime endTime metrics =
      String.join ((allData loc p startTime endTime metrics).map (· ++ "\n")) := by
  have hfold (l : List (String × ℕ)) (result : String) :
      l.foldl (collectBody loc p startTime endTime) result =
        result ++ String.join ((l.filterMap (dataOf loc p startTime endTime)).map (· ++ "\n")) := by
    induction l generalizing result with
    | nil => simp
    | cons metricAt l ih =>
        obtain ⟨metric, i⟩ := metricAt
        rw [List.foldl_cons, ih]
        cases hdata : getMetricData loc p i metric startTime endTime with
        | error err => simp [collectBody, dataOf, hdata]
        | ok data =>
            by_cases hempty : data = ""
            · simp [collectBody, dataOf, hdata, hempty]
            · simp [collectBody, dataOf, hdata, hempty, String.join_cons, String.append_assoc]
  exact (hfold _ _).trans (by simp [allData])

end Collector

namespace Chain

open Go Collector

variable {loc : Location} {p : Prometheus} {startTime endTime : Time}

/-- The items that the metrics offer to the selection are their data as entries. -/
theorem items_offers (metrics : List String) :
    Budget.items (offers loc p startTime endTime metrics) =
      (allData loc p startTime endTime metrics).map Collected.metricEntry := by
  have hentry (metricAt : String × ℕ) : (offer loc p startTime endTime metricAt).item =
      (dataOf loc p startTime endTime metricAt).map Collected.metricEntry := by
    unfold offer entryOf dataOf
    cases getMetricData loc p metricAt.2 metricAt.1 startTime endTime with
    | error err => rfl
    | ok data => by_cases hempty : data = "" <;> simp [hempty]
  rw [Budget.items, offers, allData, List.filterMap_map, List.map_filterMap]
  exact congrArg (List.filterMap · metrics.zipIdx) (funext hentry)

/-- The analyzer leaves out nothing of what `Collect` would return for the same metrics exactly
    when every metric that is not important fits beside all those before it. -/
theorem all_collected_iff (loc : Location) (p : Prometheus) (startTime endTime : Time)
    (metrics ms : List String) (hms : requestedMetrics p metrics = .ok ms) :
    ∃ c, collectPrometheusData loc p startTime endTime metrics = .ok c ∧
      collectMetrics loc p startTime endTime ms =
        String.join ((allData loc p startTime endTime ms).map (· ++ "\n")) ∧
      (c.result.Perm ((allData loc p startTime endTime ms).map Collected.metricEntry) ↔
        Budget.Fits maxInputTokens estimateTokens 0 (offers loc p startTime endTime ms)) := by
  refine ⟨_, collect_ok_iff.mpr ⟨ms, hms, rfl⟩, collectMetrics_eq ms, ?_⟩
  rw [(collectLoop_holds ms).1, ← items_offers]
  exact Budget.pick_perm_iff _

/-- With a short label both entries are collected. -/
theorem all_collected_short : ∃ c, collectPrometheusData .ofUTC (crowded 1) epoch epoch
    ["go_info", "machine_cpu_cores"] = .ok c ∧
      c.result.Perm ((allData .ofUTC (crowded 1) epoch epoch ["go_info", "machine_cpu_cores"]).map
        Collected.metricEntry) := by
  have hfits : Budget.Fits maxInputTokens estimateTokens 0
      (offers .ofUTC (crowded 1) epoch epoch ["go_info", "machine_cpu_cores"]) := by
    rw [offers_crowded]
    decide
  obtain ⟨c, hc, _, hiff⟩ := all_collected_iff .ofUTC (crowded 1) epoch epoch
    ["go_info", "machine_cpu_cores"] _ rfl
  exact ⟨c, hc, hiff.mpr hfits⟩

end Chain
