-- SUMMARY: Two runs of the collector that meet labels in different orders keep the same metrics.
import TrueHack.Chain.Positions
import TrueHack.Collector.LabelOrder

/-!
# The order of labels and the selection

Two runs that differ only in the order in which a map gives the labels see
entries of the same length for every metric. So they keep the same metrics, at the
same places of the result.
-/

namespace Chain

open Go Collector

variable {loc : Location} {p p' : Prometheus} {startTime endTime : Time}

/-- A metric has data in both runs or in neither, and its entries are equally long. -/
theorem sizeOf?_reordered (h : p.Reordered p') (metric : String) (i : ℕ) :
    sizeOf? loc p startTime endTime metric i = sizeOf? loc p' startTime endTime metric i := by
  have hanswer := h.answer i metric
  unfold Prometheus.answer at hanswer
  unfold sizeOf? entryOf getMetricData
  generalize p.query i (metricQuery metric (p.queryAt i)) = answer at hanswer ⊢
  generalize p'.query i (metricQuery metric (p'.queryAt i)) = answer' at hanswer ⊢
  cases hanswer with
  | error err => rfl
  | ok hvalue => exact size_congr (hvalue.utf8ByteSize loc metric)

/-- Both runs keep the same positions. -/
theorem keptPositions_reordered (h : p.Reordered p') (metrics : List String) :
    keptPositions loc p startTime endTime metrics =
      keptPositions loc p' startTime endTime metrics := by
  apply SamePlaces.keptPositions_eq
  constructor
  · rfl
  · intro i metric metric' hmetric hmetric'
    cases hmetric.symm.trans hmetric'
    exact sizeOf?_reordered h metric i
  · intro i metric metric' hmetric hmetric' _
    cases hmetric.symm.trans hmetric'
    rfl

/-- The two results agree: they are for the same metrics at the same places, entry for
    entry of the same length, and the totals are equal. -/
structure SameSelection (loc : Location) (p p' : Prometheus) (startTime endTime : Time)
    (metrics : List String) (c c' : Collected) : Prop where
  entries : List.Forall₂ (fun entry entry' => entry.utf8ByteSize = entry'.utf8ByteSize ∧
    ∃ i metric, metrics[i]? = some metric ∧
      entryOf loc p startTime endTime metric i = some entry ∧
      entryOf loc p' startTime endTime metric i = some entry') c.result c'.result
  totalTokens : c.totalTokens = c'.totalTokens

/-- The loop does not see the order of the labels. -/
theorem collectLoop_reordered (h : p.Reordered p') (metrics : List String) :
    SameSelection loc p p' startTime endTime metrics
      (collectLoop loc p startTime endTime metrics)
      (collectLoop loc p' startTime endTime metrics) := by
  obtain ⟨hresult, htotal⟩ := collectLoop_kept loc p startTime endTime metrics
  obtain ⟨hresult', htotal'⟩ := collectLoop_kept loc p' startTime endTime metrics
  rw [← keptPositions_reordered h] at hresult' htotal'
  constructor
  · rw [hresult, hresult', List.forall₂_map_left_iff, List.forall₂_map_right_iff, List.forall₂_same]
    intro i hkept
    obtain ⟨metric, entry, hmetric, hentry⟩ := mem_kept hkept
    have hsize : sizeOf? loc p startTime endTime metric i =
        sizeOf? loc p' startTime endTime metric i := sizeOf?_reordered h metric i
    rw [sizeOf?, sizeOf?, hentry] at hsize
    obtain ⟨entry', hentry', hsize'⟩ := Option.map_eq_some_iff.mp hsize.symm
    rw [entryAt_eq hmetric hentry, entryAt_eq hmetric hentry']
    exact ⟨hsize'.symm, i, metric, hmetric, hentry, hentry'⟩
  · rw [htotal, htotal']

/-- Whatever order the labels come in, the same metrics are selected. -/
theorem map_order_irrelevant (loc : Location) (p p' : Prometheus) (startTime endTime : Time)
    (metrics : List String) (h : p.Reordered p') :
    (∃ err, collectPrometheusData loc p startTime endTime metrics = .error err ∧
      collectPrometheusData loc p' startTime endTime metrics = .error err) ∨
    ∃ ms c c', requestedMetrics p metrics = .ok ms ∧
      collectPrometheusData loc p startTime endTime metrics = .ok c ∧
      collectPrometheusData loc p' startTime endTime metrics = .ok c' ∧
      SameSelection loc p p' startTime endTime ms c c' := by
  have hsame : requestedMetrics p' metrics = requestedMetrics p metrics := by
    unfold requestedMetrics getAllMetrics
    rw [h.labelValues]
  unfold collectPrometheusData
  rw [hsame]
  cases requestedMetrics p metrics with
  | error err => exact .inl ⟨err, rfl, rfl⟩
  | ok ms => exact .inr ⟨ms, _, _, rfl, rfl, rfl, collectLoop_reordered h ms⟩

/-- Prometheus with one series that has these labels. -/
def labelled (labels : LabelSet) : Prometheus where
  labelValues := .ok []
  queryAt _ := 0
  query _ _ := .ok (.vector [⟨labels, "1", 0⟩])

/-- Two labels in both orders. -/
theorem map_order_irrelevant_two : ∃ c c',
    collectPrometheusData .ofUTC (labelled ⟨[("job", "a"), ("env", "prod")], by decide⟩) epoch epoch
      ["up"] = .ok c ∧
    collectPrometheusData .ofUTC (labelled ⟨[("env", "prod"), ("job", "a")], by decide⟩) epoch epoch
      ["up"] = .ok c' ∧
    c.totalTokens = c'.totalTokens ∧ c.result ≠ c'.result := by
  have hanswer : (labelled ⟨[("job", "a"), ("env", "prod")], by decide⟩).Reordered
      (labelled ⟨[("env", "prod"), ("job", "a")], by decide⟩) :=
    ⟨rfl, fun _ _ => .ok (.vector (.cons ⟨.swap .., rfl, rfl⟩ .nil))⟩
  rcases map_order_irrelevant .ofUTC _ _ epoch epoch ["up"] hanswer with ⟨err, herror, _⟩ |
    ⟨ms, c, c', _, hc, hc', hsame⟩
  · cases herror
  · refine ⟨c, c', hc, hc', hsame.totalTokens, ?_⟩
    cases hc
    cases hc'
    decide +kernel

end Chain
