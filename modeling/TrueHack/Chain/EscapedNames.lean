-- SUMMARY: Names with dots: the query uses the escaped name, and importance the name as it was given.
import TrueHack.Base.Promotion
import TrueHack.Chain.Positions
import TrueHack.Chain.Selection
import TrueHack.Collector.LabelOrder

/-!
# Names with dots

`GetMetricData` asks Prometheus for a name with underscores for dots, and prints
the name as it was given. The selection looks up the given name, so a dotted name
of an important metric is queried as that metric and selected as an ordinary one.
The two places are the same only for the first entry of a result.
-/

namespace Collector

/-! ## Escaping -/

theorem escapeMetric_idem (metric : String) :
    escapeMetric (escapeMetric metric) = escapeMetric metric := by
  unfold escapeMetric
  rw [String.toList_ofList, List.map_map]
  congr 2
  funext c
  by_cases hdot : c = '.'
  · rw [Function.comp_apply, if_pos hdot]
    rfl
  · simp only [Function.comp_apply, if_neg hdot]

/-- A given name and its escaped form are the same query. -/
theorem metricQuery_escape (metric : String) (now : ℤ) :
    metricQuery (escapeMetric metric) now = metricQuery metric now := by
  rw [metricQuery, metricQuery, escapeMetric_idem]

theorem utf8ByteSize_map {f : Char → Char} (hf : ∀ c, (f c).utf8Size = c.utf8Size)
    (text : List Char) :
    (String.ofList (text.map f)).utf8ByteSize = (String.ofList text).utf8ByteSize := by
  induction text with
  | nil => rfl
  | cons c text ih =>
      have hcons (c : Char) (text : List Char) :
          String.ofList (c :: text) = String.singleton c ++ String.ofList text := by
        rw [String.singleton_eq_ofList, ← String.ofList_append, List.singleton_append]
      rw [List.map_cons, hcons, hcons, String.utf8ByteSize_append, String.utf8ByteSize_append, ih,
        String.utf8ByteSize_singleton, String.utf8ByteSize_singleton, hf]

theorem utf8ByteSize_escapeMetric (metric : String) :
    (escapeMetric metric).utf8ByteSize = metric.utf8ByteSize := by
  rw [escapeMetric, utf8ByteSize_map, String.ofList_toList]
  intro c
  split
  · rename_i hdot
    rw [hdot]
    rfl
  · rfl

/-- The text of an answer is as long for names of one length. -/
theorem utf8ByteSize_formatValue (loc : Go.Location) {metric metric' : String}
    (h : metric.utf8ByteSize = metric'.utf8ByteSize) (value : Value) :
    (formatValue loc metric value).utf8ByteSize = (formatValue loc metric' value).utf8ByteSize := by
  cases value with
  | vector v =>
      apply utf8ByteSize_join (R := Eq) _ (List.forall₂_eq_eq_eq ▸ rfl)
      intro sample sample' hsame
      cases hsame
      simp only [formatSample, String.utf8ByteSize_append, h]
  | matrix v =>
      apply utf8ByteSize_join (R := Eq) _ (List.forall₂_eq_eq_eq ▸ rfl)
      intro stream stream' hsame
      cases hsame
      simp only [formatStream, String.utf8ByteSize_append, h]
  | other => rfl

end Collector

namespace Chain

open Go Collector

variable {loc : Location} {p : Prometheus} {startTime endTime : Time} {metrics : List String}
  {metric : String} {i : ℕ}

/-- What a metric with data has for an entry. -/
theorem entryOf_eq_some_iff {entry : String} :
    entryOf loc p startTime endTime metric i = some entry ↔
      ∃ value, p.answer i metric = .ok value ∧ formatValue loc metric value ≠ "" ∧
        entry = Collected.metricEntry (formatValue loc metric value) := by
  unfold entryOf getMetricData Prometheus.answer
  cases p.query i (metricQuery metric (p.queryAt i)) with
  | error err => simp
  | ok value =>
      simp only [Except.ok.injEq, exists_eq_left']
      by_cases hnone : formatValue loc metric value = ""
      · simp [hnone]
      · simp only [hnone, if_false, Option.some.injEq, ne_eq, not_false_eq_true, true_and]
        exact eq_comm

theorem answer_escape (p : Prometheus) (i : ℕ) (metric : String) :
    p.answer i (escapeMetric metric) = p.answer i metric := by
  rw [Prometheus.answer, Prometheus.answer, metricQuery_escape]

/-- A name and its escaped form have entries of one length, or none. -/
theorem sizeOf?_escape (metric : String) (i : ℕ) :
    sizeOf? loc p startTime endTime metric i =
      sizeOf? loc p startTime endTime (escapeMetric metric) i := by
  unfold sizeOf? entryOf getMetricData
  rw [metricQuery_escape]
  cases p.query i (metricQuery metric (p.queryAt i)) with
  | error err => rfl
  | ok value =>
      exact size_congr (utf8ByteSize_formatValue loc (utf8ByteSize_escapeMetric metric).symm value)

/-- The escaped list has the escaped names at the same places. -/
theorem getElem?_escape (h : metrics[i]? = some metric) :
    (metrics.map escapeMetric)[i]? = some (escapeMetric metric) := by
  rw [List.getElem?_map, h]
  rfl

/-- An entry is the same answer under the escaped name. -/
theorem entryOf_escape {entry : String}
    (h : entryOf loc p startTime endTime metric i = some entry) :
    ∃ value, p.answer i metric = .ok value ∧
      entry = Collected.metricEntry (formatValue loc metric value) ∧
      entryOf loc p startTime endTime (escapeMetric metric) i =
        some (Collected.metricEntry (formatValue loc (escapeMetric metric) value)) := by
  obtain ⟨value, hanswer, hdata, hentry⟩ := entryOf_eq_some_iff.mp h
  refine ⟨value, hanswer, hentry, entryOf_eq_some_iff.mpr ⟨value, ?_, ?_, rfl⟩⟩
  · rw [answer_escape, hanswer]
  · intro hempty
    apply hdata
    rw [← String.utf8ByteSize_eq_zero_iff] at hempty ⊢
    rw [← hempty]
    exact utf8ByteSize_formatValue loc (utf8ByteSize_escapeMetric metric).symm value

/-! ## Two runs -/

/-- The entries of two results print one answer, that for a position of the lists, each
    under the name that its list has there. -/
def SameAnswer (loc : Location) (p : Prometheus) (metrics metrics' : List String)
    (entryAt entryAt' : ℕ × String) : Prop :=
  entryAt.1 = entryAt'.1 ∧ ∃ metric metric' value,
    metrics[entryAt.1]? = some metric ∧ metrics'[entryAt.1]? = some metric' ∧
    p.answer entryAt.1 metric = .ok value ∧ p.answer entryAt.1 metric' = .ok value ∧
    entryAt.2 = Collected.metricEntry (formatValue loc metric value) ∧
    entryAt'.2 = Collected.metricEntry (formatValue loc metric' value)

/-- Two runs make the same decisions: they return the entries of the same positions in the
    same order, one for each, and count the same tokens; their results differ only in the names
    of the metrics. -/
structure SameDecisions (loc : Location) (p : Prometheus) (metrics metrics' : List String)
    (c c' : Collected) : Prop where
  positions : c.positions = c'.positions
  totalTokens : c.totalTokens = c'.totalTokens
  lengths : c.result.length = c.positions.length ∧ c'.result.length = c'.positions.length
  results : List.Forall₂ (SameAnswer loc p metrics metrics') (c.positions.zip c.result)
    (c'.positions.zip c'.result)

/-- The name is that of an important metric, but given with dots. -/
def IsDotted (metric : String) : Prop :=
  isImportant metric = false ∧ isImportant (escapeMetric metric) = true

/-- What has data for the name of an important metric that is given with dots fits, and
    comes before anything is kept: all data before it is of ordinary metrics, and too long. -/
def DottedFirst (loc : Location) (p : Prometheus) (startTime endTime : Time)
    (metrics : List String) : Prop :=
  ∀ i metric entry, metrics[i]? = some metric → IsDotted metric →
    entryOf loc p startTime endTime metric i = some entry →
    estimateTokens entry ≤ maxInputTokens ∧
      ∀ j metric' entry', j < i → metrics[j]? = some metric' →
        entryOf loc p startTime endTime metric' j = some entry' →
        isImportant metric' = false ∧ maxInputTokens < estimateTokens entry'

/-- Whether the metric at a position is important in its escaped form. -/
def escapedImportant (metrics : List String) (i : ℕ) : Bool :=
  (metrics[i]?).any fun metric => isImportant (escapeMetric metric)

theorem escapedImportant_eq (hmetric : metrics[i]? = some metric) :
    escapedImportant metrics i = isImportant (escapeMetric metric) := by
  simp [escapedImportant, hmetric]

theorem isImportant_escape (h : isImportant metric = true) :
    isImportant (escapeMetric metric) = true := by
  have hnames : ∀ metric ∈ importantMetrics, escapeMetric metric = metric := by decide
  rwa [hnames metric (List.contains_iff_mem.mp h)]

/-- In the escaped list, the positions whose names are important in their escaped form are
    vital as well. -/
theorem keptPositions_escape (metrics : List String) :
    keptPositions loc p startTime endTime (metrics.map escapeMetric) =
      Budget.pick maxInputTokens
        (fun i => estimateTokens (entryAt loc p startTime endTime metrics i))
        ((metrics.zipIdx.map (positionOffer loc p startTime endTime)).map
          (Budget.promote (escapedImportant metrics))) := by
  have hweights : (fun i => estimateTokens (entryAt loc p startTime endTime metrics i)) =
      fun i => estimateTokens (entryAt loc p startTime endTime (metrics.map escapeMetric) i) := by
    refine weights_eq (by simp) fun i metric metric' hmetric hmetric' => ?_
    cases (getElem?_escape hmetric).symm.trans hmetric'
    exact sizeOf?_escape metric i
  rw [keptPositions, hweights]
  apply Budget.pick_congr
  rw [List.zipIdx_map, List.map_map, List.map_map, List.forall₂_map_left_iff,
    List.forall₂_map_right_iff, List.forall₂_same]
  intro metricAt hmem
  obtain ⟨metric, i⟩ := metricAt
  have hmetric : metrics[i]? = some metric := List.mem_zipIdx_iff_getElem?.mp hmem
  simp only [Function.comp_apply, Prod.map_apply, id_eq, Budget.promote, positionOffer_eq,
    ← sizeOf?_escape, true_and]
  intro hdata
  obtain ⟨size, hsize⟩ := Option.ne_none_iff_exists'.mp (mt Option.map_eq_none_iff.mpr hdata)
  rw [hsize, Option.map_some, Option.any_some, escapedImportant_eq hmetric]
  cases himportant : isImportant metric with
  | true => rw [isImportant_escape himportant, Bool.true_or]
  | false => rw [Bool.false_or]

/-- Of a position with data the offer becomes vital exactly if its name is dotted. -/
theorem promoted_iff (hmetric : metrics[i]? = some metric) :
    Budget.Promoted (escapedImportant metrics) (positionOffer loc p startTime endTime (metric, i)) ↔
      IsDotted metric ∧ ∃ entry, entryOf loc p startTime endTime metric i = some entry := by
  cases hentry : entryOf loc p startTime endTime metric i with
  | none => simp [Budget.Promoted, positionOffer, hentry]
  | some entry =>
      simp [Budget.Promoted, positionOffer, hentry, escapedImportant_eq hmetric, IsDotted]

/-- Nothing is ever kept of a position with data exactly if its metric is an ordinary one, and
    the data too long. -/
theorem passed_iff (hmetric : metrics[i]? = some metric) :
    Budget.Passed maxInputTokens
        (fun i => estimateTokens (entryAt loc p startTime endTime metrics i))
        (positionOffer loc p startTime endTime (metric, i)) ↔
      ∀ entry, entryOf loc p startTime endTime metric i = some entry →
        isImportant metric = false ∧ maxInputTokens < estimateTokens entry := by
  cases hentry : entryOf loc p startTime endTime metric i with
  | none => simp [Budget.Passed, positionOffer, hentry]
  | some entry => simp [Budget.Passed, positionOffer, hentry, entryAt_eq hmetric hentry]

/-- Elements with their positions, two at a time. -/
theorem pairwise_zipIdx {α : Type} {l : List α} {R : α × ℕ → α × ℕ → Prop} :
    l.zipIdx.Pairwise R ↔
      ∀ i j x y, i < j → l[i]? = some x → l[j]? = some y → R (x, i) (y, j) := by
  rw [List.pairwise_iff_getElem]
  constructor
  · intro h i j x y hij hx hy
    obtain ⟨hi, rfl⟩ := List.getElem?_eq_some_iff.mp hx
    obtain ⟨hj, rfl⟩ := List.getElem?_eq_some_iff.mp hy
    have hpair := h i j (by rwa [List.length_zipIdx]) (by rwa [List.length_zipIdx]) hij
    rwa [List.getElem_zipIdx, List.getElem_zipIdx, Nat.zero_add, Nat.zero_add] at hpair
  · intro h i j hi hj hij
    rw [List.getElem_zipIdx, List.getElem_zipIdx, Nat.zero_add, Nat.zero_add]
    rw [List.length_zipIdx] at hi hj
    exact h i j _ _ hij (List.getElem?_eq_getElem hi) (List.getElem?_eq_getElem hj)

theorem promotedFirst_iff (metrics : List String) :
    Budget.PromotedFirst maxInputTokens
        (fun i => estimateTokens (entryAt loc p startTime endTime metrics i))
        (escapedImportant metrics) (metrics.zipIdx.map (positionOffer loc p startTime endTime)) ↔
      DottedFirst loc p startTime endTime metrics := by
  constructor
  · intro ⟨hfits, hfirst⟩ i metric entry hmetric hdotted hentry
    have hpromoted := (promoted_iff hmetric).mpr ⟨hdotted, entry, hentry⟩
    constructor
    · rw [← entryAt_eq hmetric hentry]
      have hmem : (metric, i) ∈ metrics.zipIdx := List.mem_zipIdx_iff_getElem?.mpr hmetric
      exact hfits _ (List.mem_map_of_mem hmem) hpromoted i (by simp [positionOffer, hentry])
    · intro j metric' entry' hj hmetric' hentry'
      have hpassed := pairwise_zipIdx.mp (List.pairwise_map.mp hfirst) j i _ _ hj hmetric' hmetric
      exact (passed_iff hmetric').mp (hpassed hpromoted) entry' hentry'
  · intro h
    constructor
    · intro o ho hpromoted a ha
      obtain ⟨⟨metric, i⟩, hmem, rfl⟩ := List.mem_map.mp ho
      have hmetric := List.mem_zipIdx_iff_getElem?.mp hmem
      obtain ⟨hdotted, entry, hentry⟩ := (promoted_iff hmetric).mp hpromoted
      obtain ⟨_, _, rfl⟩ := Option.map_eq_some_iff.mp ha
      dsimp only
      rw [entryAt_eq hmetric hentry]
      exact (h i metric entry hmetric hdotted hentry).1
    · refine List.pairwise_map.mpr (pairwise_zipIdx.mpr ?_)
      intro j i metric' metric hj hmetric' hmetric hpromoted
      obtain ⟨hdotted, entry, hentry⟩ := (promoted_iff hmetric).mp hpromoted
      exact (passed_iff hmetric').mpr fun entry' hentry' =>
        (h i metric entry hmetric hdotted hentry).2 j metric' entry' hj hmetric' hentry'

/-- The loop keeps the same positions in the same order exactly if what is dotted comes
    first. -/
theorem positions_escape_iff (metrics : List String) :
    (collectLoop loc p startTime endTime metrics).positions =
        (collectLoop loc p startTime endTime (metrics.map escapeMetric)).positions ↔
      DottedFirst loc p startTime endTime metrics := by
  rw [collectLoop_positions, collectLoop_positions, keptPositions_escape, eq_comm, keptPositions,
    Budget.pick_promote_iff (items_nodup metrics), promotedFirst_iff]

theorem length_result (metrics : List String) :
    (collectLoop loc p startTime endTime metrics).result.length =
      (collectLoop loc p startTime endTime metrics).positions.length := by
  obtain ⟨hpositions, hresult, _⟩ := collectLoop_at loc p startTime endTime metrics
  rw [hpositions, hresult, List.length_map, List.length_map]

/-- The entries of a result stand beside their positions. -/
theorem positions_zip_result (metrics : List String) :
    (collectLoop loc p startTime endTime metrics).positions.zip
        (collectLoop loc p startTime endTime metrics).result =
      (keptPositions loc p startTime endTime metrics).all.map fun i =>
        (i, entryAt loc p startTime endTime metrics i) := by
  obtain ⟨hpositions, hresult, _⟩ := collectLoop_at loc p startTime endTime metrics
  rw [hpositions, hresult, List.zip_map', List.map_id', Budget.Pick.map_all]

/-- The loop makes the same decisions about a list and its escaped form exactly if what is
    dotted comes first. -/
theorem collectLoop_escape_iff (metrics : List String) :
    SameDecisions loc p metrics (metrics.map escapeMetric)
      (collectLoop loc p startTime endTime metrics)
      (collectLoop loc p startTime endTime (metrics.map escapeMetric)) ↔
    DottedFirst loc p startTime endTime metrics := by
  rw [← positions_escape_iff]
  refine ⟨SameDecisions.positions, fun hpositions => ?_⟩
  have hkept : (keptPositions loc p startTime endTime metrics).all =
      (keptPositions loc p startTime endTime (metrics.map escapeMetric)).all := by
    rw [← collectLoop_positions, hpositions, collectLoop_positions]
  refine ⟨hpositions, ?_, ⟨length_result _, length_result _⟩, ?_⟩
  · obtain ⟨_, htotal⟩ := collectLoop_kept loc p startTime endTime metrics
    obtain ⟨_, htotal'⟩ := collectLoop_kept loc p startTime endTime (metrics.map escapeMetric)
    rw [htotal, htotal', keptPositions_escape, Budget.pick_total, ← keptPositions_escape, ← hkept,
      keptPositions, Budget.pick_total]
  · rw [positions_zip_result, positions_zip_result, ← hkept, List.forall₂_map_left_iff,
      List.forall₂_map_right_iff, List.forall₂_same]
    intro i hi
    obtain ⟨metric, entry, hmetric, hentry⟩ := mem_kept hi
    obtain ⟨value, hanswer, hvalue, hentry'⟩ := entryOf_escape hentry
    refine ⟨rfl, metric, _, value, hmetric, getElem?_escape hmetric, hanswer, ?_, ?_, ?_⟩
    · rw [answer_escape, hanswer]
    · rw [entryAt_eq hmetric hentry, hvalue]
    · rw [entryAt_eq (getElem?_escape hmetric) hentry']

/-- Lists that are the same are run over alike. -/
theorem SameDecisions.refl (metrics : List String) :
    SameDecisions loc p metrics metrics (collectLoop loc p startTime endTime metrics)
      (collectLoop loc p startTime endTime metrics) := by
  refine ⟨rfl, rfl, ⟨length_result _, length_result _⟩, ?_⟩
  rw [positions_zip_result, List.forall₂_same]
  intro placed hplaced
  obtain ⟨i, hi, rfl⟩ := List.mem_map.mp hplaced
  obtain ⟨metric, entry, hmetric, hentry⟩ := mem_kept hi
  obtain ⟨value, hanswer, hvalue, _⟩ := entryOf_escape hentry
  have hat : entryAt loc p startTime endTime metrics i = _ :=
    (entryAt_eq hmetric hentry).trans hvalue
  exact ⟨rfl, metric, metric, value, hmetric, hmetric, hanswer, hanswer, hat, hat⟩

/-- Both calls fail alike, or both make the same decisions about the metrics they run
    over. -/
def SameRuns (loc : Location) (p : Prometheus) (startTime endTime : Time)
    (metrics metrics' : List String) : Prop :=
  (∃ err, collectPrometheusData loc p startTime endTime metrics = .error err ∧
    collectPrometheusData loc p startTime endTime metrics' = .error err) ∨
  ∃ ms ms' c c', requestedMetrics p metrics = .ok ms ∧ requestedMetrics p metrics' = .ok ms' ∧
    collectPrometheusData loc p startTime endTime metrics = .ok c ∧
    collectPrometheusData loc p startTime endTime metrics' = .ok c' ∧
    SameDecisions loc p ms ms' c c'

/-- A list of names is run over as it is. -/
theorem sameRuns_iff (h : metrics ≠ []) :
    SameRuns loc p startTime endTime metrics (metrics.map escapeMetric) ↔
      DottedFirst loc p startTime endTime metrics := by
  have hcollect {metrics : List String} (h : metrics ≠ []) :
      collectPrometheusData loc p startTime endTime metrics =
        .ok (collectLoop loc p startTime endTime metrics) := by
    rw [collectPrometheusData, requestedMetrics_of_names p h]
  have h' : metrics.map escapeMetric ≠ [] := mt List.map_eq_nil_iff.mp h
  rw [← collectLoop_escape_iff metrics]
  unfold SameRuns
  rw [requestedMetrics_of_names p h, requestedMetrics_of_names p h', hcollect h, hcollect h']
  simp

/-- A list and its escaped form are run over alike exactly if every important metric that is
    given with dots and has data is the first to be kept, and fits. -/
theorem importance_agrees_iff (loc : Location) (p : Prometheus) (startTime endTime : Time)
    (metrics : List String) :
    SameRuns loc p startTime endTime metrics (metrics.map escapeMetric) ↔
      DottedFirst loc p startTime endTime metrics := by
  cases metrics with
  | cons metric metrics => exact sameRuns_iff (List.cons_ne_nil metric metrics)
  | nil =>
      -- without names both calls are for all metrics
      have hfirst : DottedFirst loc p startTime endTime [] := by
        intro i metric entry hmetric
        cases hmetric
      refine iff_of_true ?_ hfirst
      unfold SameRuns collectPrometheusData
      rw [List.map_nil]
      cases requestedMetrics p [] with
      | error err => exact .inl ⟨err, rfl, rfl⟩
      | ok ms => exact .inr ⟨ms, ms, _, _, rfl, rfl, rfl, rfl, .refl ms⟩

/-- An important metric given with dots comes out behind an ordinary one. -/
theorem importance_lost : ¬∀ p metrics,
    SameRuns .ofUTC p epoch epoch metrics (metrics.map escapeMetric) := by
  intro h
  have hsame := sameRuns_iff (List.cons_ne_nil _ _) |>.mp
    (h (crowded 1) ["go_info", "machine.cpu.cores"])
  have hinfo : entryOf .ofUTC (crowded 1) epoch epoch "go_info" 0 = some (infoEntry 1) := by
    decide +kernel
  have hcores : entryOf .ofUTC (crowded 1) epoch epoch "machine.cpu.cores" 1 ≠ none := by
    decide +kernel
  obtain ⟨entry, hentry⟩ := Option.ne_none_iff_exists'.mp hcores
  have hfirst := (hsame 1 _ entry rfl ⟨by decide, by decide⟩ hentry).2 0 _ _ Nat.zero_lt_one rfl hinfo
  exact absurd hfirst.2 (by decide +kernel)

end Chain
