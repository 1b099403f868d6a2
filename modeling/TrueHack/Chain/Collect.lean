-- SUMMARY: The selection of metric data for a prompt, and when it keeps the token budget.
import TrueHack.Base.Budget
import TrueHack.Collector.Prometheus

/-!
# Collecting metric data

The loop of `collectPrometheusData` takes metrics in the order of the list. An
ordinary metric is checked against the running total, an important one is always
taken. So an ordinary metric that fits can use up what an important one behind it
needs.
-/

namespace Chain

open Go Collector

/-- `estimateTokens` -/
def estimateTokens (text : String) : ℕ := 100 + text.utf8ByteSize / 3

/-- `importantMap` -/
def importantMetrics : List String :=
  ["machine_cpu_cores", "machine_cpu_physical_cores", "machine_memory_bytes",
    "grpc_server_handled_total"]

def isImportant (metric : String) : Bool := importantMetrics.contains metric

def maxInputTokens : ℕ := 20000

/-- The variables of the loop, the queries it has sent, and the positions of the list that
    the entries of `result` are for. -/
structure Collected where
  result : List String
  totalTokens : ℕ
  queries : List Query
  positions : List ℕ

namespace Collected

def init : Collected := ⟨[], 0, [], []⟩

/-- The loop takes no more ordinary metrics. -/
def full (c : Collected) : Bool := maxInputTokens ≤ c.totalTokens

/-- The part of the loop body after the data has come. -/
def take (c : Collected) (metric metricData : String) (i : ℕ) : Collected :=
  let metricTokens := estimateTokens metricData
  if maxInputTokens < c.totalTokens + metricTokens ∧ !isImportant metric then c
  else {
    result := if isImportant metric then metricData :: c.result else c.result ++ [metricData]
    totalTokens := c.totalTokens + metricTokens
    queries := c.queries
    positions := if isImportant metric then i :: c.positions else c.positions ++ [i] }

/-- `fmt.Sprintf("Metric: %s\n", data)` -/
def metricEntry (data : String) : String := "Metric: " ++ data ++ "\n"

/-- The loop body for the metric at position `i`. -/
def step (loc : Location) (p : Prometheus) (startTime endTime : Time) (c : Collected)
    (metricAt : String × ℕ) : Collected :=
  let (metric, i) := metricAt
  if c.full ∧ !isImportant metric then c
  else
    let c := { c with queries := c.queries ++ [metricQuery metric (p.queryAt i)] }
    match getMetricData loc p i metric startTime endTime with
    | .error _ => c
    | .ok data => if data = "" then c else c.take metric (metricEntry data) i

end Collected

/-- The loop of `collectPrometheusData`. -/
def collectLoop (loc : Location) (p : Prometheus) (startTime endTime : Time)
    (metrics : List String) : Collected :=
  metrics.zipIdx.foldl (Collected.step loc p startTime endTime) .init

/-- The metrics the loop runs over: those requested, or all there are. -/
def requestedMetrics (p : Prometheus) (metrics : List String) : Except String (List String) :=
  if metrics.length = 0 then
    match getAllMetrics p with
    | .error err => .error s!"failed to get all metrics: {err}"
    | .ok allMetrics => .ok allMetrics
  else .ok metrics

/-- `Analyzer.collectPrometheusData` -/
def collectPrometheusData (loc : Location) (p : Prometheus) (startTime endTime : Time)
    (metrics : List String) : Except String Collected :=
  match requestedMetrics p metrics with
  | .error err => .error err
  | .ok metrics => .ok (collectLoop loc p startTime endTime metrics)

/-- A list with names is run over as it is. -/
theorem requestedMetrics_of_names (p : Prometheus) {metrics : List String} (h : metrics ≠ []) :
    requestedMetrics p metrics = .ok metrics := by
  rw [requestedMetrics, if_neg (mt List.length_eq_zero_iff.mp h)]

/-! ## The loop as a selection under a budget -/

variable {loc : Location} {p : Prometheus} {startTime endTime : Time}

/-- The entry of the metric at position `i`, if Prometheus has data for it. -/
def entryOf (loc : Location) (p : Prometheus) (startTime endTime : Time) (metric : String)
    (i : ℕ) : Option String :=
  match getMetricData loc p i metric startTime endTime with
  | .error _ => none
  | .ok data => if data = "" then none else some (Collected.metricEntry data)

/-- What the metric at position `i` offers to the selection. -/
def offer (loc : Location) (p : Prometheus) (startTime endTime : Time)
    (metricAt : String × ℕ) : Budget.Offer String :=
  ⟨isImportant metricAt.1, entryOf loc p startTime endTime metricAt.1 metricAt.2⟩

/-- What a list of metrics offers. -/
def offers (loc : Location) (p : Prometheus) (startTime endTime : Time) (metrics : List String) :
    List (Budget.Offer String) :=
  metrics.zipIdx.map (offer loc p startTime endTime)

/-- What the metric at position `i` offers, with its position. -/
def placedOffer (loc : Location) (p : Prometheus) (startTime endTime : Time)
    (metricAt : String × ℕ) : Budget.Offer (ℕ × String) :=
  (offer loc p startTime endTime metricAt).map fun entry => (metricAt.2, entry)

/-- What a list of metrics offers, with the positions. -/
def placedOffers (loc : Location) (p : Prometheus) (startTime endTime : Time)
    (metrics : List String) : List (Budget.Offer (ℕ × String)) :=
  metrics.zipIdx.map (placedOffer loc p startTime endTime)

def placedTokens (entryAt : ℕ × String) : ℕ := estimateTokens entryAt.2

/-- The variables of the loop hold what the selection has taken. -/
structure Collected.Holds (c : Collected) (pick : Budget.Pick (ℕ × String)) : Prop where
  positions : c.positions = pick.all.map Prod.fst
  result : c.result = pick.all.map Prod.snd
  totalTokens : c.totalTokens = pick.total

theorem estimateTokens_pos (text : String) : 0 < estimateTokens text := by
  unfold estimateTokens
  omega

theorem Collected.Holds.take {c : Collected} {pick : Budget.Pick (ℕ × String)} (h : c.Holds pick)
    {metric metricData : String} {i : ℕ} :
    (c.take metric metricData i).Holds
      (Budget.visit maxInputTokens placedTokens pick
        ⟨isImportant metric, some (i, metricData)⟩) := by
  obtain ⟨hpositions, hresult, htotal⟩ := h
  have hweight : placedTokens (i, metricData) = estimateTokens metricData := rfl
  unfold Collected.take Budget.visit
  cases himportant : isImportant metric with
  | true => constructor <;> simp [Budget.Pick.all, hpositions, hresult, htotal, hweight]
  | false =>
      by_cases hfits : pick.total + estimateTokens metricData ≤ maxInputTokens
      · have hnot : ¬maxInputTokens < pick.total + estimateTokens metricData := by omega
        constructor <;>
          simp [Budget.Pick.all, hpositions, hresult, htotal, hweight, hfits, hnot]
      · have hover : maxInputTokens < pick.total + estimateTokens metricData := by omega
        constructor <;>
          simp [Budget.Pick.all, hpositions, hresult, htotal, hweight, hfits, hover]

/-- The loop body decides as the selection does. -/
theorem Collected.Holds.step {c : Collected} {pick : Budget.Pick (ℕ × String)} (h : c.Holds pick)
    (metricAt : String × ℕ) :
    (Collected.step loc p startTime endTime c metricAt).Holds
      (Budget.visit maxInputTokens placedTokens pick
        (placedOffer loc p startTime endTime metricAt)) := by
  obtain ⟨metric, i⟩ := metricAt
  unfold Collected.step
  by_cases hskip : c.full ∧ !isImportant metric
  · have hfull : maxInputTokens ≤ pick.total := by
      rw [← h.totalTokens]
      simpa [Collected.full] using hskip.1
    have hordinary : (placedOffer loc p startTime endTime (metric, i)).vital = false := by
      simpa [placedOffer, offer, Budget.Offer.map] using hskip.2
    have hpos (entryAt : ℕ × String) : 0 < placedTokens entryAt := estimateTokens_pos entryAt.2
    rw [Budget.visit_full hpos hfull hordinary]
    simpa [hskip] using h
  · simp only [hskip, if_false, placedOffer, offer, entryOf]
    have hasked : Collected.Holds { c with
        queries := c.queries ++ [metricQuery metric (p.queryAt i)] } pick :=
      ⟨h.positions, h.result, h.totalTokens⟩
    cases getMetricData loc p i metric startTime endTime with
    | error err => exact hasked
    | ok data =>
        by_cases hdata : data = ""
        · simp only [hdata, if_true]
          exact hasked
        · simp only [hdata, if_false]
          exact hasked.take

/-- The loop selects under the budget, front and back. -/
theorem collectLoop_placed (metrics : List String) :
    (collectLoop loc p startTime endTime metrics).Holds
      (Budget.pick maxInputTokens placedTokens (placedOffers loc p startTime endTime metrics)) := by
  have hfold (l : List (String × ℕ)) (c : Collected) (pick : Budget.Pick (ℕ × String))
      (h : c.Holds pick) :
      (l.foldl (Collected.step loc p startTime endTime) c).Holds
        ((l.map (placedOffer loc p startTime endTime)).foldl
          (Budget.visit maxInputTokens placedTokens) pick) := by
    induction l generalizing c pick with
    | nil => exact h
    | cons metricAt l ih => exact ih _ _ (h.step metricAt)
  exact hfold _ _ _ ⟨rfl, rfl, rfl⟩

/-- Without the positions. -/
theorem placedOffers_snd (metrics : List String) :
    (placedOffers loc p startTime endTime metrics).map (Budget.Offer.map Prod.snd) =
      offers loc p startTime endTime metrics := by
  rw [placedOffers, offers, List.map_map]
  apply List.map_congr_left
  intro metricAt _
  simp [placedOffer, Budget.Offer.map, Function.comp_def]

/-- The entries and their tokens. -/
theorem collectLoop_holds (metrics : List String) :
    (collectLoop loc p startTime endTime metrics).result =
        (Budget.pick maxInputTokens estimateTokens (offers loc p startTime endTime metrics)).all ∧
      (collectLoop loc p startTime endTime metrics).totalTokens =
        (Budget.pick maxInputTokens estimateTokens
          (offers loc p startTime endTime metrics)).total := by
  have hplaced : (collectLoop loc p startTime endTime metrics).Holds _ := collectLoop_placed metrics
  rw [← placedOffers_snd, Budget.pick_map, Budget.Pick.map_all]
  exact ⟨hplaced.result, hplaced.totalTokens⟩

/-- The counter is the estimate of what is returned. -/
theorem collectLoop_totalTokens (metrics : List String) :
    (collectLoop loc p startTime endTime metrics).totalTokens =
      ((collectLoop loc p startTime endTime metrics).result.map estimateTokens).sum := by
  obtain ⟨hresult, htotal⟩ : (collectLoop loc p startTime endTime metrics).result = _ ∧
    (collectLoop loc p startTime endTime metrics).totalTokens = _ := collectLoop_holds metrics
  rw [hresult, htotal, Budget.pick_total]

/-! ## The queries -/

/-- The loop asks for the metric at position `i`: it is important, or the entries taken
    before it leave something of the budget. -/
def Asked (loc : Location) (p : Prometheus) (startTime endTime : Time) (metrics : List String)
    (i : ℕ) (metric : String) : Prop :=
  isImportant metric = true ∨
    (Budget.pick maxInputTokens estimateTokens
      (offers loc p startTime endTime (metrics.take i))).total < maxInputTokens

theorem collectLoop_snoc (metrics : List String) (metric : String) :
    collectLoop loc p startTime endTime (metrics ++ [metric]) =
      Collected.step loc p startTime endTime (collectLoop loc p startTime endTime metrics)
        (metric, metrics.length) := by
  simp [collectLoop, List.zipIdx_append]

theorem Collected.take_queries (c : Collected) (metric metricData : String) (i : ℕ) :
    (c.take metric metricData i).queries = c.queries := by
  simp [Collected.take, apply_ite Collected.queries]

theorem Collected.step_queries (c : Collected) (metric : String) (i : ℕ) :
    (Collected.step loc p startTime endTime c (metric, i)).queries =
      if isImportant metric = true ∨ c.totalTokens < maxInputTokens then
        c.queries ++ [metricQuery metric (p.queryAt i)]
      else c.queries := by
  have hskip : (c.full = true ∧ (!isImportant metric) = true) ↔
      ¬(isImportant metric = true ∨ c.totalTokens < maxInputTokens) := by
    simp [Collected.full, and_comm]
  unfold Collected.step
  by_cases hasked : isImportant metric = true ∨ c.totalTokens < maxInputTokens
  · simp only [hskip, hasked, not_true_eq_false, if_false, if_true]
    split
    · rfl
    · split
      · rfl
      · rw [Collected.take_queries]
  · simp only [hskip, hasked, not_false_eq_true, if_true, if_false]

/-- Positions of a list with one more element at the end. -/
theorem exists_getElem?_snoc {α : Type} {l : List α} {a : α} {P : ℕ → α → Prop} :
    (∃ i x, (l ++ [a])[i]? = some x ∧ P i x) ↔ (∃ i x, l[i]? = some x ∧ P i x) ∨ P l.length a := by
  constructor
  · intro ⟨i, x, hx, hP⟩
    rcases Nat.lt_or_ge i l.length with hi | hi
    · rw [List.getElem?_append_left hi] at hx
      exact .inl ⟨i, x, hx, hP⟩
    · rw [List.getElem?_append_right hi] at hx
      obtain ⟨hlt, hget⟩ := List.getElem?_eq_some_iff.mp hx
      simp only [List.length_singleton] at hlt
      obtain rfl : i = l.length := by omega
      obtain rfl : a = x := by simpa using hget
      exact .inr hP
  · intro h
    cases h with
    | inl hold =>
        obtain ⟨i, x, hx, hP⟩ := hold
        have hi : i < l.length := (List.getElem?_eq_some_iff.mp hx).1
        exact ⟨i, x, by rw [List.getElem?_append_left hi, hx], hP⟩
    | inr hlast => exact ⟨l.length, a, by simp, hlast⟩

/-- Whether a position is asked for depends on the metrics before it. -/
theorem asked_snoc {metrics : List String} {metric m : String} {i : ℕ}
    (hi : i ≤ metrics.length) :
    Asked loc p startTime endTime (metrics ++ [m]) i metric ↔
      Asked loc p startTime endTime metrics i metric := by
  rw [Asked, Asked, List.take_append_of_le_length hi]

/-- The queries of the loop are those of the positions it asks for, each at the reading
    of the clock there. -/
theorem mem_queries_iff {metrics : List String} {q : Query} :
    q ∈ (collectLoop loc p startTime endTime metrics).queries ↔
      ∃ i metric, metrics[i]? = some metric ∧
        Asked loc p startTime endTime metrics i metric ∧
        q = metricQuery metric (p.queryAt i) := by
  induction metrics using List.reverseRecOn with
  | nil => simp [collectLoop, Collected.init]
  | append_singleton metrics metric ih =>
      have hlast : Asked loc p startTime endTime (metrics ++ [metric]) metrics.length metric ↔
          isImportant metric = true ∨
            (collectLoop loc p startTime endTime metrics).totalTokens < maxInputTokens := by
        rw [asked_snoc le_rfl, Asked, List.take_length, (collectLoop_holds metrics).2]
      have hbefore : (∃ i m, metrics[i]? = some m ∧
            Asked loc p startTime endTime (metrics ++ [metric]) i m ∧
            q = metricQuery m (p.queryAt i)) ↔
          q ∈ (collectLoop loc p startTime endTime metrics).queries := by
        rw [ih]
        refine exists_congr fun i => exists_congr fun m => and_congr_right fun hm => ?_
        rw [asked_snoc (List.getElem?_eq_some_iff.mp hm).1.le]
      rw [exists_getElem?_snoc, hbefore, hlast, collectLoop_snoc, Collected.step_queries]
      split
      · rename_i hasked
        simp [hasked]
      · rename_i hasked
        simp [hasked]

/-- The first metric of a list is always asked for. -/
theorem queries_ne_nil {metrics : List String} (h : metrics ≠ []) :
    (collectLoop loc p startTime endTime metrics).queries ≠ [] := by
  cases metrics with
  | nil => exact absurd rfl h
  | cons metric metrics =>
      have hfirst : metricQuery metric (p.queryAt 0) ∈
          (collectLoop loc p startTime endTime (metric :: metrics)).queries :=
        mem_queries_iff.mpr ⟨0, metric, rfl, .inr (by simp [offers, Budget.pick, Budget.Pick.empty,
          maxInputTokens]), rfl⟩
      exact List.ne_nil_of_mem hfirst

/-! ## The budget -/

/-- The estimated tokens of the important metrics of a list that have data. -/
def importantTokens (loc : Location) (p : Prometheus) (startTime endTime : Time)
    (metrics : List String) : ℕ :=
  Budget.vitalTotal estimateTokens (offers loc p startTime endTime metrics)

theorem collectLoop_sum_le_iff {metrics : List String}
    (himportant : importantTokens loc p startTime endTime metrics ≤ maxInputTokens) :
    ((collectLoop loc p startTime endTime metrics).result.map estimateTokens).sum ≤
        maxInputTokens ↔
      Budget.LeavesRoom estimateTokens maxInputTokens
        (offers loc p startTime endTime metrics) := by
  rw [← collectLoop_totalTokens, (collectLoop_holds metrics).2]
  exact Budget.pick_total_le_iff himportant

/-- If the important metrics fit into the budget, the collected entries do exactly when
    every ordinary metric that still fits also leaves room for the important ones behind
    it. -/
theorem budget_kept_iff (loc : Location) (p : Prometheus) (startTime endTime : Time)
    (metrics ms : List String) (hms : requestedMetrics p metrics = .ok ms)
    (himportant : importantTokens loc p startTime endTime ms ≤ maxInputTokens) :
    ∃ c, collectPrometheusData loc p startTime endTime metrics = .ok c ∧
      ((c.result.map estimateTokens).sum ≤ maxInputTokens ↔
        Budget.LeavesRoom estimateTokens maxInputTokens (offers loc p startTime endTime ms)) := by
  refine ⟨collectLoop loc p startTime endTime ms, ?_, collectLoop_sum_le_iff himportant⟩
  simp [collectPrometheusData, hms]

/-- A text of `n` digits. -/
def nines (n : ℕ) : String := String.ofList (List.replicate n '9')

theorem utf8ByteSize_nines (n : ℕ) : (nines n).utf8ByteSize = n := by
  induction n with
  | zero => rfl
  | succ n ih =>
      have hsplit : nines (n + 1) = String.ofList ['9'] ++ nines n := by
        rw [nines, nines, ← String.ofList_append]
        rfl
      rw [hsplit, String.utf8ByteSize_append, ih, Nat.add_comm]
      rfl

/-- Prometheus with one series of value 1 per metric, that of the first metric labelled
    with a version of `n` digits. -/
def crowded (n : ℕ) : Prometheus where
  labelValues := .ok []
  queryAt _ := 0
  query i _ :=
    if i = 0 then .ok (.vector [⟨⟨[("version", nines n)], by simp⟩, "1", 0⟩])
    else .ok (.vector [⟨⟨[], List.nodup_nil⟩, "1", 0⟩])

/-- The first second of 1970. -/
def epoch : Time := ⟨0, 0, .utc, zero_lt_second⟩

/-- The entry of `go_info` with a version of `n` digits. -/
def infoEntry (n : ℕ) : String :=
  Collected.metricEntry ("go_info" ++ ("\x7b" ++ ("version" ++ "=" ++ nines n) ++ "\x7d") ++ ": " ++
    "1" ++ "\n")

/-- The entry of `machine_cpu_cores` without labels. -/
def coresEntry : String := Collected.metricEntry "machine_cpu_cores: 1\n"

theorem estimateTokens_infoEntry (n : ℕ) : estimateTokens (infoEntry n) = 100 + (n + 30) / 3 := by
  have hsize : (infoEntry n).utf8ByteSize = n + 30 := by
    have hhead : "Metric: ".utf8ByteSize = 8 := rfl
    have hname : "go_info".utf8ByteSize = 7 := rfl
    have hopen : "\x7b".utf8ByteSize = 1 := rfl
    have hlabel : "version".utf8ByteSize = 7 := rfl
    have hequals : "=".utf8ByteSize = 1 := rfl
    have hclose : "\x7d".utf8ByteSize = 1 := rfl
    have hcolon : ": ".utf8ByteSize = 2 := rfl
    have hvalue : "1".utf8ByteSize = 1 := rfl
    have hnewline : "\n".utf8ByteSize = 1 := rfl
    simp only [infoEntry, Collected.metricEntry, String.utf8ByteSize_append, hhead, hname, hopen,
      hlabel, hequals, hclose, hcolon, hvalue, hnewline, utf8ByteSize_nines]
    omega
  rw [estimateTokens, hsize]

theorem formatLabels_version (n : ℕ) (h) : formatLabels ⟨[("version", nines n)], h⟩ =
    "\x7b" ++ ("version" ++ "=" ++ nines n) ++ "\x7d" := by
  simp [formatLabels]

theorem entryOf_go_info (n : ℕ) :
    entryOf .ofUTC (crowded n) epoch epoch "go_info" 0 = some (infoEntry n) := by
  have htext (h) : formatValue .ofUTC "go_info"
      (.vector [⟨⟨[("version", nines n)], h⟩, "1", 0⟩]) =
        "go_info" ++ ("\x7b" ++ ("version" ++ "=" ++ nines n) ++ "\x7d") ++ ": " ++ "1" ++ "\n" := by
    simp [formatValue, formatSample, formatLabels_version, String.join]
  have hne : "go_info" ++ ("\x7b" ++ ("version" ++ "=" ++ nines n) ++ "\x7d") ++ ": " ++ "1" ++
      "\n" ≠ "" := by
    intro hempty
    have hsize := congrArg String.utf8ByteSize hempty
    simp [String.utf8ByteSize_append] at hsize
  simp only [entryOf, getMetricData, crowded, if_true, htext, hne, if_false, infoEntry]

theorem entryOf_machine_cpu_cores (n : ℕ) :
    entryOf .ofUTC (crowded n) epoch epoch "machine_cpu_cores" 1 = some coresEntry := by
  have htext : formatValue .ofUTC "machine_cpu_cores"
      (.vector [⟨⟨[], List.nodup_nil⟩, "1", 0⟩]) = "machine_cpu_cores: 1\n" := by
    decide
  simp [entryOf, getMetricData, crowded, htext, coresEntry]

theorem offers_crowded (n : ℕ) :
    offers .ofUTC (crowded n) epoch epoch ["go_info", "machine_cpu_cores"] =
      [⟨false, some (infoEntry n)⟩, ⟨true, some coresEntry⟩] := by
  have hordinary : isImportant "go_info" = false := by decide
  have hvital : isImportant "machine_cpu_cores" = true := by decide
  simp only [offers, offer, List.zipIdx, List.map_cons, List.map_nil, Nat.zero_add,
    entryOf_go_info, entryOf_machine_cpu_cores, hordinary, hvital]

/-- A short label leaves room, and both entries are collected within the budget. -/
theorem budget_kept_short : ∃ c, collectPrometheusData .ofUTC (crowded 1) epoch epoch
    ["go_info", "machine_cpu_cores"] = .ok c ∧
      (c.result.map estimateTokens).sum ≤ maxInputTokens := by
  have hroom : Budget.LeavesRoom estimateTokens maxInputTokens
      (offers .ofUTC (crowded 1) epoch epoch ["go_info", "machine_cpu_cores"]) := by
    rw [offers_crowded]
    decide
  obtain ⟨c, hc, hiff⟩ := budget_kept_iff .ofUTC (crowded 1) epoch epoch
    ["go_info", "machine_cpu_cores"] _ rfl (by decide)
  exact ⟨c, hc, hiff.mpr hroom⟩

/-- Names come in alphabetical order, so an ordinary metric can fill the budget before an
    important one asks for its little. -/
theorem budget_overrun : ¬∀ (p : Prometheus) (metrics ms : List String),
    requestedMetrics p metrics = .ok ms →
    importantTokens .ofUTC p epoch epoch ms ≤ maxInputTokens →
    ∃ c, collectPrometheusData .ofUTC p epoch epoch metrics = .ok c ∧
      (c.result.map estimateTokens).sum ≤ maxInputTokens := by
  intro hkept
  obtain ⟨n, hn⟩ : ∃ n, n = 59600 := ⟨_, rfl⟩
  have hlong : estimateTokens (infoEntry n) = 19976 := by
    rw [estimateTokens_infoEntry, hn]
  have hshort : estimateTokens coresEntry = 110 := by
    decide
  have hvital : importantTokens .ofUTC (crowded n) epoch epoch ["go_info", "machine_cpu_cores"] =
      110 := by
    simp [importantTokens, offers_crowded, Budget.vitalTotal, Budget.vitalWeight, hshort]
  have hfits : importantTokens .ofUTC (crowded n) epoch epoch ["go_info", "machine_cpu_cores"] ≤
      maxInputTokens := by
    rw [hvital]
    decide
  obtain ⟨c, hc, hsum⟩ := hkept (crowded n) ["go_info", "machine_cpu_cores"] _ rfl hfits
  obtain rfl := Except.ok.inj hc
  rw [collectLoop_sum_le_iff hfits, offers_crowded] at hsum
  simp [Budget.LeavesRoom, Budget.vitalTotal, Budget.vitalWeight, hlong, hshort,
    maxInputTokens] at hsum

end Chain
