-- SUMMARY: The selected entries: what the loop of the collector returns, and what it counts.
import TrueHack.Chain.Collect

/-!
# The selected entries

The plain selection asks for every metric and decides with one test per entry.
The loop skips ordinary metrics without asking once the limit is reached; the
entries are the same. The counter adds up estimates entry by entry, and the
estimate for the joined text stays below it.
-/

namespace Chain

open Go Collector

variable (loc : Location) (p : Prometheus) (startTime endTime : Time)

/-- The entries of the important metrics with data, each occurrence once, in order. -/
def importantEntries (metrics : List String) : List String :=
  Budget.vitals (offers loc p startTime endTime metrics)

/-- The entries of the ordinary metrics that the plain selection accepts: it asks for
    every metric, and takes an ordinary entry if the total of all entries so far and its
    own estimate are within the limit. -/
def acceptedEntries (metrics : List String) : List String :=
  Budget.accepted maxInputTokens estimateTokens 0 (offers loc p startTime endTime metrics)

/-- What the plain selection returns. -/
def plainSelection (metrics : List String) : List String :=
  (importantEntries loc p startTime endTime metrics).reverse ++
    acceptedEntries loc p startTime endTime metrics

theorem collectLoop_result (metrics : List String) :
    (collectLoop loc p startTime endTime metrics).result =
      plainSelection loc p startTime endTime metrics := by
  rw [(collectLoop_holds metrics).1, Budget.pick_all]
  rfl

/-- The loop returns what the plain selection does, and fails only where the list of
    metrics cannot be had. -/
theorem collect_eq_plainSelection (metrics : List String) :
    (collectPrometheusData loc p startTime endTime metrics).map Collected.result =
      (requestedMetrics p metrics).map (plainSelection loc p startTime endTime) := by
  unfold collectPrometheusData
  cases requestedMetrics p metrics with
  | error err => rfl
  | ok ms => exact congrArg Except.ok (collectLoop_result loc p startTime endTime ms)

theorem collect_ok_iff {loc : Location} {p : Prometheus} {startTime endTime : Time}
    {metrics : List String} {c : Collected} :
    collectPrometheusData loc p startTime endTime metrics = .ok c ↔
      ∃ ms, requestedMetrics p metrics = .ok ms ∧ collectLoop loc p startTime endTime ms = c := by
  unfold collectPrometheusData
  cases requestedMetrics p metrics with
  | error err => simp
  | ok ms => simp

/-! ## Estimates -/

/-- One estimate for two texts is at most the sum of theirs: rounding down loses less
    than one base amount. -/
theorem estimateTokens_append (s t : String) :
    estimateTokens (s ++ t) ≤ estimateTokens s + estimateTokens t := by
  unfold estimateTokens
  rw [String.utf8ByteSize_append]
  omega

theorem estimateTokens_join {entry : String} {entries : List String} :
    estimateTokens (String.join (entry :: entries)) ≤
      ((entry :: entries).map estimateTokens).sum := by
  induction entries generalizing entry with
  | nil => simp
  | cons entry' entries ih =>
      have hjoin : String.join (entry :: entry' :: entries) =
          entry ++ String.join (entry' :: entries) := by
        simp [String.join_cons]
      rw [hjoin, List.map_cons, List.sum_cons]
      exact (estimateTokens_append _ _).trans (Nat.add_le_add_left ih _)

/-- At the end the counter is the sum of the estimates of what is returned, the ordinary
    entries alone stay within the limit, and the text for the prompt is estimated at no
    more than the counter. -/
theorem token_accounting (metrics : List String) (c : Collected)
    (h : collectPrometheusData loc p startTime endTime metrics = .ok c) :
    c.totalTokens = (c.result.map estimateTokens).sum ∧
    (∃ ms, requestedMetrics p metrics = .ok ms ∧
      c.result = (importantEntries loc p startTime endTime ms).reverse ++
        acceptedEntries loc p startTime endTime ms ∧
      ((acceptedEntries loc p startTime endTime ms).map estimateTokens).sum ≤ maxInputTokens) ∧
    (c.result ≠ [] → estimateTokens (String.join c.result) ≤ c.totalTokens) := by
  obtain ⟨ms, hms, rfl⟩ := collect_ok_iff.mp h
  have htotal : (collectLoop loc p startTime endTime ms).totalTokens = _ :=
    collectLoop_totalTokens ms
  have haccepted : ((acceptedEntries loc p startTime endTime ms).map estimateTokens).sum ≤
      maxInputTokens - 0 := Budget.accepted_sum_le 0 _
  refine ⟨htotal, ⟨ms, hms, collectLoop_result loc p startTime endTime ms, haccepted⟩, ?_⟩
  intro hne
  rw [htotal]
  cases hresult : (collectLoop loc p startTime endTime ms).result with
  | nil => exact absurd hresult hne
  | cons entry entries => exact estimateTokens_join

/-- An ordinary and an important metric; the base amount is counted for both. -/
theorem token_accounting_two : ∃ c, collectPrometheusData .ofUTC (crowded 1) epoch epoch
    ["go_info", "machine_cpu_cores"] = .ok c ∧ c.result.length = 2 ∧
      c.totalTokens = (c.result.map estimateTokens).sum ∧ c.totalTokens = 220 ∧
      estimateTokens (String.join c.result) ≤ c.totalTokens := by
  have hcollect : collectPrometheusData .ofUTC (crowded 1) epoch epoch
      ["go_info", "machine_cpu_cores"] = .ok _ := rfl
  obtain ⟨htotal, _, hprompt⟩ := token_accounting _ _ _ _ _ _ hcollect
  exact ⟨_, hcollect, by decide +kernel, htotal, by decide +kernel, hprompt (by decide +kernel)⟩

end Chain
