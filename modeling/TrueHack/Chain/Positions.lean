-- SUMMARY: The selection by positions: which places of the list are kept, and which go in front.
import TrueHack.Chain.Collect

/-!
# Kept positions

The loop decides about the places of the list. What it keeps depends on the
entries only through their estimates, so two runs can be compared by the places
they keep, whatever their entries say.
-/

namespace Chain

open Go Collector

variable (loc : Location) (p : Prometheus) (startTime endTime : Time)

/-- The entry of the metric at position `i` of the list. -/
def entryAt (metrics : List String) (i : ℕ) : String :=
  ((metrics[i]?).bind fun metric => entryOf loc p startTime endTime metric i).getD ""

/-- A position offers itself if it has data. -/
def positionOffer (metricAt : String × ℕ) : Budget.Offer ℕ :=
  ⟨isImportant metricAt.1,
    (entryOf loc p startTime endTime metricAt.1 metricAt.2).map fun _ => metricAt.2⟩

/-- The positions that the loop keeps: those of important metrics in front, the latest
    first, and the others in order; and the tokens of their entries. -/
def keptPositions (metrics : List String) : Budget.Pick ℕ :=
  Budget.pick maxInputTokens
    (fun i => estimateTokens (entryAt loc p startTime endTime metrics i))
    (metrics.zipIdx.map (positionOffer loc p startTime endTime))

variable {loc p startTime endTime} {metrics : List String} {metric : String} {i : ℕ}

theorem entryAt_eq {entry : String} (hmetric : metrics[i]? = some metric)
    (hentry : entryOf loc p startTime endTime metric i = some entry) :
    entryAt loc p startTime endTime metrics i = entry := by
  simp [entryAt, hmetric, hentry]

/-- The offers of the metrics are those of their positions. -/
theorem placedOffers_eq (metrics : List String) : placedOffers loc p startTime endTime metrics =
    (metrics.zipIdx.map (positionOffer loc p startTime endTime)).map
      (Budget.Offer.map fun i => (i, entryAt loc p startTime endTime metrics i)) := by
  rw [placedOffers, List.map_map]
  apply List.map_congr_left
  intro metricAt hmem
  have hmetric : metrics[metricAt.2]? = some metricAt.1 := List.mem_zipIdx_iff_getElem?.mp hmem
  cases hentry : entryOf loc p startTime endTime metricAt.1 metricAt.2 with
  | none => simp [placedOffer, offer, positionOffer, Budget.Offer.map, hentry]
  | some entry =>
      simp [placedOffer, offer, positionOffer, Budget.Offer.map, hentry, entryAt_eq hmetric hentry]

variable (loc p startTime endTime) in
/-- The entries of the kept positions are taken, each for its position. -/
theorem collectLoop_at (metrics : List String) :
    (collectLoop loc p startTime endTime metrics).Holds
      ((keptPositions loc p startTime endTime metrics).map fun i =>
        (i, entryAt loc p startTime endTime metrics i)) := by
  have hplaced : (collectLoop loc p startTime endTime metrics).Holds _ := collectLoop_placed metrics
  rw [placedOffers_eq, Budget.pick_map] at hplaced
  exact hplaced

variable (loc p startTime endTime) in
/-- The result is the entries of the kept positions. -/
theorem collectLoop_kept (metrics : List String) :
    (collectLoop loc p startTime endTime metrics).result =
        (keptPositions loc p startTime endTime metrics).all.map
          (entryAt loc p startTime endTime metrics) ∧
      (collectLoop loc p startTime endTime metrics).totalTokens =
        (keptPositions loc p startTime endTime metrics).total := by
  have hat := collectLoop_at loc p startTime endTime metrics
  refine ⟨?_, hat.totalTokens⟩
  rw [hat.result, Budget.Pick.map_all, List.map_map]
  rfl

variable (loc p startTime endTime) in
theorem collectLoop_positions (metrics : List String) :
    (collectLoop loc p startTime endTime metrics).positions =
      (keptPositions loc p startTime endTime metrics).all := by
  rw [(collectLoop_at loc p startTime endTime metrics).positions, Budget.Pick.map_all, List.map_map,
    Function.comp_def, List.map_id']

/-- A kept position has a metric with data. -/
theorem mem_kept (h : i ∈ (keptPositions loc p startTime endTime metrics).all) :
    ∃ metric entry, metrics[i]? = some metric ∧
      entryOf loc p startTime endTime metric i = some entry := by
  obtain ⟨o, hmem, hitem⟩ := Budget.mem_pick h
  obtain ⟨⟨metric, i'⟩, hmetric, rfl⟩ := List.mem_map.mp hmem
  obtain ⟨entry, hentry, rfl⟩ := Option.map_eq_some_iff.mp hitem
  exact ⟨metric, entry, List.mem_zipIdx_iff_getElem?.mp hmetric, hentry⟩

/-! ## Two runs -/

/-- The length of an entry, where there is one. -/
def sizeOf? (loc : Location) (p : Prometheus) (startTime endTime : Time) (metric : String)
    (i : ℕ) : Option ℕ :=
  (entryOf loc p startTime endTime metric i).map String.utf8ByteSize

/-- Texts of one length make entries of one length, or none. -/
theorem size_congr {data data' : String} (h : data.utf8ByteSize = data'.utf8ByteSize) :
    (if data = "" then none else some (Collected.metricEntry data)).map String.utf8ByteSize =
      (if data' = "" then none else some (Collected.metricEntry data')).map
        String.utf8ByteSize := by
  have hempty : data = "" ↔ data' = "" := by
    rw [← String.utf8ByteSize_eq_zero_iff, ← String.utf8ByteSize_eq_zero_iff, h]
  by_cases hnone : data = ""
  · rw [if_pos hnone, if_pos (hempty.mp hnone)]
  · rw [if_neg hnone, if_neg (mt hempty.mpr hnone)]
    simp only [Option.map_some, Collected.metricEntry, String.utf8ByteSize_append, h]

theorem utf8ByteSize_entryAt (metrics : List String) (i : ℕ) :
    (entryAt loc p startTime endTime metrics i).utf8ByteSize =
      ((metrics[i]?).bind fun metric => sizeOf? loc p startTime endTime metric i).getD 0 := by
  unfold entryAt sizeOf?
  cases metrics[i]? with
  | none => rfl
  | some metric => cases hentry : entryOf loc p startTime endTime metric i <;> simp [hentry]

/-- What a position offers depends on the importance of its metric, and on whether it has
    data. -/
theorem positionOffer_eq (metric : String) (i : ℕ) :
    positionOffer loc p startTime endTime (metric, i) =
      ⟨isImportant metric, (sizeOf? loc p startTime endTime metric i).map fun _ => i⟩ := by
  rw [positionOffer, sizeOf?, Option.map_map]
  rfl

/-- The lists agree place by place in the lengths of their entries, and in the importance
    of the metrics that have data. -/
structure SamePlaces (loc : Location) (p p' : Prometheus) (startTime endTime : Time)
    (metrics metrics' : List String) : Prop where
  length : metrics.length = metrics'.length
  size : ∀ i metric metric', metrics[i]? = some metric → metrics'[i]? = some metric' →
    sizeOf? loc p startTime endTime metric i = sizeOf? loc p' startTime endTime metric' i
  important : ∀ i metric metric', metrics[i]? = some metric → metrics'[i]? = some metric' →
    sizeOf? loc p startTime endTime metric i ≠ none → isImportant metric = isImportant metric'

variable {p' : Prometheus} {metrics' : List String}

theorem SamePlaces.offers (h : SamePlaces loc p p' startTime endTime metrics metrics') :
    List.Forall₂ (fun o o' => o.item = o'.item ∧ (o.item ≠ none → o.vital = o'.vital))
      (metrics.zipIdx.map (positionOffer loc p startTime endTime))
      (metrics'.zipIdx.map (positionOffer loc p' startTime endTime)) := by
  rw [List.forall₂_map_left_iff, List.forall₂_map_right_iff, List.forall₂_iff_get]
  refine ⟨by simpa using h.length, ?_⟩
  intro i hi hi'
  simp only [List.length_zipIdx] at hi hi'
  have hmetric := List.getElem?_eq_getElem hi
  have hmetric' := List.getElem?_eq_getElem hi'
  have hsize := h.size i _ _ hmetric hmetric'
  simp only [List.get_eq_getElem, List.getElem_zipIdx, Nat.zero_add, positionOffer_eq, hsize,
    true_and]
  intro hdata
  apply h.important i _ _ hmetric hmetric'
  rw [hsize]
  exact fun hnone => hdata (by rw [hnone]; rfl)

/-- Places with entries of one length weigh the same. -/
theorem weights_eq (hlength : metrics.length = metrics'.length)
    (hsize : ∀ i metric metric', metrics[i]? = some metric → metrics'[i]? = some metric' →
      sizeOf? loc p startTime endTime metric i = sizeOf? loc p' startTime endTime metric' i) :
    (fun i => estimateTokens (entryAt loc p startTime endTime metrics i)) =
      fun i => estimateTokens (entryAt loc p' startTime endTime metrics' i) := by
  funext i
  have hplace : (metrics[i]?).bind (fun metric => sizeOf? loc p startTime endTime metric i) =
      (metrics'[i]?).bind fun metric => sizeOf? loc p' startTime endTime metric i := by
    cases hmetric : metrics[i]? with
    | none =>
        have hshort : metrics'[i]? = none := by
          rw [List.getElem?_eq_none_iff, ← hlength]
          exact List.getElem?_eq_none_iff.mp hmetric
        rw [hshort]
        rfl
    | some metric =>
        have hi : i < metrics'.length := hlength ▸ (List.getElem?_eq_some_iff.mp hmetric).1
        have hmetric' := List.getElem?_eq_getElem hi
        rw [hmetric']
        exact hsize i _ _ hmetric hmetric'
  rw [estimateTokens, estimateTokens, utf8ByteSize_entryAt, utf8ByteSize_entryAt, hplace]

/-- Runs over lists that agree keep the same positions. -/
theorem SamePlaces.keptPositions_eq (h : SamePlaces loc p p' startTime endTime metrics metrics') :
    keptPositions loc p startTime endTime metrics =
      keptPositions loc p' startTime endTime metrics' := by
  rw [keptPositions, keptPositions, Budget.pick_congr h.offers, weights_eq h.length h.size]

/-- Every position is offered once. -/
theorem items_nodup (metrics : List String) :
    (Budget.items (metrics.zipIdx.map (positionOffer loc p startTime endTime))).Nodup := by
  have hpositions : (metrics.zipIdx.map Prod.snd).Nodup := by
    rw [List.zipIdx_map_snd]
    exact List.nodup_range'
  rw [Budget.items, List.filterMap_map]
  refine List.Pairwise.filterMap _ ?_ (List.pairwise_map.mp hpositions)
  intro metricAt metricAt' hne i hi i' hi'
  obtain ⟨_, _, rfl⟩ := Option.map_eq_some_iff.mp hi
  obtain ⟨_, _, rfl⟩ := Option.map_eq_some_iff.mp hi'
  exact hne

end Chain
