-- SUMMARY: Sorting by buckets: a list spread over a map by its keys and put together again in the order of the keys.
import TrueHack.Base.GoMap
import Mathlib.Data.Finset.Sort

/-!
# Buckets

A program spreads a list over a map, one bucket for each key, collects the keys
in the order the map gives them, sorts them, and puts the buckets together from
the last key to the first. The result is the list sorted by key, downwards, and
elements with one key stay in their order.
-/

namespace Buckets

variable {K α : Type} [LinearOrder K] {key : α → K} {l : List α} {k : K}

/-- `buckets[key(a)] = append(buckets[key(a)], a)` -/
def add (key : α → K) (buckets : GoMap K (List α)) (a : α) : GoMap K (List α) :=
  buckets.insert (key a) ((buckets.lookup (key a)).getD [] ++ [a])

/-- All elements in their buckets. -/
def fill (key : α → K) (l : List α) : GoMap K (List α) := l.foldl (add key) ∅

/-- `buckets[k]`, where a missing bucket is empty. -/
def bucket (buckets : GoMap K (List α)) (k : K) : List α := (buckets.lookup k).getD []

/-- The buckets one after the other, from the largest key to the smallest. -/
def drain (buckets : GoMap K (List α)) (order : buckets.KeyOrder) : List α :=
  (order.keys.mergeSort (· ≤ ·)).reverse.flatMap (bucket buckets)

/-! ## Filling -/

theorem bucket_add (buckets : GoMap K (List α)) (a : α) :
    bucket (add key buckets a) k =
      if key a = k then bucket buckets k ++ [a] else bucket buckets k := by
  unfold bucket add
  split
  · rename_i hk
    rw [hk, Finmap.lookup_insert, Option.getD_some]
  · rename_i hk
    rw [Finmap.lookup_insert_of_ne _ fun h => hk h.symm]

/-- A bucket holds the elements with its key, in order. -/
theorem bucket_fill (l : List α) : bucket (fill key l) k = l.filter fun a => key a = k := by
  have hfold (buckets : GoMap K (List α)) :
      bucket (l.foldl (add key) buckets) k = bucket buckets k ++ l.filter fun a => key a = k := by
    induction l generalizing buckets with
    | nil => simp
    | cons a l ih =>
        rw [List.foldl_cons, ih, bucket_add, List.filter_cons]
        split <;> simp_all
  simpa [fill, bucket] using hfold ∅

theorem mem_fill : k ∈ fill key l ↔ ∃ a ∈ l, key a = k := by
  have hfold (buckets : GoMap K (List α)) :
      k ∈ l.foldl (add key) buckets ↔ k ∈ buckets ∨ ∃ a ∈ l, key a = k := by
    induction l generalizing buckets with
    | nil => simp
    | cons a l ih =>
        rw [List.foldl_cons, ih, add, Finmap.mem_insert]
        simp only [List.mem_cons, exists_eq_or_imp, eq_comm (a := k)]
        tauto
  simpa [fill, Finmap.notMem_empty] using hfold ∅

/-! ## Draining -/

variable (order : (fill key l).KeyOrder)

/-- The sorted keys do not depend on the order in which they were collected. -/
theorem mergeSort_keys : order.keys.mergeSort (· ≤ ·) = (fill key l).keys.sort (· ≤ ·) := by
  have hkeys : (order.keys : Multiset K).sort (· ≤ ·) = (fill key l).keys.val.sort (· ≤ ·) := by
    rw [order.complete]
  exact hkeys

theorem drain_eq : drain (fill key l) order =
    ((fill key l).keys.sort (· ≤ ·)).reverse.flatMap fun k => l.filter fun a => key a = k := by
  rw [drain, mergeSort_keys]
  exact List.flatMap_congr fun k _ => bucket_fill l

theorem drain_order (order' : (fill key l).KeyOrder) :
    drain (fill key l) order = drain (fill key l) order' := by
  rw [drain_eq, drain_eq]

/-- Buckets of different keys, put together, keep what they hold. -/
theorem filter_flatMap {ks : List K} (hks : ks.Nodup) :
    ((ks.flatMap fun k => l.filter fun a => key a = k).filter fun a => key a = k) =
      if k ∈ ks then l.filter fun a => key a = k else [] := by
  induction ks with
  | nil => simp
  | cons k' ks ih =>
      obtain ⟨hnew, hks⟩ := List.nodup_cons.mp hks
      rw [List.flatMap_cons, List.filter_append, ih hks, List.filter_filter]
      cases eq_or_ne k k' with
      | inl heq =>
          subst heq
          simp [hnew]
      | inr hne =>
          have hdisjoint : (l.filter fun a => key a = k && key a = k') = [] := by
            rw [List.filter_eq_nil_iff]
            intro a _ ha
            simp only [Bool.and_eq_true, decide_eq_true_eq] at ha
            exact hne (ha.1.symm.trans ha.2)
          simp [hne, hdisjoint]

/-- Elements with one key come out in the order in which they went in. -/
theorem drain_stable (k : K) : ((drain (fill key l) order).filter fun a => key a = k) =
    l.filter fun a => key a = k := by
  rw [drain_eq, filter_flatMap (List.nodup_reverse.mpr (Finset.sort_nodup _ _))]
  split
  · rfl
  · rename_i hmissing
    rw [List.mem_reverse, Finset.mem_sort, Finmap.mem_keys, mem_fill] at hmissing
    symm
    rw [List.filter_eq_nil_iff]
    intro a ha hk
    exact hmissing ⟨a, ha, by simpa using hk⟩

/-- Nothing is lost and nothing is added. -/
theorem drain_perm : (drain (fill key l) order).Perm l := by
  classical
  rw [List.perm_iff_count]
  intro a
  have hcount (l' : List α) : l'.count a = (l'.filter fun b => key b = key a).count a :=
    (List.count_filter (by simp)).symm
  rw [hcount, drain_stable, ← hcount]

/-- The keys go down along the result. -/
theorem drain_sorted : (drain (fill key l) order).Pairwise fun a b => key b ≤ key a := by
  rw [drain_eq, List.pairwise_flatMap]
  constructor
  · intro k _
    refine List.pairwise_of_forall_mem_list ?_
    intro a ha b hb
    simp only [List.mem_filter, decide_eq_true_eq] at ha hb
    rw [ha.2, hb.2]
  · rw [List.pairwise_reverse]
    refine (Finset.pairwise_sort _ (· ≤ ·)).imp ?_
    intro k k' hle a ha b hb
    simp only [List.mem_filter, decide_eq_true_eq] at ha hb
    rw [ha.2, hb.2]
    exact hle

end Buckets
