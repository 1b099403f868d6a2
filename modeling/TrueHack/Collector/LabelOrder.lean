-- SUMMARY: The order of labels: the text of an answer has the same length whatever order a map gives them.
import TrueHack.Collector.Prometheus
import Mathlib.Algebra.BigOperators.Group.List.Basic

/-!
# The order of labels

The labels of a series are a map, so each printing may put them in another order.
The text changes with the order, and its length does not.
-/

namespace Collector

open Go

/-- The labels that are printed: all but the name of the metric. -/
def LabelSet.shown (metric : LabelSet) : List (String × String) :=
  metric.labels.filter fun (name, _) => name ≠ "__name__"

/-- `fmt.Sprintf("%s=%s", name, value)` -/
def labelText (label : String × String) : String := label.1 ++ "=" ++ label.2

/-- `labelStr` before it is put in braces. -/
def labelStr (labels : List (String × String)) : String := ", ".intercalate (labels.map labelText)

theorem formatLabels_eq (metric : LabelSet) : formatLabels metric =
    if labelStr metric.shown ≠ "" then "\x7b" ++ labelStr metric.shown ++ "\x7d"
    else labelStr metric.shown := rfl

/-! ## The same answer in another order -/

/-- The same sample, its labels met in another order. -/
structure Sample.Reordered (sample sample' : Sample) : Prop where
  metric : sample.metric.labels.Perm sample'.metric.labels
  value : sample.value = sample'.value
  timestamp : sample.timestamp = sample'.timestamp

/-- The same stream, its labels met in another order. -/
structure SampleStream.Reordered (stream stream' : SampleStream) : Prop where
  metric : stream.metric.labels.Perm stream'.metric.labels
  values : stream.values = stream'.values

/-- The same value, the labels of each series met in another order. -/
inductive Value.Reordered : Value → Value → Prop where
  | vector {v v' : List Sample} (h : List.Forall₂ Sample.Reordered v v') :
      Reordered (.vector v) (.vector v')
  | matrix {v v' : List SampleStream} (h : List.Forall₂ SampleStream.Reordered v v') :
      Reordered (.matrix v) (.matrix v')
  | other : Reordered .other .other

/-- The same answer, the labels of each series met in another order. -/
inductive SameAnswer : Except String Value → Except String Value → Prop where
  | error (err : String) : SameAnswer (.error err) (.error err)
  | ok {value value' : Value} (h : value.Reordered value') : SameAnswer (.ok value) (.ok value')

/-- What Prometheus answers to the query for the metric at position `i`. -/
def Prometheus.answer (p : Prometheus) (i : ℕ) (metric : String) : Except String Value :=
  p.query i (metricQuery metric (p.queryAt i))

/-- The same answers, the labels of each series met in another order. -/
structure Prometheus.Reordered (p p' : Prometheus) : Prop where
  labelValues : p.labelValues = p'.labelValues
  answer : ∀ i metric, SameAnswer (p.answer i metric) (p'.answer i metric)

/-! ## Lengths -/

theorem utf8ByteSize_intercalate (sep : String) (texts : List String) :
    (sep.intercalate texts).utf8ByteSize =
      (texts.map String.utf8ByteSize).sum + sep.utf8ByteSize * (texts.length - 1) := by
  induction texts with
  | nil => simp
  | cons text texts ih =>
      cases texts with
      | nil => simp
      | cons text' texts =>
          rw [String.intercalate_cons_cons, String.utf8ByteSize_append, String.utf8ByteSize_append,
            ih]
          simp only [List.map_cons, List.sum_cons, List.length_cons, Nat.add_sub_cancel]
          rw [Nat.mul_succ]
          omega

theorem utf8ByteSize_labelStr {labels labels' : List (String × String)} (h : labels.Perm labels') :
    (labelStr labels).utf8ByteSize = (labelStr labels').utf8ByteSize := by
  unfold labelStr
  have htexts : (labels.map labelText).Perm (labels'.map labelText) := h.map _
  rw [utf8ByteSize_intercalate, utf8ByteSize_intercalate, (htexts.map _).sum_eq, htexts.length_eq]

variable {metric metric' : LabelSet}

theorem LabelSet.shown_perm (h : metric.labels.Perm metric'.labels) :
    metric.shown.Perm metric'.shown := h.filter _

theorem utf8ByteSize_formatLabels (h : metric.labels.Perm metric'.labels) :
    (formatLabels metric).utf8ByteSize = (formatLabels metric').utf8ByteSize := by
  have hsize := utf8ByteSize_labelStr (LabelSet.shown_perm h)
  have hempty : labelStr metric.shown = "" ↔ labelStr metric'.shown = "" := by
    rw [← String.utf8ByteSize_eq_zero_iff, ← String.utf8ByteSize_eq_zero_iff, hsize]
  rw [formatLabels_eq, formatLabels_eq]
  by_cases hnone : labelStr metric.shown = ""
  · rw [if_neg (not_not.mpr hnone), if_neg (not_not.mpr (hempty.mp hnone)), hsize]
  · rw [if_pos hnone, if_pos (mt hempty.mpr hnone)]
    simp only [String.utf8ByteSize_append, hsize]

theorem utf8ByteSize_join {α : Type} {print print' : α → String} {R : α → α → Prop}
    (h : ∀ a a', R a a' → (print a).utf8ByteSize = (print' a').utf8ByteSize) {l l' : List α}
    (hl : List.Forall₂ R l l') :
    (String.join (l.map print)).utf8ByteSize = (String.join (l'.map print')).utf8ByteSize := by
  induction hl with
  | nil => rfl
  | cons hhead _ ih =>
      simp only [List.map_cons, String.join_cons, String.utf8ByteSize_append]
      rw [h _ _ hhead, ih]

/-- The text of a reordered answer is as long. -/
theorem Value.Reordered.utf8ByteSize {value value' : Value} (h : value.Reordered value')
    (loc : Location) (metric : String) :
    (formatValue loc metric value).utf8ByteSize = (formatValue loc metric value').utf8ByteSize := by
  cases h with
  | vector h =>
      apply utf8ByteSize_join _ h
      intro sample sample' hsame
      simp only [formatSample, String.utf8ByteSize_append, hsame.value,
        utf8ByteSize_formatLabels hsame.metric]
  | matrix h =>
      apply utf8ByteSize_join _ h
      intro stream stream' hsame
      simp only [formatStream, String.utf8ByteSize_append, hsame.values,
        utf8ByteSize_formatLabels hsame.metric]
  | other => rfl

end Collector
