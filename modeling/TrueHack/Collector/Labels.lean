-- SUMMARY: The label text of a series: when two series of a metric are printed alike.
import TrueHack.Base.Fields
import TrueHack.Collector.LabelOrder

/-!
# The labels of a series in print

Labels are printed as `name=value`, with a comma and a space between them and
nothing quoted. A label value may hold any text, so two series can be printed
alike, namely where their labels have common parts.
-/

namespace Collector

open Fields

/-- `[a-zA-Z_][a-zA-Z0-9_]*` -/
def isLabelName : List Char → Bool
  | [] => false
  | c :: cs => (c.isAlpha || c = '_') && cs.all fun c => c.isAlphanum || c = '_'

theorem notMem_of_isLabelName {name : List Char} {mark : Char} (h : isLabelName name = true)
    (hmark : (mark.isAlphanum || mark = '_') = false) : mark ∉ name := by
  cases name with
  | nil => cases h
  | cons c cs =>
      simp only [isLabelName, Bool.and_eq_true, List.all_eq_true] at h
      intro hmem
      cases hmem with
      | head =>
          have hstart := h.1
          simp only [Char.isAlphanum, Bool.or_eq_false_iff] at hmark
          simp [hmark] at hstart
      | tail _ hmem => cases hmark.symm.trans (h.2 _ hmem)

/-- The marks of a label text. -/
def labelMarks : Punctuation Char where
  comma := ','
  gap := [' ']
  equals := '='
  IsName name := isLabelName name = true
  comma_notMem_gap := by decide
  comma_ne_equals := by decide
  comma_notMem h := notMem_of_isLabelName h (by decide)
  equals_notMem h := notMem_of_isLabelName h (by decide)

/-- The characters of labels. -/
def labelChars (labels : List (String × String)) : List (List Char × List Char) :=
  labels.map fun (name, value) => (name.toList, value.toList)

/-- The text of labels, behind one more separator. -/
theorem listed_labelChars {labels : List (String × String)} (h : labels ≠ []) :
    listed labelMarks (labelChars labels) = ',' :: ' ' :: (labelStr labels).toList := by
  induction labels with
  | nil => exact absurd rfl h
  | cons label labels ih =>
      obtain ⟨name, value⟩ := label
      have hcons : listed labelMarks (labelChars ((name, value) :: labels)) =
          ',' :: ' ' :: (labelText (name, value)).toList ++
            listed labelMarks (labelChars labels) := by
        simp [labelChars, written, labelMarks, labelText]
      rw [hcons]
      cases labels with
      | nil => simp [labelStr, labelChars, listed]
      | cons label labels =>
          rw [ih (List.cons_ne_nil _ _)]
          simp [labelStr, String.intercalate_cons_cons]

theorem labelStr_ne_empty {labels : List (String × String)} (h : labels ≠ []) :
    labelStr labels ≠ "" := by
  intro hempty
  cases labels with
  | nil => exact h rfl
  | cons label labels =>
      have hsize := congrArg String.utf8ByteSize hempty
      cases labels with
      | nil => simp [labelStr, labelText, String.utf8ByteSize_append] at hsize
      | cons label labels =>
          simp [labelStr, labelText, String.utf8ByteSize_append, String.intercalate_cons_cons]
            at hsize

/-- A label text is determined by its characters behind one more separator. -/
theorem labelStr_eq_iff {labels labels' : List (String × String)} :
    labelStr labels = labelStr labels' ↔
      listed labelMarks (labelChars labels) = listed labelMarks (labelChars labels') := by
  cases labels with
  | nil =>
      cases labels' with
      | nil => exact iff_of_true rfl rfl
      | cons label' labels' =>
          rw [listed_labelChars (List.cons_ne_nil label' labels')]
          exact iff_of_false (labelStr_ne_empty (List.cons_ne_nil _ _)).symm nofun
  | cons label labels =>
      rw [listed_labelChars (List.cons_ne_nil label labels)]
      cases labels' with
      | nil => exact iff_of_false (labelStr_ne_empty (List.cons_ne_nil _ _)) nofun
      | cons label' labels' =>
          rw [listed_labelChars (List.cons_ne_nil label' labels'), ← String.toList_inj]
          simp

theorem braces_ne_empty (text : String) : "\x7b" ++ text ++ "\x7d" ≠ "" := by
  intro h
  have hsize := congrArg String.utf8ByteSize h
  simp [String.utf8ByteSize_append] at hsize

/-- Braces do not hide a difference. -/
theorem formatLabels_eq_iff {metric metric' : LabelSet} :
    formatLabels metric = formatLabels metric' ↔
      labelStr metric.shown = labelStr metric'.shown := by
  constructor
  · intro h
    rw [formatLabels_eq, formatLabels_eq] at h
    split at h
    · split at h
      · rw [← String.toList_inj] at h ⊢
        simpa using h
      · rename_i hnone
        rw [not_not.mp hnone] at h
        exact absurd h (braces_ne_empty _)
    · rename_i hnone
      split at h
      · rw [not_not.mp hnone] at h
        exact absurd h.symm (braces_ne_empty _)
      · exact h
  · intro h
    rw [formatLabels_eq, formatLabels_eq, h]

/-! ## Series printed alike -/

/-- The label texts of two series differ, in whatever order the labels come. -/
def Distinguished (metric metric' : LabelSet) : Prop :=
  ∀ order order' : LabelSet, order.labels.Perm metric.labels →
    order'.labels.Perm metric'.labels → formatLabels order ≠ formatLabels order'

/-- The labels of two series, in some order of each, arise from one list of labels by
    merging neighbours. -/
def CommonParts (metric metric' : LabelSet) : Prop :=
  ∃ labels labels', labels.Perm metric.shown ∧ labels'.Perm metric'.shown ∧
    HaveParts labelMarks (labelChars labels) (labelChars labels')

/-- The names of the labels are identifiers. -/
def LabelSet.Named (metric : LabelSet) : Prop :=
  ∀ label ∈ metric.labels, isLabelName label.1.toList = true

instance (metric : LabelSet) : Decidable metric.Named :=
  inferInstanceAs (Decidable (∀ label ∈ metric.labels, isLabelName label.1.toList = true))

variable {metric metric' : LabelSet} {labels : List (String × String)}

theorem LabelSet.Named.shown (h : metric.Named) (hperm : labels.Perm metric.shown) :
    Fields.Named labelMarks (labelChars labels) := by
  intro field hmem
  obtain ⟨label, hlabel, rfl⟩ := List.mem_map.mp hmem
  exact h label (List.mem_filter.mp (hperm.mem_iff.mp hlabel)).1

/-- Any order of the printed labels is the order of some iteration. -/
theorem exists_order (hperm : labels.Perm metric.shown) :
    ∃ order : LabelSet, order.labels.Perm metric.labels ∧ order.shown = labels := by
  let hidden := metric.labels.filter fun (name, _) => !decide (name ≠ "__name__")
  have hall : (labels ++ hidden).Perm metric.labels :=
    (hperm.append_right hidden).trans (List.filter_append_perm _ _)
  have hkept : (labels.filter fun (name, _) => decide (name ≠ "__name__")) = labels := by
    rw [List.filter_eq_self]
    intro label hlabel
    exact (List.mem_filter.mp (hperm.mem_iff.mp hlabel)).2
  have hdropped : (hidden.filter fun (name, _) => decide (name ≠ "__name__")) = [] := by
    rw [List.filter_eq_nil_iff]
    intro label hlabel
    simpa using (List.mem_filter.mp hlabel).2
  refine ⟨⟨labels ++ hidden, (hall.map Prod.fst).nodup_iff.mpr metric.nodup⟩, hall, ?_⟩
  rw [LabelSet.shown, List.filter_append, hkept, hdropped, List.append_nil]

/-- Two series are printed alike in some order exactly when their labels have common
    parts. -/
theorem distinguished_iff_not_commonParts (h : metric.Named) (h' : metric'.Named) :
    Distinguished metric metric' ↔ ¬CommonParts metric metric' := by
  constructor
  · intro hdistinguished ⟨labels, labels', hperm, hperm', hparts⟩
    obtain ⟨order, horder, hshown⟩ := exists_order hperm
    obtain ⟨order', horder', hshown'⟩ := exists_order hperm'
    apply hdistinguished order order' horder horder'
    rw [formatLabels_eq_iff, labelStr_eq_iff, hshown, hshown',
      listed_eq_iff (h.shown hperm) (h'.shown hperm')]
    exact hparts
  · intro hnone order order' horder horder' halike
    have hperm : order.shown.Perm metric.shown := LabelSet.shown_perm horder
    have hperm' : order'.shown.Perm metric'.shown := LabelSet.shown_perm horder'
    rw [formatLabels_eq_iff, labelStr_eq_iff,
      listed_eq_iff (h.shown hperm) (h'.shown hperm')] at halike
    exact hnone ⟨_, _, hperm, hperm', halike⟩

/-- No label value contains a comma, a space, an identifier and an equals sign in a
    row. -/
def LabelSet.Plain (metric : LabelSet) : Prop := Fields.Plain labelMarks (labelChars metric.shown)

theorem LabelSet.Plain.perm (h : metric.Plain) (hperm : labels.Perm metric.shown) :
    Fields.Plain labelMarks (labelChars labels) := by
  intro field hmem
  exact h field ((hperm.map _).mem_iff.mp hmem)

theorem labelChars_inj {labels labels' : List (String × String)}
    (h : labelChars labels = labelChars labels') : labels = labels' := by
  apply List.map_injective_iff.mpr _ h
  intro (name, value) (name', value') heq
  obtain ⟨hname, hvalue⟩ := Prod.mk.inj heq
  rw [String.toList_inj.mp hname, String.toList_inj.mp hvalue]

/-- Labels with plain values have no parts but themselves. -/
theorem perm_of_commonParts (hplain : metric.Plain) (hplain' : metric'.Plain)
    (h : CommonParts metric metric') : metric.shown.Perm metric'.shown := by
  obtain ⟨labels, labels', hperm, hperm', hparts⟩ := h
  have hsame : labels = labels' :=
    labelChars_inj (eq_of_plain (hplain.perm hperm) (hplain'.perm hperm') hparts)
  exact (hperm.symm.trans (hsame ▸ hperm'))

/-- Series with plain values are distinguished. -/
theorem distinguished_of_plain (h : metric.Named) (h' : metric'.Named) (hplain : metric.Plain)
    (hplain' : metric'.Plain) (hdiffer : ¬metric.shown.Perm metric'.shown) :
    Distinguished metric metric' :=
  (distinguished_iff_not_commonParts h h').mpr (mt (perm_of_commonParts hplain hplain') hdiffer)

/-- Series with different labels are distinguished exactly where labels with common parts
    are the same. -/
theorem distinguished_iff (metric metric' : LabelSet) (h : metric.Named) (h' : metric'.Named) :
    (¬metric.shown.Perm metric'.shown → Distinguished metric metric') ↔
      (CommonParts metric metric' → metric.shown.Perm metric'.shown) := by
  rw [distinguished_iff_not_commonParts h h', not_imp_not]

/-- A series with one label. -/
def series (name value : String) : LabelSet := ⟨[(name, value)], by simp⟩

/-- Two values of one character. -/
theorem distinguished_two : Distinguished (series "a" "1") (series "a" "2") := by
  have hshort (value : String) (hvalue : value.length < 3) : (series "a" value).Plain := by
    intro field hmem text name value' _ heq
    cases List.mem_singleton.mp hmem
    have hlength : value.toList.length = _ := congrArg List.length heq
    simp only [written, labelMarks, List.length_append, List.length_cons, List.length_nil,
      String.length_toList] at hlength
    omega
  have hname : isLabelName "a".toList = true := by decide
  have hnamed (value : String) : (series "a" value).Named := by
    intro label hmem
    cases List.mem_singleton.mp hmem
    exact hname
  apply (distinguished_iff _ _ (hnamed "1") (hnamed "2")).mpr
  · exact perm_of_commonParts (hshort "1" (by decide)) (hshort "2" (by decide))
  · decide

/-- A value that contains a label. -/
theorem series_printed_alike : ¬∀ metric metric' : LabelSet, metric.Named → metric'.Named →
    ¬metric.shown.Perm metric'.shown → Distinguished metric metric' := by
  intro h
  have hdistinguished := h (series "a" "1, b=2") ⟨[("a", "1"), ("b", "2")], by decide⟩
    (by decide) (by decide) (by decide)
  exact hdistinguished _ _ (.refl _) (.refl _) (by decide)

end Collector
