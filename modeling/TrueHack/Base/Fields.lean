-- SUMMARY: Lists of named fields written without quoting: which lists have the same text.
import Mathlib.Data.List.Basic

/-!
# Fields without quoting

Fields are written one after the other, each as its name and its value behind a
separator. Nothing is quoted, so a value may contain what looks like the next
field, and then two lists of fields have one text. They do exactly when both
arise from one list by merging neighbours: the common refinement of the two.
-/

namespace Fields

/-- Where fields and names end. A name contains neither mark. -/
structure Punctuation (α : Type) where
  comma : α
  gap : List α
  equals : α
  IsName : List α → Prop
  comma_notMem_gap : comma ∉ gap
  comma_ne_equals : comma ≠ equals
  comma_notMem : ∀ {name}, IsName name → comma ∉ name
  equals_notMem : ∀ {name}, IsName name → equals ∉ name

variable {α : Type} (p : Punctuation α)

/-- A field behind its separator. -/
def written (name value : List α) : List α :=
  (p.comma :: (p.gap ++ name) ++ [p.equals]) ++ value

/-- The text of a list of fields. -/
def listed (fields : List (List α × List α)) : List α :=
  fields.flatMap fun (name, value) => written p name value

/-- All names are names. -/
def Named (fields : List (List α × List α)) : Prop := ∀ field ∈ fields, p.IsName field.1

/-- The second list arises from the first by merging neighbours: a field that is merged
    into the one before it becomes the end of its value. -/
inductive Merged : List (List α × List α) → List (List α × List α) → Prop where
  | nil : Merged [] []
  | keep (name value : List α) {parts fields : List (List α × List α)} :
      Merged parts fields → Merged ((name, value) :: parts) ((name, value) :: fields)
  | merge (name value : List α) {name' value' : List α} {parts fields : List (List α × List α)} :
      Merged parts ((name', value') :: fields) →
      Merged ((name, value) :: parts) ((name, value ++ written p name' value') :: fields)

variable {p} {name value : List α} {parts fields fields' : List (List α × List α)}

@[simp] theorem listed_cons : listed p ((name, value) :: fields) =
    written p name value ++ listed p fields := rfl

theorem written_append (text : List α) :
    written p name value ++ text = written p name (value ++ text) := by
  rw [written, written, List.append_assoc]

theorem named_cons : Named p ((name, value) :: fields) ↔ p.IsName name ∧ Named p fields :=
  List.forall_mem_cons

theorem Merged.refl (fields : List (List α × List α)) : Merged p fields fields := by
  induction fields with
  | nil => exact .nil
  | cons field fields ih => exact .keep field.1 field.2 ih

/-- Merging leaves the text alone. -/
theorem Merged.listed_eq (h : Merged p parts fields) : listed p parts = listed p fields := by
  induction h with
  | nil => rfl
  | keep name value _ ih => rw [listed_cons, listed_cons, ih]
  | merge name value _ ih =>
      rw [listed_cons, listed_cons, ih, listed_cons, ← written_append, List.append_assoc]

/-- The text before the first mark is determined. -/
theorem append_mark_inj {mark : α} {a b v w : List α} (ha : mark ∉ a) (hb : mark ∉ b)
    (h : a ++ mark :: v = b ++ mark :: w) : a = b ∧ v = w := by
  induction a generalizing b with
  | nil =>
      cases b with
      | nil => exact ⟨rfl, (List.cons.inj h).2⟩
      | cons d b => exact absurd (List.mem_cons.mpr (.inl (List.cons.inj h).1)) hb
  | cons c a ih =>
      cases b with
      | nil => exact absurd (List.mem_cons.mpr (.inl (List.cons.inj h).1.symm)) ha
      | cons d b =>
          obtain ⟨hcd, hrest⟩ := List.cons.inj h
          obtain ⟨hab, hvw⟩ := ih (mt (List.mem_cons_of_mem _) ha) (mt (List.mem_cons_of_mem _) hb)
            hrest
          exact ⟨by rw [hcd, hab], hvw⟩

/-- A text begins with a field of one name only. -/
theorem written_inj {name' value' : List α} (h : p.IsName name) (h' : p.IsName name')
    (htext : written p name value = written p name' value') : name = name' ∧ value = value' := by
  have hrest : name ++ p.equals :: value = name' ++ p.equals :: value' := by
    simpa [written] using htext
  exact append_mark_inj (p.equals_notMem h) (p.equals_notMem h') hrest

/-- Where a list of fields goes on inside a value, its next field does, and its name ends
    there too: no field begins inside a separator or a name. -/
theorem listed_eq_append {text : List α} (hname : Named p fields') (hne : text ≠ [])
    (h : text ++ listed p fields = listed p fields') :
    ∃ name value fields₂ rest, fields' = (name, value) :: fields₂ ∧
      text = written p name rest ∧ rest ++ listed p fields = value ++ listed p fields₂ := by
  cases fields' with
  | nil => exact absurd (List.append_eq_nil_iff.mp h).1 hne
  | cons field fields₂ =>
      obtain ⟨name, value⟩ := field
      rw [listed_cons, written, List.append_assoc] at h
      rcases List.append_eq_append_iff.mp h with ⟨begun, hhead, hlist⟩ | ⟨rest, htext, hvalue⟩
      · cases begun with
        | nil => exact ⟨name, value, fields₂, [], rfl, by simpa [written] using hhead.symm,
            by simpa using hlist⟩
        | cons c begun =>
            -- the rest of the separator and the name would begin with a comma
            have hcomma : c = p.comma := by
              cases fields with
              | nil => cases hlist
              | cons field fields => exact ((List.cons.inj hlist).1).symm
            have hmem : p.comma ∈ (p.gap ++ name) ++ [p.equals] := by
              cases text with
              | nil => exact absurd rfl hne
              | cons d text =>
                  have htail : (p.gap ++ name) ++ [p.equals] = text ++ c :: begun :=
                    (List.cons.inj hhead).2
                  rw [htail, hcomma]
                  exact List.mem_append_right _ List.mem_cons_self
            simp only [List.mem_append, List.mem_singleton] at hmem
            rcases hmem with (hgap | hname') | hequals
            · exact absurd hgap p.comma_notMem_gap
            · exact absurd hname' (p.comma_notMem (named_cons.mp hname).1)
            · exact absurd hequals p.comma_ne_equals
      · exact ⟨name, value, fields₂, rest, rfl, htext, hvalue.symm⟩

/-- Two lists with one text arise from one list of parts. -/
def HaveParts (p : Punctuation α) (fields fields' : List (List α × List α)) : Prop :=
  ∃ parts, Named p parts ∧ Merged p parts fields ∧ Merged p parts fields'

theorem HaveParts.symm (h : HaveParts p fields fields') : HaveParts p fields' fields := by
  obtain ⟨parts, hnamed, hmerged, hmerged'⟩ := h
  exact ⟨parts, hnamed, hmerged', hmerged⟩

theorem HaveParts.cons (hname : p.IsName name) (h : HaveParts p fields fields') :
    HaveParts p ((name, value) :: fields) ((name, value) :: fields') := by
  obtain ⟨parts, hnamed, hmerged, hmerged'⟩ := h
  exact ⟨(name, value) :: parts, named_cons.mpr ⟨hname, hnamed⟩, hmerged.keep _ _,
    hmerged'.keep _ _⟩

/-- A value that goes on where the other list has its next field. -/
theorem HaveParts.merge {name₂ rest : List α} (hname : p.IsName name)
    (h : HaveParts p ((name₂, rest) :: fields) fields') :
    HaveParts p ((name, value ++ written p name₂ rest) :: fields) ((name, value) :: fields') := by
  obtain ⟨parts, hnamed, hmerged, hmerged'⟩ := h
  exact ⟨(name, value) :: parts, named_cons.mpr ⟨hname, hnamed⟩, hmerged.merge _ _,
    hmerged'.keep _ _⟩

/-- A first value that is longer than the other by `text` is cut where the other list has
    its next field. -/
theorem haveParts_longer {text : List α} (hname : p.IsName name) (hnamed : Named p fields)
    (hnamed' : Named p fields') (hne : text ≠ [])
    (htext : text ++ listed p fields = listed p fields')
    (ih : ∀ field, Named p (field :: fields) → listed p (field :: fields) = listed p fields' →
      HaveParts p (field :: fields) fields') :
    HaveParts p ((name, value ++ text) :: fields) ((name, value) :: fields') := by
  obtain ⟨name₂, value₂, fields₂, rest, hfields', hwritten, hrest⟩ :=
    listed_eq_append hnamed' hne htext
  rw [hwritten]
  apply HaveParts.merge hname
  have hname₂ : p.IsName name₂ := by
    rw [hfields'] at hnamed'
    exact (named_cons.mp hnamed').1
  apply ih (name₂, rest) (named_cons.mpr ⟨hname₂, hnamed⟩)
  rw [hfields', listed_cons, listed_cons, written_append, written_append, hrest]

/-- The induction is on both lists together; each step takes a field off one of them. -/
theorem haveParts_of_listed_eq (hnamed : Named p fields) (hnamed' : Named p fields')
    (h : listed p fields = listed p fields') : HaveParts p fields fields' := by
  generalize hsize : fields.length + fields'.length = size
  induction size using Nat.strongRecOn generalizing fields fields' with
  | ind size ih =>
      cases fields with
      | nil =>
          cases fields' with
          | nil => exact ⟨[], List.forall_mem_nil _, .nil, .nil⟩
          | cons field' fields' => cases h
      | cons field fields =>
          cases fields' with
          | nil => cases h
          | cons field' fields' =>
              obtain ⟨name, value⟩ := field
              obtain ⟨name', value'⟩ := field'
              obtain ⟨hname, hlater⟩ := named_cons.mp hnamed
              obtain ⟨hname', hlater'⟩ := named_cons.mp hnamed'
              rw [listed_cons, listed_cons, written_append, written_append] at h
              obtain ⟨hsame, hvalues⟩ := written_inj hname hname' h
              cases hsame
              simp only [List.length_cons] at hsize
              rcases List.append_eq_append_iff.mp hvalues with ⟨text, hvalue, htext⟩ |
                ⟨text, hvalue, htext⟩
              · rw [hvalue]
                cases text with
                | nil =>
                    rw [List.append_nil]
                    exact (ih _ (by omega) hlater hlater' htext rfl).cons hname
                | cons c text =>
                    apply HaveParts.symm
                    apply haveParts_longer hname hlater' hlater (List.cons_ne_nil c text) htext.symm
                    intro field hnamed₂ h₂
                    exact ih _ (by simp only [List.length_cons]; omega) hnamed₂ hlater h₂ rfl
              · rw [hvalue]
                cases text with
                | nil =>
                    rw [List.append_nil]
                    exact (ih _ (by omega) hlater hlater' htext.symm rfl).cons hname
                | cons c text =>
                    apply haveParts_longer hname hlater hlater' (List.cons_ne_nil c text) htext.symm
                    intro field hnamed₂ h₂
                    exact ih _ (by simp only [List.length_cons]; omega) hnamed₂ hlater' h₂ rfl

/-- Two lists of fields have one text exactly when they have common parts. -/
theorem listed_eq_iff (hnamed : Named p fields) (hnamed' : Named p fields') :
    listed p fields = listed p fields' ↔ HaveParts p fields fields' := by
  constructor
  · exact haveParts_of_listed_eq hnamed hnamed'
  · intro ⟨parts, _, hmerged, hmerged'⟩
    rw [← hmerged.listed_eq, hmerged'.listed_eq]

/-! ## Plain values -/

/-- No value contains what looks like a field. -/
def Plain (p : Punctuation α) (fields : List (List α × List α)) : Prop :=
  ∀ field ∈ fields, ∀ text name value, p.IsName name → field.2 ≠ text ++ written p name value

/-- Merging makes a value that is not plain. -/
theorem Merged.eq_of_plain (h : Merged p parts fields) (hnamed : Named p parts)
    (hplain : Plain p fields) : parts = fields := by
  induction h with
  | nil => rfl
  | keep name value _ ih =>
      rw [ih (named_cons.mp hnamed).2 fun field hmem => hplain field (List.mem_cons_of_mem _ hmem)]
  | @merge name value name' value' parts fields hmerged =>
      have hname' : p.IsName name' := by
        have hparts := (named_cons.mp hnamed).2
        cases hmerged with
        | keep => exact (named_cons.mp hparts).1
        | merge => exact (named_cons.mp hparts).1
      exact absurd rfl (hplain _ List.mem_cons_self value name' value' hname')

theorem eq_of_plain (hplain : Plain p fields) (hplain' : Plain p fields')
    (h : HaveParts p fields fields') : fields = fields' := by
  obtain ⟨parts, hnamed, hmerged, hmerged'⟩ := h
  rw [← hmerged.eq_of_plain hnamed hplain, hmerged'.eq_of_plain hnamed hplain']

end Fields
