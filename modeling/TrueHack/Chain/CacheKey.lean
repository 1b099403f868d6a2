-- SUMMARY: Cache keys: their text, their equality, and every way in which two of them share a text.
import TrueHack.Go.TimeText

/-!
# Cache keys

The cache is indexed by `CacheKey.string`, which writes the parts of a key one
after the other. A parsed time can be read back from its text and cannot begin
inside another one, so two different keys share a text in two ways only: they
differ in how the same text is cut into metrics, or the question of one goes on
where the other has its times.
-/

namespace Chain

open Go

/-- `CacheKey` -/
structure CacheKey where
  question : String
  startTime : Time
  endTime : Time
  metrics : List String
deriving DecidableEq

namespace CacheKey

/-- `CacheKey.String` -/
def string (k : CacheKey) : String :=
  k.metrics.foldl (· ++ ·) (k.question ++ k.startTime.string ++ k.endTime.string)

/-- `CacheKey.Equal` -/
def equal (k other : CacheKey) : Bool :=
  if k.question ≠ other.question then false
  else if !k.startTime.equal other.startTime || !k.endTime.equal other.endTime then false
  else if k.metrics.length ≠ other.metrics.length then false
  else (k.metrics.zip other.metrics).all fun (m, m') => m = m'

variable {k k₁ k₂ : CacheKey}

theorem equal_iff : k₁.equal k₂ = true ↔ k₁.question = k₂.question ∧
    k₁.startTime.equal k₂.startTime = true ∧ k₁.endTime.equal k₂.endTime = true ∧
    k₁.metrics = k₂.metrics := by
  have hzip : ∀ l l' : List String, l.length = l'.length →
      ((l.zip l').all (fun (m, m') => m = m') = true ↔ l = l') := by
    intro l
    induction l with
    | nil => intro l' hlen; simp [List.length_eq_zero_iff.mp hlen.symm]
    | cons m l ih =>
        intro l' hlen
        cases l' with
        | nil => cases hlen
        | cons m' l' => simpa using fun _ => ih l' (Nat.succ.inj hlen)
  unfold equal
  by_cases hlen : k₁.metrics.length = k₂.metrics.length
  · have := hzip _ _ hlen
    simp only [hlen]
    grind
  · have hne : k₁.metrics ≠ k₂.metrics := fun h => hlen (by rw [h])
    grind

/-- The text of the metrics. -/
def metricsText (k : CacheKey) : String := k.metrics.foldl (· ++ ·) ""

theorem foldl_append (ms : List String) (b : String) :
    ms.foldl (· ++ ·) b = b ++ ms.foldl (· ++ ·) "" := by
  induction ms generalizing b with
  | nil => simp
  | cons m ms ih =>
      rw [List.foldl_cons, List.foldl_cons, ih, ih ("" ++ m), String.empty_append,
        String.append_assoc]

theorem string_eq : k.string =
    k.question ++ (k.startTime.string ++ (k.endTime.string ++ k.metricsText)) := by
  rw [string, foldl_append, String.append_assoc, String.append_assoc]
  rfl

/-! ## Collisions -/

/-- `k₂`'s question goes on as `k₁`'s question and start time, and the rest of the
    texts agree: the question swallows a time. -/
def Swallows (k₂ k₁ : CacheKey) : Prop :=
  ∃ y, k₂.question = k₁.question ++ (k₁.startTime.string ++ y) ∧
    k₁.endTime.string ++ k₁.metricsText =
      y ++ (k₂.startTime.string ++ (k₂.endTime.string ++ k₂.metricsText))

/-- One question and one range, but two lists of metrics with the same concatenation. -/
def Recut (k₁ k₂ : CacheKey) : Prop :=
  k₁.question = k₂.question ∧ k₁.startTime = k₂.startTime ∧ k₁.endTime = k₂.endTime ∧
    k₁.metrics ≠ k₂.metrics ∧ k₁.metricsText = k₂.metricsText

/-- The keys are confused by the cache. -/
def Collides (k₁ k₂ : CacheKey) : Prop := Recut k₁ k₂ ∨ Swallows k₁ k₂ ∨ Swallows k₂ k₁

/-- The times of `k` come from parsing. -/
def Parsed (loc : Location) (k : CacheKey) : Prop :=
  Go.Parsed loc k.startTime ∧ Go.Parsed loc k.endTime

variable {loc : Location}

theorem Swallows.string_eq (h : Swallows k₂ k₁) : k₁.string = k₂.string := by
  obtain ⟨y, hquestion, hrest⟩ := h
  rw [CacheKey.string_eq, CacheKey.string_eq, hquestion, hrest]
  simp only [String.append_assoc]

theorem Recut.string_eq (h : Recut k₁ k₂) : k₁.string = k₂.string := by
  obtain ⟨hquestion, hstart, hend, _, hmetrics⟩ := h
  rw [CacheKey.string_eq, CacheKey.string_eq, hquestion, hstart, hend, hmetrics]

/-- Keys that share a text, where the first question is a proper beginning of the
    second: the second question has swallowed a time. -/
theorem swallows_of_extends (h₁ : k₁.Parsed loc) (h₂ : k₂.Parsed loc) {x : List Char}
    (hx : x ≠ []) (hquestion : k₂.question.toList = k₁.question.toList ++ x)
    (h : k₁.string = k₂.string) : Swallows k₂ k₁ := by
  obtain ⟨s₁, hs₁⟩ := h₁.1.exists_stamp
  obtain ⟨e₁, he₁⟩ := h₁.2.exists_stamp
  obtain ⟨s₂, hs₂⟩ := h₂.1.exists_stamp
  have htext := congrArg String.toList h
  rw [string_eq, string_eq] at htext
  simp only [String.toList_append, hquestion, List.append_assoc, List.append_cancel_left_eq, hs₁,
    he₁, hs₂, Time.string, String.toList_ofList] at htext
  rcases Stamp.chars_aligned htext.symm with hnil | ⟨y, hy, hrest⟩
  · exact absurd hnil hx
  · refine ⟨String.ofList y, String.toList_inj.mp ?_, String.toList_inj.mp ?_⟩
    · simp [hquestion, hy, hs₁, Time.string]
    · simpa [hs₂, he₁, Time.string] using hrest.symm

/-- Keys that share a text and a question share the times, zones included, and the text of
    the metrics. -/
theorem times_eq_of_string_eq (h₁ : k₁.Parsed loc) (h₂ : k₂.Parsed loc)
    (hquestion : k₁.question = k₂.question) (h : k₁.string = k₂.string) :
    k₁.startTime = k₂.startTime ∧ k₁.endTime = k₂.endTime ∧ k₁.metricsText = k₂.metricsText := by
  obtain ⟨s₁, hs₁⟩ := h₁.1.exists_stamp
  obtain ⟨e₁, he₁⟩ := h₁.2.exists_stamp
  obtain ⟨s₂, hs₂⟩ := h₂.1.exists_stamp
  obtain ⟨e₂, he₂⟩ := h₂.2.exists_stamp
  have htext := congrArg String.toList h
  rw [string_eq, string_eq, hquestion] at htext
  simp only [String.toList_append, List.append_cancel_left_eq, hs₁, he₁, hs₂, he₂, Time.string,
    String.toList_ofList] at htext
  have hstart := Stamp.chars_append_inj htext
  rw [hstart, List.append_cancel_left_eq] at htext
  have hend := Stamp.chars_append_inj htext
  rw [hend, List.append_cancel_left_eq] at htext
  exact ⟨by rw [hs₁, hs₂, hstart], by rw [he₁, he₂, hend], String.toList_inj.mp htext⟩

theorem equal_or_recut (h₁ : k₁.Parsed loc) (h₂ : k₂.Parsed loc)
    (hquestion : k₁.question = k₂.question) (h : k₁.string = k₂.string) :
    k₁.equal k₂ = true ∨ Recut k₁ k₂ := by
  obtain ⟨hstart, hend, htext⟩ := times_eq_of_string_eq h₁ h₂ hquestion h
  by_cases hmetrics : k₁.metrics = k₂.metrics
  · left
    rw [equal_iff, hstart, hend]
    simp [Time.equal, hquestion, hmetrics]
  · exact .inr ⟨hquestion, hstart, hend, hmetrics, htext⟩

/-- Two keys share a text only if they are equal or collide. -/
theorem equal_or_collides (h₁ : k₁.Parsed loc) (h₂ : k₂.Parsed loc) (h : k₁.string = k₂.string) :
    k₁.equal k₂ = true ∨ Collides k₁ k₂ := by
  have htext := congrArg String.toList h
  rw [string_eq, string_eq] at htext
  simp only [String.toList_append] at htext
  by_cases hquestion : k₁.question = k₂.question
  · exact (equal_or_recut h₁ h₂ hquestion h).imp_right .inl
  right
  right
  rcases List.append_eq_append_iff.mp htext with ⟨x, hx, _⟩ | ⟨x, hx, _⟩
  · have hne : x ≠ [] := by
      rintro rfl
      exact hquestion (String.toList_inj.mp (by simpa using hx.symm))
    exact .inr (swallows_of_extends h₁ h₂ hne hx h)
  · have hne : x ≠ [] := by
      rintro rfl
      exact hquestion (String.toList_inj.mp (by simpa using hx))
    exact .inl (swallows_of_extends h₂ h₁ hne hx h.symm)

/-- Colliding keys share a text. -/
theorem Collides.string_eq (h : Collides k₁ k₂) : k₁.string = k₂.string := by
  rcases h with h | h | h
  · exact h.string_eq
  · exact h.string_eq.symm
  · exact h.string_eq

/-- A question that swallows a time is another question. -/
theorem Swallows.question_ne (h : Swallows k₂ k₁) : k₁.question ≠ k₂.question := by
  obtain ⟨y, hquestion, _⟩ := h
  intro heq
  have htext := congrArg String.toList (heq.trans hquestion)
  simp [Time.string, Time.chars] at htext

/-- Colliding keys are not equal. -/
theorem Collides.not_equal (h : Collides k₁ k₂) : k₁.equal k₂ = false := by
  rw [Bool.eq_false_iff, ne_eq, equal_iff]
  rintro ⟨hquestion, _, _, hmetrics⟩
  rcases h with h | h | h
  · exact h.2.2.2.1 hmetrics
  · exact h.question_ne hquestion.symm
  · exact h.question_ne hquestion

/-- Equality of texts implies equality of keys exactly when the keys do not collide. -/
theorem string_injective_iff (h₁ : k₁.Parsed loc) (h₂ : k₂.Parsed loc) :
    (k₁.string = k₂.string → k₁.equal k₂ = true) ↔ ¬Collides k₁ k₂ := by
  constructor
  · intro h hcollides
    rw [hcollides.not_equal] at h
    cases h hcollides.string_eq
  · intro h htext
    exact (equal_or_collides h₁ h₂ htext).resolve_right h

end CacheKey

end Chain
