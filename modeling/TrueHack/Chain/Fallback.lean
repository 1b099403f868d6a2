-- SUMMARY: The fallback for replies that are not JSON: when its items are what the patterns captured.
import TrueHack.Chain.Parser

/-!
# The fallback of the parser

The fallback takes whole matches and strips a marker with a colon from each, while
the colon of the patterns is optional. What it returns is therefore the captured
text of a match only if the match took a colon.
-/

namespace Chain

open Go

variable {marker response : String} {cls : Char → Bool} {m : Regex.Match} {c : Char}
  {l l' : List Char}

/-! ## Trimming -/

theorem isSpace_of_isPatternSpace (h : isPatternSpace c = true) : isSpace c = true := by
  simp only [isPatternSpace, Bool.or_eq_true, decide_eq_true_eq] at h
  rcases h with (((rfl | rfl) | rfl) | rfl) | rfl <;> rfl

/-- Space in front does not matter. -/
theorem trimSpace_append (h : ∀ c ∈ l, isSpace c = true) : trimSpace (l ++ l') = trimSpace l' := by
  unfold trimSpace
  rw [List.dropWhile_append_of_pos h]

theorem rdropWhile_cons {p : Char → Bool} (hc : p c = false) :
    (c :: l).rdropWhile p = c :: l.rdropWhile p := by
  unfold List.rdropWhile
  rw [List.reverse_cons, List.dropWhile_append]
  split
  · rename_i hempty
    simp [List.isEmpty_iff.mp hempty, hc]
  · simp

theorem length_rdropWhile_le {p : Char → Bool} (h : l <:+ l') :
    (l.rdropWhile p).length ≤ (l'.rdropWhile p).length := by
  obtain ⟨a, rfl⟩ := h
  unfold List.rdropWhile
  rw [List.reverse_append, List.dropWhile_append]
  split
  · rename_i hempty
    simp [List.isEmpty_iff.mp hempty]
  · simp

/-- A character that is no space makes a difference in front. -/
theorem trimSpace_ne (hc : isSpace c = false) (h : l <:+ l') :
    trimSpace l ≠ trimSpace (c :: l') := by
  have hlt : (trimSpace l).length < (trimSpace (c :: l')).length := by
    unfold trimSpace
    rw [List.dropWhile_cons_of_neg (by simp [hc]), rdropWhile_cons hc, List.length_cons]
    apply Nat.lt_succ_of_le
    exact length_rdropWhile_le ((List.dropWhile_suffix _).trans h)
  intro heq
  rw [heq] at hlt
  exact lt_irrefl _ hlt

theorem trimPrefix_append (beginning : List Char) : trimPrefix (beginning ++ l) beginning = l := by
  simp [trimPrefix]

theorem trimPrefix_of_not {beginning : List Char} (h : ¬beginning <+: l) :
    trimPrefix l beginning = l := by
  simp [trimPrefix, h]

/-! ## One match -/

/-- The match took the colon of its pattern. -/
def ColonTaken (marker : String) (m : Regex.Match) : Prop :=
  m.pieces[marker.length]? = some [':']

instance : Decidable (ColonTaken marker m) := inferInstanceAs (Decidable (_ = _))

/-- The parts of a match: the marker, the colon or nothing, space, and what is captured. -/
structure Parts (marker : String) (m : Regex.Match) (colon space : List Char) : Prop where
  text : m.text = marker.toList ++ (colon ++ (space ++ captured m))
  taken : ColonTaken marker m ↔ colon = [':']
  colon : colon = [] ∨ colon = [':']
  space : ∀ c ∈ space, isPatternSpace c = true

theorem exists_parts (h : m ∈ Regex.findAll (markerRegex marker cls) response) :
    ∃ colon space, Parts marker m colon space := by
  obtain ⟨text, _, hmatch⟩ := Regex.exists_of_mem_findAllFrom h
  obtain ⟨ps, hpieces, hps⟩ := Regex.takes_literal.mp (Regex.matchHead_of hmatch).takes
  match hps with
  | .cons (b := colon) hcolon (.cons (b := space) hspace (.cons (b := caught) _ .nil)) =>
      have hcaptured : captured m = caught := by simp [captured, hpieces]
      refine ⟨colon, space, ?_, ?_, ?_, hspace⟩
      · simp [Regex.Match.text, hpieces, hcaptured, ← List.flatMap_def]
      · have hlength : (marker.toList.map ([·])).length = marker.length := by
          rw [List.length_map, String.length_toList]
        simp [ColonTaken, hpieces, ← hlength]
      · rcases hcolon with hnone | ⟨c, hsome, hc⟩
        · exact .inl hnone
        · exact .inr (by rw [hsome, of_decide_eq_true hc])

/-- The item that the loop leaves in the place of a match. -/
def strippedItem (marker : String) (m : Regex.Match) : List Char :=
  trimSpace (trimPrefix m.text (marker ++ ":").toList)

/-- The marker begins with a character that is no space. -/
def Solid (marker : String) : Prop := ∃ c w, marker.toList = c :: w ∧ isSpace c = false

/-- A captured text without its surrounding space is never the match with its marker. -/
theorem captured_ne_text (hmarker : Solid marker)
    (h : m ∈ Regex.findAll (markerRegex marker cls) response) :
    trimSpace (captured m) ≠ trimSpace m.text := by
  obtain ⟨colon, space, parts⟩ := exists_parts h
  obtain ⟨c, w, hw, hc⟩ := hmarker
  rw [parts.text, hw]
  apply trimSpace_ne hc
  exact ⟨w ++ (colon ++ space), by simp⟩

/-- Without the colon the item keeps the marker, or it loses a colon that was captured. -/
theorem strippedItem_iff (hmarker : Solid marker)
    (h : m ∈ Regex.findAll (markerRegex marker cls) response) :
    strippedItem marker m = trimSpace (captured m) ↔ ColonTaken marker m := by
  obtain ⟨colon, space, parts⟩ := exists_parts h
  rw [parts.taken]
  have hbeginning : (marker ++ ":").toList = marker.toList ++ [':'] := String.toList_append
  rcases parts.colon with hnone | hcolon
  · refine iff_of_false ?_ (by simp [hnone])
    by_cases hcaught : [':'] <+: space ++ captured m
    · -- the colon is the first captured character, as no space is a colon
      obtain ⟨rest, hrest⟩ := hcaught
      have htext : m.text = (marker ++ ":").toList ++ rest := by
        simp [parts.text, hnone, ← hrest]
      have hitem : strippedItem marker m = trimSpace rest := by
        rw [strippedItem, htext, trimPrefix_append]
      have hcaptured : captured m = ':' :: rest := by
        cases space with
        | nil => exact hrest.symm
        | cons c space =>
            obtain rfl : ':' = c := (List.cons.inj hrest).1
            cases parts.space ':' List.mem_cons_self
      rw [hitem, hcaptured]
      exact trimSpace_ne rfl List.suffix_rfl
    · have hitem : strippedItem marker m = trimSpace m.text := by
        unfold strippedItem
        rw [trimPrefix_of_not]
        rw [hbeginning, parts.text, hnone, List.prefix_append_right_inj]
        exact hcaught
      rw [hitem]
      exact (captured_ne_text hmarker h).symm
  · refine iff_of_true ?_ hcolon
    unfold strippedItem
    have htext : m.text = (marker ++ ":").toList ++ (space ++ captured m) := by
      simp [parts.text, hcolon]
    rw [htext, trimPrefix_append, trimSpace_append]
    exact fun c hc => isSpace_of_isPatternSpace (parts.space c hc)

/-! ## All matches -/

/-- What the group of each match captured, without surrounding space. -/
def captures (regex : List Regex.Item) (response : String) : List String :=
  (Regex.findAll regex response).map fun m => String.ofList (trimSpace (captured m))

/-- The items are the captured texts in order, and none is its whole match, with the
    marker in front. -/
structure ReturnsCaptures (regex : List Regex.Item) (response : String)
    (slice : Option (List String)) : Prop where
  items : slice.getD [] = captures regex response
  unmarked : ∀ (i : ℕ) (m : Regex.Match) (item : String),
    (Regex.findAll regex response)[i]? = some m → (slice.getD [])[i]? = some item →
    item ≠ String.ofList (trimSpace m.text)

theorem findMarked_getD (regex : List Regex.Item) : (findMarked regex marker response).getD [] =
    (Regex.findAll regex response).map fun m => String.ofList (strippedItem marker m) := by
  unfold findMarked
  split
  · rename_i hnone
    rw [hnone]
    rfl
  · rfl

theorem returnsCaptures_iff (hmarker : Solid marker) :
    ReturnsCaptures (markerRegex marker cls) response
        (findMarked (markerRegex marker cls) marker response) ↔
      ∀ m ∈ Regex.findAll (markerRegex marker cls) response, ColonTaken marker m := by
  have hitems : (findMarked (markerRegex marker cls) marker response).getD [] =
      captures (markerRegex marker cls) response ↔
      ∀ m ∈ Regex.findAll (markerRegex marker cls) response, ColonTaken marker m := by
    rw [findMarked_getD, captures, List.map_inj_left]
    apply forall₂_congr
    intro m hm
    rw [String.ofList_inj, strippedItem_iff hmarker hm]
  constructor
  · intro h
    exact hitems.mp h.items
  · intro h
    refine ⟨hitems.mpr h, ?_⟩
    intro i m item hm hitem
    rw [hitems.mpr h, captures, List.getElem?_map, hm] at hitem
    obtain rfl := Option.some.inj hitem
    intro heq
    exact captured_ne_text hmarker (List.mem_of_getElem? hm) (String.ofList_injective heq)

/-- The fallback returns what its patterns captured exactly when every match of either
    pattern took the colon. -/
theorem fallback_returns_captures_iff (response : String)
    (h : unmarshalLLMResponse response = none) :
    (ReturnsCaptures suggestionRegex response (parseLLMResponse response).suggestions ∧
        ReturnsCaptures metricRegex response (parseLLMResponse response).metrics) ↔
      (∀ m ∈ Regex.findAll suggestionRegex response, ColonTaken "suggestion" m) ∧
        ∀ m ∈ Regex.findAll metricRegex response, ColonTaken "metric" m := by
  have hsuggestion : Solid "suggestion" := ⟨_, _, rfl, rfl⟩
  have hmetric : Solid "metric" := ⟨_, _, rfl, rfl⟩
  rw [parseLLMResponse, h]
  exact and_congr (returnsCaptures_iff hsuggestion) (returnsCaptures_iff hmetric)

/-- With a colon the item is returned. -/
theorem colon_returned :
    unmarshalLLMResponse "suggestion: restart" = none ∧
      ReturnsCaptures suggestionRegex "suggestion: restart"
        (parseLLMResponse "suggestion: restart").suggestions ∧
      ReturnsCaptures metricRegex "suggestion: restart"
        (parseLLMResponse "suggestion: restart").metrics :=
  have h : unmarshalLLMResponse "suggestion: restart" = none := by decide +kernel
  ⟨h, (fallback_returns_captures_iff _ h).mpr (by decide +kernel)⟩

/-- Without one the marker comes with it. -/
theorem marker_returned : ¬∀ response, unmarshalLLMResponse response = none →
    ReturnsCaptures suggestionRegex response (parseLLMResponse response).suggestions ∧
      ReturnsCaptures metricRegex response (parseLLMResponse response).metrics := by
  intro h
  have hitems := (h "suggestion restart" (by decide +kernel)).1.items
  exact absurd hitems (by decide +kernel)

end Chain
