-- SUMMARY: Replies written line by line: what the parser reads from them is what was written.
import Mathlib.Data.List.Infix
import TrueHack.Chain.Fallback
import TrueHack.Go.JsonPieces

/-!
# The line format

A reply in which every suggestion and every metric has a line of its own, with its
marker and a colon. Other lines may stand between them, as long as they do not
mention the markers.
-/

namespace Chain

open Go

/-! ## Lines -/

/-- The text mentions the word. -/
def Mentions (text word : String) : Prop := word.toList <:+: text.toList

instance (text word : String) : Decidable (Mentions text word) :=
  inferInstanceAs (Decidable (_ <:+: _))

/-- A line, or a part of one, that mentions neither marker. -/
structure Unmarked (text : String) : Prop where
  newline : '\n' ∉ text.toList
  suggestion : ¬Mentions text "suggestion"
  metric : ¬Mentions text "metric"

/-- The text of a suggestion or a metric: it is not empty and has no space around it. -/
structure Writable (text : String) : Prop extends Unmarked text where
  nonempty : text ≠ ""
  first : ∀ c ∈ text.toList.head?, isSpace c = false
  last : ∀ c ∈ text.toList.getLast?, isSpace c = false

/-- A line of a reply. -/
inductive Line where
  | suggestion (s : String)
  | metric (m : String)
  | other (text : String)

namespace Line

def text : Line → String
  | .suggestion s => "suggestion: " ++ s
  | .metric m => "metric: " ++ m
  | .other text => text

def suggestion? : Line → Option String
  | .suggestion s => some s
  | _ => none

def metric? : Line → Option String
  | .metric m => some m
  | _ => none

/-- The line can be told from the others. -/
def WellFormed : Line → Prop
  | .suggestion s => Writable s
  | .metric m => Writable m
  | .other text => Unmarked text

def Marked : Line → Prop
  | .other _ => False
  | _ => True

end Line

/-- The lines as one text. -/
def joinLines (lines : List Line) : String := "\n".intercalate (lines.map Line.text)

/-! ## Searching for one marker -/

variable {marker : String} {l r : List Char} {o : Option String} {line : Line}

/-- What a search for the marker reads from a line. -/
inductive Reads (marker : String) : List Char → Option String → Prop where
  | nothing {l : List Char} (h : ¬marker.toList <:+: l) : Reads marker l none
  | item {s : String} (h : Writable s) :
      Reads marker (marker.toList ++ ':' :: ' ' :: s.toList) (some s)

theorem trimSpace_writable {s : String} (h : Writable s) : trimSpace s.toList = s.toList := by
  have hfront : s.toList.dropWhile isSpace = s.toList := by
    cases hs : s.toList with
    | nil => rfl
    | cons c l =>
        have hc : isSpace c = false := h.first c (by rw [hs]; rfl)
        exact List.dropWhile_cons_of_neg (by simp [hc])
  have hback : s.toList.rdropWhile isSpace = s.toList := by
    apply List.rdropWhile_eq_self_iff.mpr
    intro hne
    simp [h.last _ (List.getLast_mem_getLast? hne)]
  rw [trimSpace, hfront, hback]

/-- A marked line is matched whole. -/
theorem matchHead_item (marker : String) {s : String} (h : Writable s)
    (hr : ∀ c ∈ r.head?, c = '\n') :
    Regex.matchHead (markerRegex marker notNewline)
        (marker.toList ++ ':' :: ' ' :: s.toList ++ r) =
      some ⟨marker.toList.map ([·]) ++ [[':'], [' '], s.toList], r⟩ := by
  have hline : ∀ c ∈ s.toList, notNewline c = true := by
    intro c hc
    exact decide_eq_true fun heq => h.newline (heq ▸ hc)
  have hend : ∀ c ∈ r.head?, notNewline c = false := by
    intro c hc
    rw [hr c hc]
    rfl
  cases hs : s.toList with
  | nil => exact absurd (String.toList_eq_nil_iff.mp hs) h.nonempty
  | cons c l =>
      have hspace : isPatternSpace c = false := by
        cases hpattern : isPatternSpace c with
        | false => rfl
        | true =>
            have hfirst : isSpace c = false := h.first c (by rw [hs]; rfl)
            exact (isSpace_of_isPatternSpace hpattern).symm.trans hfirst
      rw [hs] at hline
      have hcaptured : Regex.matchHead [.plus notNewline] (c :: l ++ r) = some ⟨[c :: l], r⟩ :=
        Regex.matchHead_plus hline hend (m := ⟨[], r⟩) rfl
      have hspaced : Regex.matchHead [.star isPatternSpace, .plus notNewline]
          ([' '] ++ (c :: l ++ r)) = some ⟨[[' '], c :: l], r⟩ :=
        Regex.matchHead_star (by simp [isPatternSpace]) (by simp [hspace]) hcaptured
      have hcolon := Regex.matchHead_opt (p := (· = ':')) (decide_eq_true rfl) hspaced
      rw [markerRegex, List.append_assoc, Regex.matchHead_literal]
      exact congrArg _ hcolon

/-- What is read from a text, from this place on. -/
def itemsFrom (marker : String) (text : List Char) : List String :=
  (Regex.findAllFrom (markerRegex marker notNewline) 0 text).map fun m =>
    String.ofList (strippedItem marker m)

theorem itemsFrom_item {s : String} (h : Writable s) (hr : ∀ c ∈ r.head?, c = '\n') :
    itemsFrom marker (marker.toList ++ ':' :: ' ' :: s.toList ++ r) = s :: itemsFrom marker r := by
  have hmatch := matchHead_item marker h hr
  unfold itemsFrom
  rw [Regex.findAllFrom_of_match (by simp) hmatch (by simp [Regex.Match.text, ← List.flatMap_def]),
    List.map_cons]
  have htext : Regex.Match.text ⟨marker.toList.map ([·]) ++ [[':'], [' '], s.toList], r⟩ =
      (marker ++ ":").toList ++ ([' '] ++ s.toList) := by
    simp [Regex.Match.text, ← List.flatMap_def]
  rw [strippedItem, htext, trimPrefix_append, trimSpace_append (by simp [isSpace]),
    trimSpace_writable h, String.ofList_toList]

theorem itemsFrom_past (hfeed : '\n' ∉ marker.toList) (h : ¬marker.toList <:+: l) :
    itemsFrom marker (l ++ '\n' :: r) = itemsFrom marker r :=
  congrArg (List.map _) (Regex.findAllFrom_past hfeed h)

theorem itemsFrom_last (h : Reads marker l o) : itemsFrom marker l = o.toList := by
  cases h with
  | nothing h => exact congrArg (List.map _) (Regex.findAllFrom_eq_nil h)
  | @item s h =>
      rw [← List.append_nil (_ ++ _), itemsFrom_item h (by simp)]
      rfl

theorem itemsFrom_line (hne : marker ≠ "") (hfeed : '\n' ∉ marker.toList) (h : Reads marker l o) :
    itemsFrom marker (l ++ '\n' :: r) = o.toList ++ itemsFrom marker r := by
  cases h with
  | nothing h => exact itemsFrom_past hfeed h
  | item h =>
      rw [itemsFrom_item h (by simp)]
      exact congrArg _ (itemsFrom_past (l := []) hfeed (by simpa using hne))

/-- Line by line. -/
theorem itemsFrom_lines (hne : marker ≠ "") (hfeed : '\n' ∉ marker.toList)
    {ls : List (List Char)} {os : List (Option String)} (h : List.Forall₂ (Reads marker) ls os) :
    itemsFrom marker (['\n'].intercalate ls) = os.reduceOption := by
  induction h with
  | nil => rfl
  | @cons l o ls os hfirst hrest ih =>
      cases hrest with
      | nil =>
          rw [List.intercalate_singleton, itemsFrom_last hfirst]
          cases o <;> rfl
      | cons =>
          rw [List.intercalate_cons_cons, List.append_assoc, List.singleton_append,
            itemsFrom_line hne hfeed hfirst, ih]
          cases o <;> rfl

/-! ## Both searches -/

/-- A marked text mentions a word only in the marker or in the text. -/
theorem not_mentions_marked (beginning : String) {word s : String} (hspace : ' ' ∉ word.toList)
    (hbeginning : ¬word.toList <:+: beginning.toList) (hs : ¬Mentions s word) :
    ¬word.toList <:+: beginning.toList ++ ' ' :: s.toList := by
  intro h
  rcases Regex.infix_of_infix_sep hspace h with hleft | hright
  · exact hbeginning hleft
  · exact hs hright

theorem reads_suggestion (h : line.WellFormed) :
    Reads "suggestion" line.text.toList line.suggestion? := by
  cases line with
  | suggestion s =>
      rw [Line.text, String.toList_append]
      exact .item h
  | metric m =>
      rw [Line.text, String.toList_append]
      exact .nothing (not_mentions_marked "metric:" (by decide) (by decide) h.suggestion)
  | other text => exact .nothing h.suggestion

theorem reads_metric (h : line.WellFormed) : Reads "metric" line.text.toList line.metric? := by
  cases line with
  | suggestion s =>
      rw [Line.text, String.toList_append]
      exact .nothing (not_mentions_marked "suggestion:" (by decide) (by decide) h.metric)
  | metric m =>
      rw [Line.text, String.toList_append]
      exact .item h
  | other text => exact .nothing h.metric

theorem toList_joinLines (lines : List Line) :
    (joinLines lines).toList = ['\n'].intercalate (lines.map fun line => line.text.toList) := by
  rw [joinLines, String.toList_intercalate, List.map_map]
  rfl

/-- The search for a marker reads the lines that are marked with it. -/
theorem findMarked_joinLines {read : Line → Option String} {lines : List Line} (hne : marker ≠ "")
    (hfeed : '\n' ∉ marker.toList)
    (hread : ∀ line ∈ lines, Reads marker line.text.toList (read line)) :
    (findMarked (markerRegex marker notNewline) marker (joinLines lines)).getD [] =
      lines.filterMap read := by
  have hlines : List.Forall₂ (Reads marker) (lines.map fun line => line.text.toList)
      (lines.map read) := by
    rw [List.forall₂_map_left_iff, List.forall₂_map_right_iff, List.forall₂_same]
    exact hread
  have hitems := itemsFrom_lines hne hfeed hlines
  rw [← toList_joinLines] at hitems
  calc (findMarked (markerRegex marker notNewline) marker (joinLines lines)).getD []
      = itemsFrom marker (joinLines lines).toList := findMarked_getD _
    _ = (lines.map read).reduceOption := hitems
    _ = lines.filterMap read := by
        have hfilter : (lines.map read).reduceOption = (lines.map read).filterMap id := rfl
        rw [hfilter, List.filterMap_map]
        rfl

/-- The lines are no JSON. -/
theorem unmarshal_joinLines {lines : List Line} (hmarked : ∃ line ∈ lines, line.Marked) :
    unmarshalLLMResponse (joinLines lines) = none := by
  have hnone : Json.parse (joinLines lines) = none := by
    rw [Json.parse, Json.parseWithin, toList_joinLines]
    apply Json.scanAll_lines (s := .init) trivial
    obtain ⟨line, hline, hm⟩ := hmarked
    refine ⟨_, List.mem_map.mpr ⟨line, hline, rfl⟩, ?_⟩
    cases line with
    | suggestion s => exact ⟨'s', by rw [Line.text, String.toList_append]; rfl, .inl rfl⟩
    | metric m => exact ⟨'m', by rw [Line.text, String.toList_append]; rfl, .inr rfl⟩
    | other text => cases hm
  rw [unmarshalLLMResponse, hnone]
  rfl

/-- What is written line by line is read back. -/
theorem lines_round_trip (lines : List Line) (hwell : ∀ line ∈ lines, line.WellFormed)
    (hmarked : ∃ line ∈ lines, line.Marked) :
    (parseLLMResponse (joinLines lines)).analysis = joinLines lines ∧
      (parseLLMResponse (joinLines lines)).suggestions.getD [] = lines.filterMap Line.suggestion? ∧
      (parseLLMResponse (joinLines lines)).metrics.getD [] = lines.filterMap Line.metric? := by
  rw [parseLLMResponse, unmarshal_joinLines hmarked]
  refine ⟨rfl, ?_, ?_⟩
  · exact findMarked_joinLines (by decide) (by decide) fun line hline =>
      reads_suggestion (hwell line hline)
  · exact findMarked_joinLines (by decide) (by decide) fun line hline =>
      reads_metric (hwell line hline)

/-- Two items and an empty line. -/
def threeLines : List Line := [.suggestion "restart it", .other "", .metric "up"]

theorem lines_round_trip_three :
    (parseLLMResponse (joinLines threeLines)).suggestions.getD [] = ["restart it"] ∧
      (parseLLMResponse (joinLines threeLines)).metrics.getD [] = ["up"] := by
  refine (lines_round_trip threeLines ?_ ?_).2
  · intro line hline
    have hrestart : Unmarked "restart it" := ⟨by decide, by decide +kernel, by decide +kernel⟩
    have hempty : Unmarked "" := ⟨by decide, by decide +kernel, by decide +kernel⟩
    have hup : Unmarked "up" := ⟨by decide, by decide +kernel, by decide +kernel⟩
    simp only [threeLines, List.mem_cons, List.not_mem_nil, or_false] at hline
    rcases hline with rfl | rfl | rfl
    · exact ⟨hrestart, by decide, fun c hc => by cases hc; rfl, fun c hc => by cases hc; rfl⟩
    · exact hempty
    · exact ⟨hup, by decide, fun c hc => by cases hc; rfl, fun c hc => by cases hc; rfl⟩
  · exact ⟨_, List.mem_cons_self, trivial⟩

end Chain
