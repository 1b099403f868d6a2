-- SUMMARY: Matching of simple regular expressions, greedy and leftmost first, with all non-overlapping matches.
import Mathlib.Data.List.Forall2

/-!
# Simple regular expressions

A pattern is a sequence of items, each a class of characters taken once, at most
once, any number of times, or at least once. Matching prefers as it does in a
backtracking engine: an item takes as much as it can, and gives back only if the
rest of the pattern fails otherwise.
-/

namespace Regex

/-- One item of a pattern. -/
inductive Item where
  | one (p : Char → Bool)
  | opt (p : Char → Bool)
  | star (p : Char → Bool)
  | plus (p : Char → Bool)

/-- The literal `s`. -/
def literal (s : String) : List Item := s.toList.map fun c => .one (· = c)

/-- A match at the beginning of a text: what each item took, and the rest. -/
structure Match where
  pieces : List (List Char)
  rest : List Char
deriving DecidableEq, Repr

/-- The matched text. -/
def Match.text (m : Match) : List Char := m.pieces.flatten

/-- Put an item's piece in front. -/
def Match.add (m : Match) (piece : List Char) : Match := ⟨piece :: m.pieces, m.rest⟩

/-- Put a character in front of the first item's piece. -/
def Match.extend (m : Match) (c : Char) : Match :=
  match m.pieces with
  | [] => ⟨[[c]], m.rest⟩
  | piece :: pieces => ⟨(c :: piece) :: pieces, m.rest⟩

/-- As many characters of the class as leave `k` a match. -/
def greedy (p : Char → Bool) (k : List Char → Option Match) : List Char → Option Match
  | [] => (k []).map (·.add [])
  | c :: cs =>
      if p c then
        match greedy p k cs with
        | some m => some (m.extend c)
        | none => (k (c :: cs)).map (·.add [])
      else (k (c :: cs)).map (·.add [])

/-- The preferred match at the beginning of a text. -/
def matchHead : List Item → List Char → Option Match
  | [], cs => some ⟨[], cs⟩
  | .one p :: items, c :: cs => if p c then (matchHead items cs).map (·.add [c]) else none
  | .one _ :: _, [] => none
  | .opt p :: items, c :: cs =>
      if p c then
        match matchHead items cs with
        | some m => some (m.add [c])
        | none => (matchHead items (c :: cs)).map (·.add [])
      else (matchHead items (c :: cs)).map (·.add [])
  | .opt _ :: items, [] => (matchHead items []).map (·.add [])
  | .star p :: items, cs => greedy p (matchHead items) cs
  | .plus p :: items, c :: cs =>
      if p c then (greedy p (matchHead items) cs).map (·.extend c) else none
  | .plus _ :: _, [] => none

/-- The matches from the left, none overlapping another; `skip` characters are still
    inside the last one. -/
def findAllFrom (items : List Item) : ℕ → List Char → List Match
  | _, [] => []
  | skip + 1, _ :: cs => findAllFrom items skip cs
  | 0, c :: cs =>
      match matchHead items (c :: cs) with
      | some m => m :: findAllFrom items (m.text.length - 1) cs
      | none => findAllFrom items 0 cs

/-- All matches of a pattern that matches no empty text. -/
def findAll (items : List Item) (text : String) : List Match := findAllFrom items 0 text.toList

/-- The leftmost match. -/
def find (items : List Item) (text : String) : Option Match := (findAll items text).head?

/-! ## What a match takes -/

/-- A piece that an item may take. -/
def Item.Takes : Item → List Char → Prop
  | .one p, piece => ∃ c, piece = [c] ∧ p c = true
  | .opt p, piece => piece = [] ∨ ∃ c, piece = [c] ∧ p c = true
  | .star p, piece => ∀ c ∈ piece, p c = true
  | .plus p, piece => piece ≠ [] ∧ ∀ c ∈ piece, p c = true

/-- A match of the pattern at the beginning of the text, preferred or not. -/
structure Match.Of (m : Match) (items : List Item) (cs : List Char) : Prop where
  takes : List.Forall₂ Item.Takes items m.pieces
  text_rest : m.text ++ m.rest = cs

variable {items : List Item} {item : Item} {p : Char → Bool} {c : Char} {cs l r : List Char}
  {m : Match} {k : List Char → Option Match}

theorem Match.Of.add (h : m.Of items cs) (piece : List Char) (hpiece : item.Takes piece) :
    (m.add piece).Of (item :: items) (piece ++ cs) where
  takes := .cons hpiece h.takes
  text_rest := by simp [Match.text, Match.add, ← h.text_rest]

/-- One character more for the first item. -/
theorem Match.Of.extend {item' : Item} (h : m.Of (item :: items) cs)
    (hpiece : ∀ piece, item.Takes piece → item'.Takes (c :: piece)) :
    (m.extend c).Of (item' :: items) (c :: cs) := by
  obtain ⟨pieces, rest⟩ := m
  obtain ⟨htakes, rfl⟩ := h
  cases htakes with
  | cons hfirst hrest =>
      exact ⟨.cons (hpiece _ hfirst) hrest, by simp [Match.text, Match.extend]⟩

theorem greedy_of (hk : ∀ cs m, k cs = some m → m.Of items cs) (h : greedy p k cs = some m) :
    m.Of (.star p :: items) cs := by
  have hnone {cs : List Char} {m : Match} (h : (k cs).map (·.add []) = some m) :
      m.Of (.star p :: items) cs := by
    obtain ⟨m', hm', rfl⟩ := Option.map_eq_some_iff.mp h
    exact (hk cs m' hm').add [] nofun
  induction cs generalizing m with
  | nil => exact hnone h
  | cons c cs ih =>
      unfold greedy at h
      split at h
      · rename_i hc
        split at h
        · rename_i m' hm'
          cases h
          exact (ih hm').extend fun piece hpiece => List.forall_mem_cons.mpr ⟨hc, hpiece⟩
        · exact hnone h
      · exact hnone h

/-- Whatever is found is a match. -/
theorem matchHead_of (h : matchHead items cs = some m) : m.Of items cs := by
  induction items generalizing cs m with
  | nil =>
      cases h
      exact ⟨.nil, rfl⟩
  | cons item items ih =>
      have hnone {item : Item} {cs : List Char} (hempty : item.Takes [])
          (h : (matchHead items cs).map (·.add []) = some m) : m.Of (item :: items) cs := by
        obtain ⟨m', hm', rfl⟩ := Option.map_eq_some_iff.mp h
        exact (ih hm').add [] hempty
      cases item with
      | one p =>
          cases cs with
          | nil => cases h
          | cons c cs =>
              obtain ⟨hc, h⟩ := Option.ite_none_right_eq_some.mp h
              obtain ⟨m', hm', rfl⟩ := Option.map_eq_some_iff.mp h
              exact (ih hm').add [c] ⟨c, rfl, hc⟩
      | opt p =>
          cases cs with
          | nil => exact hnone (.inl rfl) h
          | cons c cs =>
              unfold matchHead at h
              split at h
              · rename_i hc
                split at h
                · rename_i m' hm'
                  cases h
                  exact (ih hm').add [c] (.inr ⟨c, rfl, hc⟩)
                · exact hnone (.inl rfl) h
              · exact hnone (.inl rfl) h
      | star p => exact greedy_of (fun _ _ => ih) h
      | plus p =>
          cases cs with
          | nil => cases h
          | cons c cs =>
              obtain ⟨hc, h⟩ := Option.ite_none_right_eq_some.mp h
              obtain ⟨m', hm', rfl⟩ := Option.map_eq_some_iff.mp h
              exact (greedy_of (fun _ _ => ih) hm').extend fun piece hpiece =>
                ⟨List.cons_ne_nil _ _, List.forall_mem_cons.mpr ⟨hc, hpiece⟩⟩

/-- Every match among all matches was found somewhere in the text. -/
theorem exists_of_mem_findAllFrom {skip : ℕ} (h : m ∈ findAllFrom items skip cs) :
    ∃ l, l <:+ cs ∧ matchHead items l = some m := by
  induction cs generalizing skip with
  | nil => simp [findAllFrom] at h
  | cons c cs ih =>
      have hrest {skip : ℕ} (h : m ∈ findAllFrom items skip cs) :
          ∃ l, l <:+ c :: cs ∧ matchHead items l = some m := by
        obtain ⟨l, hl, hm⟩ := ih h
        exact ⟨l, hl.trans (List.suffix_cons c cs), hm⟩
      cases skip with
      | succ skip => exact hrest h
      | zero =>
          unfold findAllFrom at h
          split at h
          · rename_i m' hm'
            rcases List.mem_cons.mp h with heq | hmem
            · subst heq
              exact ⟨c :: cs, List.suffix_rfl, hm'⟩
            · exact hrest hmem
          · exact hrest h

/-! ## Patterns that begin with a literal -/

theorem takes_literal {s : String} {pieces : List (List Char)} :
    List.Forall₂ Item.Takes (literal s ++ items) pieces ↔
      ∃ ps, pieces = s.toList.map ([·]) ++ ps ∧ List.Forall₂ Item.Takes items ps := by
  unfold literal
  induction s.toList generalizing pieces with
  | nil => simp
  | cons c w ih =>
      simp only [List.map_cons, List.cons_append, List.forall₂_cons_left_iff, ih]
      constructor
      · intro ⟨piece, _, ⟨d, hpiece, hd⟩, ⟨ps, rfl, hps⟩, hpieces⟩
        obtain rfl := of_decide_eq_true hd
        subst hpiece
        exact ⟨ps, hpieces, hps⟩
      · intro ⟨ps, hpieces, hps⟩
        exact ⟨[c], _, ⟨c, rfl, decide_eq_true rfl⟩, ⟨ps, rfl, hps⟩, hpieces⟩

/-- Where such a pattern matches, the text begins with the literal. -/
theorem prefix_of_matchHead {s : String} (h : matchHead (literal s ++ items) cs = some m) :
    s.toList <+: cs := by
  obtain ⟨htakes, htext⟩ := matchHead_of h
  obtain ⟨ps, hpieces, _⟩ := takes_literal.mp htakes
  refine ⟨ps.flatten ++ m.rest, ?_⟩
  rw [← htext, Match.text, hpieces]
  simp [← List.flatMap_def]

theorem matchHead_literal {s : String} : matchHead (literal s ++ items) (s.toList ++ cs) =
    (matchHead items cs).map fun m => ⟨s.toList.map ([·]) ++ m.pieces, m.rest⟩ := by
  unfold literal
  induction s.toList with
  | nil => simp
  | cons c w ih => simp [matchHead, ih, Match.add, Function.comp_def]

/-! ## Where nothing matches -/

/-- A stretch of text in which no match begins is passed over. -/
theorem findAllFrom_pass (h : ∀ b, b ≠ [] → b <:+ l → matchHead items (b ++ r) = none) :
    findAllFrom items 0 (l ++ r) = findAllFrom items 0 r := by
  induction l with
  | nil => rfl
  | cons c l ih =>
      have hhead : matchHead items (c :: (l ++ r)) = none :=
        h (c :: l) (List.cons_ne_nil c l) List.suffix_rfl
      have hrest := ih fun b hne hb => h b hne (hb.trans (List.suffix_cons c l))
      simp only [List.cons_append, findAllFrom, hhead, hrest]

theorem findAllFrom_skip : findAllFrom items l.length (l ++ r) = findAllFrom items 0 r := by
  induction l with
  | nil => rfl
  | cons c l ih => simpa [findAllFrom] using ih

/-- After a match the search goes on with the rest. -/
theorem findAllFrom_of_match (hne : l ≠ []) (h : matchHead items (l ++ r) = some m)
    (htext : m.text = l) : findAllFrom items 0 (l ++ r) = m :: findAllFrom items 0 r := by
  cases l with
  | nil => exact absurd rfl hne
  | cons c l =>
      rw [List.cons_append] at h ⊢
      simp only [findAllFrom, h, htext, List.length_cons, Nat.add_sub_cancel, findAllFrom_skip]

/-! ## Texts with separators -/

variable {w : List Char} {sep : Char} {s : String}

/-- A word without the separator that begins a text lies before the first one. -/
theorem prefix_of_prefix_sep (hsep : sep ∉ w) (h : w <+: l ++ sep :: r) : w <+: l := by
  induction l generalizing w with
  | nil =>
      cases w with
      | nil => exact List.nil_prefix
      | cons c w =>
          obtain ⟨rfl, _⟩ := List.cons_prefix_cons.mp h
          exact absurd List.mem_cons_self hsep
  | cons d l ih =>
      cases w with
      | nil => exact List.nil_prefix
      | cons c w =>
          obtain ⟨rfl, hrest⟩ := List.cons_prefix_cons.mp h
          exact List.cons_prefix_cons.mpr ⟨rfl, ih (List.not_mem_of_not_mem_cons hsep) hrest⟩

/-- A word without the separator lies on one side of it. -/
theorem infix_of_infix_sep (hsep : sep ∉ w) (h : w <:+: l ++ sep :: r) : w <:+: l ∨ w <:+: r := by
  induction l with
  | nil =>
      rcases List.infix_cons_iff.mp h with hbegin | hrest
      · exact .inl (prefix_of_prefix_sep (l := []) hsep hbegin).isInfix
      · exact .inr hrest
  | cons d l ih =>
      rcases List.infix_cons_iff.mp h with hbegin | hrest
      · exact .inl (prefix_of_prefix_sep (l := d :: l) hsep hbegin).isInfix
      · exact (ih hrest).imp_left List.infix_cons

/-- Nothing is found in a text without the literal. -/
theorem findAllFrom_eq_nil (h : ¬s.toList <:+: l) : findAllFrom (literal s ++ items) 0 l = [] := by
  have hpass : findAllFrom (literal s ++ items) 0 (l ++ []) =
      findAllFrom (literal s ++ items) 0 [] := by
    apply findAllFrom_pass
    intro b _ hb
    apply Option.eq_none_iff_forall_ne_some.mpr
    intro m hm
    apply h
    rw [List.append_nil] at hm
    exact (prefix_of_matchHead hm).isInfix.trans hb.isInfix
  simpa [findAllFrom] using hpass

/-- Nor up to the separator. -/
theorem findAllFrom_past (hsep : sep ∉ s.toList) (h : ¬s.toList <:+: l) :
    findAllFrom (literal s ++ items) 0 (l ++ sep :: r) = findAllFrom (literal s ++ items) 0 r := by
  rw [List.append_cons]
  apply findAllFrom_pass
  intro b hne hb
  apply Option.eq_none_iff_forall_ne_some.mpr
  intro m hm
  apply h
  rcases List.suffix_concat_iff.mp hb with hnil | ⟨t, rfl, ht⟩
  · exact absurd hnil hne
  · have hbegin := prefix_of_matchHead hm
    rw [List.append_assoc] at hbegin
    exact (prefix_of_prefix_sep hsep hbegin).isInfix.trans ht.isInfix

/-- A class takes the whole run of its characters, if the pattern goes on from there. -/
theorem greedy_run (hl : ∀ c ∈ l, p c = true) (hr : ∀ c ∈ r.head?, p c = false)
    (hk : k r = some m) : greedy p k (l ++ r) = some (m.add l) := by
  induction l with
  | nil =>
      cases r with
      | nil => simp [greedy, hk]
      | cons c r =>
          have hc : p c = false := hr c rfl
          simp [greedy, hc, hk]
  | cons c l ih =>
      obtain ⟨hc, hl⟩ := List.forall_mem_cons.mp hl
      simp [greedy, hc, ih hl, Match.extend, Match.add]

theorem matchHead_star (hl : ∀ c ∈ l, p c = true) (hr : ∀ c ∈ r.head?, p c = false)
    (hm : matchHead items r = some m) : matchHead (.star p :: items) (l ++ r) = some (m.add l) :=
  greedy_run hl hr hm

theorem matchHead_plus (hl : ∀ d ∈ c :: l, p d = true) (hr : ∀ d ∈ r.head?, p d = false)
    (hm : matchHead items r = some m) :
    matchHead (.plus p :: items) (c :: l ++ r) = some (m.add (c :: l)) := by
  obtain ⟨hc, hl⟩ := List.forall_mem_cons.mp hl
  rw [List.cons_append, matchHead, if_pos hc, greedy_run hl hr hm]
  rfl

theorem matchHead_opt (hc : p c = true) (hm : matchHead items cs = some m) :
    matchHead (.opt p :: items) (c :: cs) = some (m.add [c]) := by
  rw [matchHead, if_pos hc, hm]

end Regex
