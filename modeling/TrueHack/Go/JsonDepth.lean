-- SUMMARY: How deep a JSON text nests, and that the scanner's limit is a limit on just that.
import Mathlib.Order.Lattice.Nat
import TrueHack.Go.Json

/-!
# Nesting

The scanner gives up where arrays and objects nest deeper than its limit. A text
denotes a value if some limit is enough for it; `parse` and `firstValue` read the
texts whose values are at most `maxNestingDepth` deep, and no others.
-/

namespace Go.Json

mutual

/-- How deep arrays and objects nest in a value. -/
def depth : Json → ℕ
  | .array elems => depthElems elems + 1
  | .object members => depthMembers members + 1
  | .null | .bool _ | .number _ | .string _ => 0

def depthElems : List Json → ℕ
  | [] => 0
  | v :: vs => max v.depth (depthElems vs)

def depthMembers : List (String × Json) → ℕ
  | [] => 0
  | (_, v) :: members => max v.depth (depthMembers members)

end

theorem depthElems_append (vs ws : List Json) :
    depthElems (vs ++ ws) = max (depthElems vs) (depthElems ws) := by
  induction vs with
  | nil => simp [depthElems]
  | cons v vs ih => simp [depthElems, ih, Nat.max_assoc]

theorem depthElems_reverse (vs : List Json) : depthElems vs.reverse = depthElems vs := by
  induction vs with
  | nil => rfl
  | cons v vs ih => simp [depthElems_append, depthElems, ih, Nat.max_comm]

theorem depthMembers_append (ms ns : List (String × Json)) :
    depthMembers (ms ++ ns) = max (depthMembers ms) (depthMembers ns) := by
  induction ms with
  | nil => simp [depthMembers]
  | cons m ms ih => simp [depthMembers, ih, Nat.max_assoc]

theorem depthMembers_reverse (ms : List (String × Json)) :
    depthMembers ms.reverse = depthMembers ms := by
  induction ms with
  | nil => rfl
  | cons m ms ih => simp [depthMembers_append, depthMembers, ih, Nat.max_comm]

/-! ## The height of the scanner -/

/-- How deep the finished parts of a frame nest. -/
def Frame.depth : Frame → ℕ
  | .array elems => depthElems elems
  | .object members _ => depthMembers members

/-- How deep the text before a stack of frames nests. -/
def heights : List Frame → ℕ
  | [] => 0
  | frame :: stack => max (stack.length + 1 + frame.depth) (heights stack)

theorem length_le_heights (stack : List Frame) : stack.length ≤ heights stack := by
  cases stack with
  | nil => simp
  | cons frame stack =>
      simp only [List.length_cons, heights]
      omega

/-- How deep the text read so far nests. -/
def Scanner.height (s : Scanner) : ℕ :=
  match s.mode with
  | .endTop v => v.depth
  | .inLiteral _ v => max (s.stack.length + v.depth) (heights s.stack)
  | _ => heights s.stack

theorem height_of_top {s : Scanner} {v : Json} (h : s.top = some v) : s.height = v.depth := by
  unfold Scanner.top at h
  unfold Scanner.height
  split at h
  · rename_i hmode
    cases h
    simp [hmode]
  · cases h

theorem complete_height (v : Json) (stack : List Frame) :
    (complete v stack).height = max (stack.length + v.depth) (heights stack) := by
  cases stack with
  | nil => simp [complete, Scanner.height, heights]
  | cons frame stack =>
      cases frame with
      | array elems =>
          simp only [complete, Scanner.height, heights, Frame.depth, depthElems, List.length_cons]
          omega
      | object members name =>
          simp only [complete, Scanner.height, heights, Frame.depth, depthMembers,
            List.length_cons]
          omega

/-- A value without arrays and objects adds no height. -/
theorem complete_height_leaf {v : Json} (hv : v.depth = 0) (stack : List Frame) :
    (complete v stack).height = heights stack := by
  rw [complete_height, hv, Nat.add_zero, Nat.max_eq_right (length_le_heights stack)]

theorem complete_height_array (elems : List Json) (stack : List Frame) :
    (complete (.array elems.reverse) stack).height = heights (.array elems :: stack) := by
  rw [complete_height, depth, depthElems_reverse, heights, Frame.depth]
  omega

theorem complete_height_object (members : List (String × Json)) (name : String)
    (stack : List Frame) :
    (complete (.object members.reverse) stack).height =
      heights (.object members name :: stack) := by
  rw [complete_height, depth, depthMembers_reverse, heights, Frame.depth]
  omega

theorem flush_height (s : Scanner) (c : Char) : (s.flush c).height = s.height := by
  unfold Scanner.flush
  split
  · rename_i state raw hmode
    split
    · rw [complete_height_leaf (by simp [depth])]
      simp [Scanner.height, hmode]
    · rfl
  · rfl

/-! ## One character -/

/-- A step from height `h` to the scanner `t` keeps the height, or pushes a frame below
    the limit. -/
def Climbs (limit h : ℕ) (t : Scanner) : Prop :=
  t.height = h ∨ t.stack.length ≤ limit ∧ t.height = max t.stack.length h

theorem push_climbs {limit : ℕ} {mode : Mode} {frame : Frame} {stack : List Frame} {t : Scanner}
    (hmode : (Scanner.mk mode (frame :: stack)).height = heights (frame :: stack))
    (hframe : frame.depth = 0) (h : push limit mode frame stack = some t) :
    Climbs limit (heights stack) t := by
  unfold push at h
  split at h
  · rename_i hroom
    cases h
    refine .inr ⟨hroom, ?_⟩
    rw [hmode, heights, hframe]
    rfl
  · cases h

theorem inLiteral_height {rest : List Char} {v : Json} {stack : List Frame} (hv : v.depth = 0) :
    (Scanner.mk (.inLiteral rest v) stack).height = heights stack := by
  simp only [Scanner.height, hv]
  exact Nat.max_eq_right (length_le_heights stack)

theorem of_ite {α : Type} {p P : Prop} [Decidable p] {x y : Option α} {r : α}
    (h : (if p then x else y) = some r) (hx : x = some r → P) (hy : y = some r → P) : P := by
  split at h
  · exact hx h
  · exact hy h

theorem beginValue_climbs {limit : ℕ} {c : Char} {stack : List Frame} {t : Scanner}
    (h : beginValue limit c stack = some t) : Climbs limit (heights stack) t := by
  have same {mode : Mode} (hmode : (Scanner.mk mode stack).height = heights stack)
      (h : some (Scanner.mk mode stack) = some t) : Climbs limit (heights stack) t := by
    cases h
    exact .inl hmode
  unfold beginValue at h
  refine of_ite h (same rfl) fun h => ?_
  refine of_ite h (push_climbs rfl rfl) fun h => of_ite h (push_climbs rfl rfl) fun h => ?_
  -- a string or a number begins
  refine of_ite h (same rfl) fun h => of_ite h (same rfl) fun h => of_ite h (same rfl) fun h => ?_
  refine of_ite h (same rfl) fun h => ?_
  -- a literal begins
  refine of_ite h (same (inLiteral_height rfl)) fun h => ?_
  refine of_ite h (same (inLiteral_height rfl)) fun h => ?_
  refine of_ite h (same (inLiteral_height rfl)) fun h => ?_
  cases h

theorem beginString_height {c : Char} {stack : List Frame} {t : Scanner}
    (h : beginString c stack = some t) : t.height = heights stack := by
  unfold beginString at h
  split at h
  · cases h
    rfl
  split at h
  · cases h
    rfl
  · cases h

theorem endValue_height {c : Char} {stack : List Frame} {t : Scanner}
    (h : endValue c stack = some t) : t.height = heights stack := by
  unfold endValue at h
  split at h
  · cases h
    rfl
  split at h
  · split at h
    · cases h
      rfl
    split at h
    · cases h
      exact complete_height_array _ _
    · cases h
  · split at h
    · cases h
      rfl
    split at h
    · cases h
      exact complete_height_object _ _ _
    · cases h
  · cases h

theorem completeString_height {isName : Bool} {raw : List Char} {stack : List Frame} {t : Scanner}
    (h : completeString isName raw stack = some t) : t.height = heights stack := by
  unfold completeString at h
  split at h
  · cases h
    exact complete_height_leaf (by simp [depth]) _
  · cases h
    rfl
  · cases h

theorem stepFlushed_climbs {limit : ℕ} {s t : Scanner} {c : Char}
    (h : s.stepFlushed limit c = some t) : Climbs limit s.height t := by
  unfold Scanner.stepFlushed at h
  cases s with
  | mk mode stack =>
  cases mode with
  | beginValueOrEmpty =>
      simp only at h
      split at h
      · split at h
        · cases h
          exact .inl (complete_height_array _ _)
        · cases h
      split at h
      · cases h
        exact .inl rfl
      · exact beginValue_climbs h
  | beginValue => exact beginValue_climbs h
  | beginStringOrEmpty =>
      simp only at h
      split at h
      · split at h
        · cases h
          exact .inl (complete_height_object _ _ _)
        · cases h
      split at h
      · cases h
        exact .inl rfl
      · exact .inl (beginString_height h)
  | beginString => exact .inl (beginString_height h)
  | endName =>
      simp only at h
      split at h
      · cases h
        exact .inl rfl
      split at h
      · cases h
        exact .inl rfl
      · cases h
  | endValue => exact .inl (endValue_height h)
  | endTop v =>
      simp only at h
      split at h
      · cases h
        exact .inl rfl
      · cases h
  | inString isName state raw =>
      simp only at h
      split at h
      · exact .inl (completeString_height h)
      · obtain ⟨state, _, rfl⟩ := Option.map_eq_some_iff.mp h
        exact .inl rfl
  | inNumber state raw =>
      obtain ⟨state, _, rfl⟩ := Option.map_eq_some_iff.mp h
      exact .inl rfl
  | inLiteral rest v =>
      simp only at h
      split at h
      · cases h
      · split at h
        · cases h
          exact .inl (complete_height _ _)
        · cases h
      · split at h
        · cases h
          exact .inl rfl
        · cases h

theorem step_climbs {limit : ℕ} {s t : Scanner} {c : Char} (h : s.step limit c = some t) :
    Climbs limit s.height t := by
  rw [← flush_height s c]
  exact stepFlushed_climbs h

theorem Climbs.le {limit h : ℕ} {t : Scanner} (hclimbs : Climbs limit h t) : h ≤ t.height := by
  cases hclimbs with
  | inl hsame => exact hsame.ge
  | inr hpush =>
      rw [hpush.2]
      exact Nat.le_max_right _ _

theorem Climbs.height_le {limit h : ℕ} {t : Scanner} (hclimbs : Climbs limit h t)
    (hh : h ≤ limit) : t.height ≤ limit := by
  cases hclimbs with
  | inl hsame => exact hsame.trans_le hh
  | inr hpush =>
      rw [hpush.2]
      exact Nat.max_le.mpr ⟨hpush.1, hh⟩

/-! ## Another limit -/

variable {limit limit' : ℕ} {s t : Scanner} {c : Char} {cs : List Char} {v w : Json}

theorem push_limit {mode : Mode} {frame : Frame} {stack : List Frame}
    (hmode : (Scanner.mk mode (frame :: stack)).height = heights (frame :: stack))
    (h : push limit mode frame stack = some t) (hroom : t.height ≤ limit' ∨ limit ≤ limit') :
    push limit' mode frame stack = some t := by
  unfold push at h ⊢
  split at h
  · rename_i hlt
    cases h
    have hlt' : stack.length < limit' := by
      cases hroom with
      | inl hheight =>
          rw [hmode] at hheight
          exact (length_le_heights (frame :: stack)).trans hheight
      | inr hle => exact hlt.trans_le hle
    rw [if_pos hlt']
  · cases h

theorem ite_imp {α : Type} {p : Prop} [Decidable p] {x x' y y' : Option α} {r : α}
    (h : (if p then x else y) = some r) (hx : x = some r → x' = some r)
    (hy : y = some r → y' = some r) : (if p then x' else y') = some r := by
  split
  · rename_i hp
    exact hx (by rwa [if_pos hp] at h)
  · rename_i hp
    exact hy (by rwa [if_neg hp] at h)

theorem beginValue_limit {stack : List Frame} (h : beginValue limit c stack = some t)
    (hroom : t.height ≤ limit' ∨ limit ≤ limit') : beginValue limit' c stack = some t := by
  unfold beginValue at h ⊢
  refine ite_imp h id fun h => ite_imp h (fun h => push_limit rfl h hroom) fun h => ?_
  exact ite_imp h (fun h => push_limit rfl h hroom) id

theorem stepFlushed_limit (h : s.stepFlushed limit c = some t)
    (hroom : t.height ≤ limit' ∨ limit ≤ limit') : s.stepFlushed limit' c = some t := by
  unfold Scanner.stepFlushed at h ⊢
  cases s with
  | mk mode stack =>
  cases mode with
  | beginValueOrEmpty =>
      exact ite_imp h id fun h => ite_imp h id fun h => beginValue_limit h hroom
  | beginValue => exact beginValue_limit h hroom
  | beginStringOrEmpty => exact h
  | beginString => exact h
  | endName => exact h
  | endValue => exact h
  | endTop => exact h
  | inString => exact h
  | inNumber => exact h
  | inLiteral => exact h

theorem scanAll_height (h : scanAll limit s cs = some v) : s.height ≤ v.depth := by
  induction cs generalizing s with
  | nil =>
      obtain ⟨t, hstep, htop⟩ := Option.bind_eq_some_iff.mp h
      rw [← height_of_top htop]
      exact (step_climbs hstep).le
  | cons c cs ih =>
      obtain ⟨t, hstep, hrest⟩ := Option.bind_eq_some_iff.mp h
      exact (step_climbs hstep).le.trans (ih hrest)

/-- What a text denotes nests no deeper than the limit under which it was read. -/
theorem scanAll_depth (h : scanAll limit s cs = some v) (hs : s.height ≤ limit) :
    v.depth ≤ limit := by
  induction cs generalizing s with
  | nil =>
      obtain ⟨t, hstep, htop⟩ := Option.bind_eq_some_iff.mp h
      rw [← height_of_top htop]
      exact (step_climbs hstep).height_le hs
  | cons c cs ih =>
      obtain ⟨t, hstep, hrest⟩ := Option.bind_eq_some_iff.mp h
      exact ih hrest ((step_climbs hstep).height_le hs)

theorem scanAll_limit (h : scanAll limit s cs = some v) (hroom : v.depth ≤ limit' ∨ limit ≤ limit') :
    scanAll limit' s cs = some v := by
  induction cs generalizing s with
  | nil =>
      obtain ⟨t, hstep, htop⟩ := Option.bind_eq_some_iff.mp h
      rw [← height_of_top htop] at hroom
      exact Option.bind_eq_some_iff.mpr ⟨t, stepFlushed_limit hstep hroom, htop⟩
  | cons c cs ih =>
      obtain ⟨t, hstep, hrest⟩ := Option.bind_eq_some_iff.mp h
      have hroom' : t.height ≤ limit' ∨ limit ≤ limit' := hroom.imp_left (scanAll_height hrest).trans
      exact Option.bind_eq_some_iff.mpr ⟨t, stepFlushed_limit hstep hroom', ih hrest⟩

theorem scanFirst_limit (h : scanFirst limit s cs = some v) (hle : limit ≤ limit') :
    scanFirst limit' s cs = some v := by
  induction cs generalizing s with
  | nil =>
      obtain ⟨t, hstep, htop⟩ := Option.bind_eq_some_iff.mp h
      exact Option.bind_eq_some_iff.mpr ⟨t, stepFlushed_limit hstep (.inr hle), htop⟩
  | cons c cs ih =>
      unfold scanFirst at h ⊢
      split at h
      · exact h
      · obtain ⟨t, hstep, hrest⟩ := Option.bind_eq_some_iff.mp h
        refine Option.bind_eq_some_iff.mpr ⟨t, stepFlushed_limit hstep (.inr hle), ?_⟩
        split at hrest
        · exact hrest
        · exact ih hrest

/-- The first value of a text nests no deeper than the limit either. -/
theorem scanFirst_depth (h : scanFirst limit s cs = some v) (hs : s.height ≤ limit) :
    v.depth ≤ limit := by
  induction cs generalizing s with
  | nil =>
      have hall : scanAll limit s [] = some v := h
      exact scanAll_depth hall hs
  | cons c cs ih =>
      unfold scanFirst at h
      split at h
      · rename_i w htop
        cases h
        rw [← height_of_top htop, flush_height]
        exact hs
      · obtain ⟨t, hstep, hrest⟩ := Option.bind_eq_some_iff.mp h
        have ht := (step_climbs hstep).height_le hs
        split at hrest
        · rename_i w htop
          cases hrest
          rwa [← height_of_top htop]
        · exact ih hrest ht

/-! ## Texts and values -/

/-- The text is JSON for the value, however deep it nests. -/
def Denotes (text : String) (v : Json) : Prop := ∃ limit, parseWithin limit text = some v

theorem denotes_of_parse {text : String} (h : parse text = some v) : Denotes text v :=
  ⟨maxNestingDepth, h⟩

/-- A text denotes at most one value. -/
theorem Denotes.unique {text : String} (hv : Denotes text v) (hw : Denotes text w) : v = w := by
  obtain ⟨limit, hv⟩ := hv
  obtain ⟨limit', hw⟩ := hw
  have hv' : parseWithin (max limit limit') text = some v :=
    scanAll_limit hv (.inr (le_max_left _ _))
  have hw' : parseWithin (max limit limit') text = some w :=
    scanAll_limit hw (.inr (le_max_right _ _))
  exact Option.some.inj (hv'.symm.trans hw')

/-- `json.Unmarshal` reads exactly the texts that nest within the limit. -/
theorem parse_iff {text : String} :
    parse text = some v ↔ Denotes text v ∧ v.depth ≤ maxNestingDepth := by
  constructor
  · intro h
    exact ⟨denotes_of_parse h, scanAll_depth h (Nat.zero_le _)⟩
  · intro ⟨⟨limit, h⟩, hdepth⟩
    exact scanAll_limit h (.inl hdepth)

/-- And so does the decoder, on a text that is JSON as a whole. -/
theorem firstValue_iff {text : String} (h : Denotes text v) :
    firstValue text = some w ↔ w = v ∧ v.depth ≤ maxNestingDepth := by
  constructor
  · intro hfirst
    obtain ⟨limit, hv⟩ := h
    have hfirst' : scanFirst (max maxNestingDepth limit) .init text.toList = some w :=
      scanFirst_limit hfirst (le_max_left _ _)
    have hv' : scanFirst (max maxNestingDepth limit) .init text.toList = some v :=
      scanFirst_of_scanAll (scanAll_limit hv (.inr (le_max_right _ _)))
    obtain rfl := Option.some.inj (hfirst'.symm.trans hv')
    exact ⟨rfl, scanFirst_depth hfirst (Nat.zero_le _)⟩
  · intro ⟨hw, hdepth⟩
    rw [hw]
    exact firstValue_of_parse (parse_iff.mpr ⟨h, hdepth⟩)

end Go.Json
