-- SUMMARY: Scanning a JSON text in pieces: what the scanner cannot be inside of after a line feed.
import TrueHack.Go.JsonDepth

/-!
# Scanning in pieces

A text is scanned piece by piece. A line feed is white space or an error for the
scanner, so whatever comes after it begins something new.
-/

namespace Go

namespace Json

variable {limit : ℕ} {s t : Scanner} {c : Char} {cs ds : List Char} {v : Json}

/-- The scanner after a piece of the text. -/
def Scanner.run (limit : ℕ) (s : Scanner) (cs : List Char) : Option Scanner :=
  cs.foldlM (Scanner.step limit) s

theorem run_cons : s.run limit (c :: cs) = (s.step limit c).bind fun t => t.run limit cs := by
  simp [Scanner.run]

theorem run_append : s.run limit (cs ++ ds) = (s.run limit cs).bind fun t => t.run limit ds := by
  simp [Scanner.run]

theorem scanAll_append :
    scanAll limit s (cs ++ ds) = (s.run limit cs).bind fun t => scanAll limit t ds := by
  induction cs generalizing s with
  | nil => rfl
  | cons c cs ih => simp [scanAll, run_cons, Option.bind_assoc, ih]

/-! ## Lines -/

/-- The scanner is not inside of a string, a number or a literal. -/
def Mode.Between : Mode → Prop
  | .inString .. | .inNumber .. | .inLiteral .. => False
  | _ => True

/-- No line feed is to come in a literal. -/
def Mode.LineFree : Mode → Prop
  | .inLiteral rest _ => '\n' ∉ rest
  | _ => True

theorem Mode.Between.lineFree {mode : Mode} (h : mode.Between) : mode.LineFree := by
  cases mode with
  | inLiteral => cases h
  | _ => trivial

theorem complete_between (v : Json) (stack : List Frame) : (complete v stack).mode.Between := by
  cases stack with
  | nil => trivial
  | cons frame stack => cases frame <;> trivial

theorem completeString_between {isName : Bool} {raw : List Char} {stack : List Frame}
    (h : completeString isName raw stack = some t) : t.mode.Between := by
  unfold completeString at h
  split at h
  · cases h
    exact complete_between _ _
  · cases h
    trivial
  · cases h

theorem flush_lineFree (hs : s.mode.LineFree) : (s.flush c).mode.LineFree := by
  unfold Scanner.flush
  split
  · split
    · exact (complete_between _ _).lineFree
    · exact hs
  · exact hs

theorem beginValue_lineFree {stack : List Frame} (h : beginValue limit c stack = some t) :
    t.mode.LineFree := by
  have starts {mode : Mode} {stack : List Frame} (hmode : mode.LineFree)
      (h : some (Scanner.mk mode stack) = some t) : t.mode.LineFree := by
    cases h
    exact hmode
  have pushes {mode : Mode} {frame : Frame} (hmode : mode.LineFree)
      (h : push limit mode frame stack = some t) : t.mode.LineFree :=
    of_ite h (starts hmode) nofun
  unfold beginValue at h
  refine of_ite h (starts trivial) fun h => ?_
  refine of_ite h (pushes trivial) fun h => of_ite h (pushes trivial) fun h => ?_
  -- a string or a number begins
  refine of_ite h (starts trivial) fun h => of_ite h (starts trivial) fun h => ?_
  refine of_ite h (starts trivial) fun h => of_ite h (starts trivial) fun h => ?_
  -- a literal begins
  refine of_ite h (starts (show '\n' ∉ ['r', 'u', 'e'] by decide)) fun h => ?_
  refine of_ite h (starts (show '\n' ∉ ['a', 'l', 's', 'e'] by decide)) fun h => ?_
  exact of_ite h (starts (show '\n' ∉ ['u', 'l', 'l'] by decide)) nofun

theorem stepFlushed_lineFree (hs : s.mode.LineFree) (h : s.stepFlushed limit c = some t) :
    t.mode.LineFree := by
  obtain ⟨mode, stack⟩ := s
  cases mode with
  | beginValue => exact beginValue_lineFree h
  | beginValueOrEmpty =>
      refine of_ite h (fun h => ?_) fun h => of_ite h (fun h => ?_) beginValue_lineFree
      · split at h
        · cases h
          exact (complete_between _ _).lineFree
        · cases h
      · cases h
        trivial
  | inLiteral rest v =>
      match rest with
      | [] => cases h
      | [d] =>
          obtain ⟨_, h⟩ := Option.ite_none_right_eq_some.mp h
          cases h
          exact (complete_between _ _).lineFree
      | d :: e :: rest =>
          obtain ⟨_, h⟩ := Option.ite_none_right_eq_some.mp h
          cases h
          exact List.not_mem_of_not_mem_cons hs
  | inString isName state raw =>
      refine of_ite h (fun h => (completeString_between h).lineFree) fun h => ?_
      obtain ⟨state, _, rfl⟩ := Option.map_eq_some_iff.mp h
      trivial
  | inNumber state raw =>
      obtain ⟨state, _, rfl⟩ := Option.map_eq_some_iff.mp h
      trivial
  | _ =>
      -- punctuation, or the beginning of a string
      simp only [Scanner.stepFlushed, beginString, endValue] at h
      repeat' split at h
      all_goals cases h
      all_goals first | trivial | exact (complete_between _ _).lineFree

/-- No string, number or literal goes on with a line feed. -/
theorem stepFlushed_between (hs : s.mode.LineFree) (h : s.stepFlushed limit '\n' = some t) :
    t.mode.Between := by
  obtain ⟨mode, stack⟩ := s
  cases mode with
  | inString isName state raw => cases state <;> cases h
  | inNumber state raw => cases state <;> cases h
  | inLiteral rest v =>
      match rest with
      | [] => cases h
      | [d] =>
          obtain ⟨rfl, _⟩ := Option.ite_none_right_eq_some.mp h
          exact absurd List.mem_cons_self hs
      | d :: e :: rest =>
          obtain ⟨rfl, _⟩ := Option.ite_none_right_eq_some.mp h
          exact absurd List.mem_cons_self hs
  | _ =>
      -- white space changes nothing
      cases h
      trivial

theorem run_lineFree (hs : s.mode.LineFree) (h : s.run limit cs = some t) : t.mode.LineFree := by
  induction cs generalizing s with
  | nil =>
      cases h
      exact hs
  | cons c cs ih =>
      rw [run_cons] at h
      obtain ⟨u, hstep, hrest⟩ := Option.bind_eq_some_iff.mp h
      exact ih (stepFlushed_lineFree (flush_lineFree hs) hstep) hrest

/-- After a line the scanner is inside of nothing. -/
theorem run_line (hs : s.mode.LineFree) (h : s.run limit (cs ++ ['\n']) = some t) :
    t.mode.Between := by
  rw [run_append] at h
  obtain ⟨u, hline, hfeed⟩ := Option.bind_eq_some_iff.mp h
  rw [run_cons] at hfeed
  obtain ⟨u', hstep, hlast⟩ := Option.bind_eq_some_iff.mp hfeed
  cases hlast
  exact stepFlushed_between (flush_lineFree (run_lineFree hs hline)) hstep

/-- Nothing begins with one of these letters. -/
theorem step_letter (hs : s.mode.Between) (hc : c = 's' ∨ c = 'm') : s.step limit c = none := by
  obtain ⟨mode, stack⟩ := s
  cases mode with
  | inString | inNumber | inLiteral => cases hs
  | endValue =>
      match stack with
      | [] => rcases hc with rfl | rfl <;> rfl
      | .array _ :: _ => rcases hc with rfl | rfl <;> rfl
      | .object _ _ :: _ => rcases hc with rfl | rfl <;> rfl
  | _ => rcases hc with rfl | rfl <;> rfl

/-- A text with a line that begins with one of these letters is no JSON. -/
theorem scanAll_lines {lines : List (List Char)} (hs : s.mode.Between)
    (hline : ∃ l ∈ lines, ∃ c ∈ l.head?, c = 's' ∨ c = 'm') :
    scanAll limit s (['\n'].intercalate lines) = none := by
  induction lines generalizing s with
  | nil => simp at hline
  | cons line lines ih =>
      have hbegin (hfirst : ∃ c ∈ line.head?, c = 's' ∨ c = 'm') (rest : List Char) :
          scanAll limit s (line ++ rest) = none := by
        obtain ⟨c, hhead, hc⟩ := hfirst
        obtain ⟨line, rfl⟩ := List.head?_eq_some_iff.mp hhead
        rw [List.cons_append, scanAll, step_letter hs hc, Option.bind_none]
      rw [List.exists_mem_cons_iff] at hline
      cases lines with
      | nil =>
          rcases hline with hfirst | ⟨_, hnone, _⟩
          · simpa using hbegin hfirst []
          · cases hnone
      | cons next lines =>
          rw [List.intercalate_cons_cons]
          rcases hline with hfirst | hlater
          · rw [List.append_assoc]
            exact hbegin hfirst _
          · rw [scanAll_append]
            cases hrun : s.run limit (line ++ ['\n']) with
            | none => rfl
            | some t => exact ih (run_line hs.lineFree hrun) hlater

end Json

end Go
