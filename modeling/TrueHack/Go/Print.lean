-- SUMMARY: Printing JSON values, and that the scanner reads back what is printed.
import TrueHack.Go.JsonPieces

/-!
# Printed JSON

A value is printed without white space. How a character of a string is written is
left open: any way will do that stays inside of the literal and stands for the
character. Whatever is printed, the scanner reads back.
-/

namespace Go.Json

/-! ## Values that can be printed -/

/-- The state of the scanner after the first character of a number. -/
def startNumber (c : Char) : Option InNumber :=
  if c = '-' then some .neg
  else if c = '0' then some .zero
  else if c.isDigit then some .int
  else none

/-- A text is a number. -/
def isNumber : List Char → Bool
  | [] => false
  | c :: cs => ((startNumber c).bind fun state => cs.foldlM inNumber state).any InNumber.accepting

/-- The numbers of a value are numbers, and it nests no deeper than `room`. -/
inductive Printable : ℕ → Json → Prop where
  | null {room : ℕ} : Printable room .null
  | bool {room : ℕ} (b : Bool) : Printable room (.bool b)
  | number {room : ℕ} {literal : List Char} (hnumber : isNumber literal = true) :
      Printable room (.number literal)
  | string {room : ℕ} (s : String) : Printable room (.string s)
  | array {room : ℕ} {elems : List Json} (helems : ∀ v ∈ elems, Printable room v) :
      Printable (room + 1) (.array elems)
  | object {room : ℕ} {members : List (String × Json)}
      (hmembers : ∀ m ∈ members, Printable room m.2) : Printable (room + 1) (.object members)

/-- A way to write a character in a string literal. -/
structure Quotes (quote : Char → List Char) : Prop where
  /-- The literal goes on. -/
  inside : ∀ (c : Char) (limit : ℕ) (isName : Bool) (raw : List Char) (stack : List Frame),
    (Scanner.mk (.inString isName .plain raw) stack).run limit (quote c) =
      some ⟨.inString isName .plain ((quote c).reverse ++ raw), stack⟩
  /-- What is written is one unit, and it stands for the character. -/
  unit : ∀ (c : Char) (rest : List Char), ∃ u, units (quote c ++ rest) = u :: units rest ∧
    ∀ us, decodeUnits (u :: us) = c :: decodeUnits us

/-! ## The printer -/

/-- A string literal. -/
def printString (quote : Char → List Char) (s : String) : List Char :=
  ['"'] ++ s.toList.flatMap quote ++ ['"']

mutual

def print (quote : Char → List Char) : Json → List Char
  | .null => ['n', 'u', 'l', 'l']
  | .bool true => ['t', 'r', 'u', 'e']
  | .bool false => ['f', 'a', 'l', 's', 'e']
  | .number literal => literal
  | .string s => printString quote s
  | .array elems => ['['] ++ ([','].intercalate (printElems quote elems) ++ [']'])
  | .object members => ['{'] ++ ([','].intercalate (printMembers quote members) ++ ['}'])

def printElems (quote : Char → List Char) : List Json → List (List Char)
  | [] => []
  | v :: vs => print quote v :: printElems quote vs

def printMembers (quote : Char → List Char) : List (String × Json) → List (List Char)
  | [] => []
  | (name, v) :: members =>
      (printString quote name ++ ([':'] ++ print quote v)) :: printMembers quote members

end

variable {quote : Char → List Char} {limit room : ℕ} {s : Scanner} {stack : List Frame} {v : Json}
  {elems : List Json} {members ms : List (String × Json)} {name : String} {mode : Mode}

/-! ## Numbers -/

theorem run_digits {state state' : InNumber} {raw cs : List Char}
    (h : cs.foldlM inNumber state = some state') :
    (Scanner.mk (.inNumber state raw) stack).run limit cs =
      some ⟨.inNumber state' (cs.reverse ++ raw), stack⟩ := by
  induction cs generalizing state raw with
  | nil =>
      cases h
      rfl
  | cons c cs ih =>
      rw [List.foldlM_cons] at h
      obtain ⟨next, hnext, hrest⟩ := Option.bind_eq_some_iff.mp h
      have hstep : (Scanner.mk (.inNumber state raw) stack).step limit c =
          some ⟨.inNumber next (c :: raw), stack⟩ := by
        simp [Scanner.step, Scanner.flush, Scanner.stepFlushed, hnext]
      rw [run_cons, hstep, Option.bind_some, ih hrest]
      simp

/-- A number begins a value. -/
theorem beginValue_number {c : Char} {state : InNumber} (h : startNumber c = some state) :
    beginValue limit c stack = some ⟨.inNumber state [c], stack⟩ := by
  unfold startNumber at h
  split_ifs at h with hminus hzero hdigit
  · cases h
    subst hminus
    rfl
  · cases h
    subst hzero
    rfl
  · cases h
    have hne (d : Char) (hd : d.isDigit = false) : c ≠ d := by
      rintro rfl
      exact absurd (hd.symm.trans hdigit) nofun
    simp [beginValue, isSpace, hdigit, hminus, hzero, hne ' ' rfl, hne '\t' rfl, hne '\r' rfl,
      hne '\n' rfl, hne '{' rfl, hne '[' rfl, hne '"' rfl]

/-- The value `v` is read completely, but for a number that could go on. -/
inductive Finished (v : Json) (stack : List Frame) : Scanner → Prop where
  | complete : Finished v stack (complete v stack)
  | number {state : InNumber} {raw : List Char} (haccepting : state.accepting = true)
      (hv : v = .number raw.reverse) : Finished v stack ⟨.inNumber state raw, stack⟩

theorem inNumber_ends {state : InNumber} {c : Char}
    (hc : isSpace c = true ∨ c ∈ [',', ']', '}']) : inNumber state c = none := by
  have hchars : c ∈ [' ', '\t', '\r', '\n', ',', ']', '}'] := by
    simp only [isSpace, Bool.or_eq_true, decide_eq_true_eq] at hc
    simp only [List.mem_cons, List.not_mem_nil, or_false] at hc ⊢
    tauto
  have hends : ∀ c ∈ [' ', '\t', '\r', '\n', ',', ']', '}'], inNumber state c = none := by
    cases state <;> simp [inNumber]
  exact hends c hchars

theorem complete_flush (c : Char) : (complete v stack).flush c = complete v stack := by
  match stack with
  | [] => rfl
  | .array _ :: _ => rfl
  | .object _ _ :: _ => rfl

/-- Punctuation and white space end a number. -/
theorem Finished.step {c : Char} (h : Finished v stack s)
    (hc : isSpace c = true ∨ c ∈ [',', ']', '}']) :
    s.step limit c = (Json.complete v stack).step limit c := by
  cases h with
  | complete => rfl
  | number haccepting hv =>
      subst hv
      rw [Scanner.step, Scanner.step, complete_flush]
      simp [Scanner.flush, inNumber_ends hc, haccepting]

/-! ## Strings -/

theorem run_quotes (hquote : Quotes quote) {isName : Bool} {raw : List Char} (cs : List Char) :
    (Scanner.mk (.inString isName .plain raw) stack).run limit (cs.flatMap quote) =
      some ⟨.inString isName .plain ((cs.flatMap quote).reverse ++ raw), stack⟩ := by
  induction cs generalizing raw with
  | nil => rfl
  | cons c cs ih =>
      rw [List.flatMap_cons, run_append, hquote.inside, Option.bind_some, ih]
      simp

theorem unquote_quotes (hquote : Quotes quote) (cs : List Char) :
    unquote (cs.flatMap quote) = cs := by
  unfold unquote
  induction cs with
  | nil => rfl
  | cons c cs ih =>
      obtain ⟨u, hunits, hdecode⟩ := hquote.unit c (cs.flatMap quote)
      rw [List.flatMap_cons, hunits, hdecode, ih]

/-- A string literal, from its opening quote on. -/
theorem run_string (hquote : Quotes quote) {isName : Bool} (name : String)
    (hopen : s.step limit '"' = some ⟨.inString isName .plain [], stack⟩) :
    s.run limit (printString quote name) =
      completeString isName (name.toList.flatMap quote).reverse stack := by
  have hclose (raw : List Char) : (Scanner.mk (.inString isName .plain raw) stack).run limit ['"'] =
      completeString isName raw stack := by
    simp [Scanner.run, Scanner.step, Scanner.flush, Scanner.stepFlushed]
  rw [printString, List.singleton_append, List.cons_append, run_cons, hopen, Option.bind_some,
    run_append, run_quotes hquote, Option.bind_some, hclose, List.append_nil]

theorem run_name (hquote : Quotes quote) (new : String)
    (hmode : mode = .beginStringOrEmpty ∨ mode = .beginString) :
    (Scanner.mk mode (.object ms name :: stack)).run limit (printString quote new) =
      some ⟨.endName, .object ms new :: stack⟩ := by
  have hopen : (Scanner.mk mode (.object ms name :: stack)).step limit '"' =
      some ⟨.inString true .plain [], .object ms name :: stack⟩ := by
    rcases hmode with rfl | rfl <;> rfl
  rw [run_string hquote new hopen, completeString, List.reverse_reverse, unquote_quotes hquote,
    String.ofList_toList]

/-! ## Values -/

/-- The text `cs` is the value `v`, wherever the scanner expects one. -/
def Spells (limit : ℕ) (cs : List Char) (v : Json) (stack : List Frame) : Prop :=
  ∃ s, (Scanner.mk .beginValue stack).run limit cs = some s ∧ Finished v stack s

theorem spells_leaf {cs : List Char}
    (h : (Scanner.mk .beginValue stack).run limit cs = some (complete v stack)) :
    Spells limit cs v stack :=
  ⟨_, h, .complete⟩

/-- A number starts, and then its other characters follow. -/
theorem isNumber_cons {c : Char} {cs : List Char} (h : isNumber (c :: cs) = true) :
    ∃ start state, startNumber c = some start ∧ cs.foldlM inNumber start = some state ∧
      state.accepting = true := by
  cases hfold : (startNumber c).bind fun state => cs.foldlM inNumber state with
  | none => simp [isNumber, hfold] at h
  | some state =>
      obtain ⟨start, hstart, hrest⟩ := Option.bind_eq_some_iff.mp hfold
      exact ⟨start, state, hstart, hrest, by simpa [isNumber, hfold] using h⟩

theorem spells_number {literal : List Char} (h : isNumber literal = true) :
    Spells limit literal (.number literal) stack := by
  cases literal with
  | nil => cases h
  | cons c cs =>
      obtain ⟨start, state, hstart, hrest, haccepting⟩ := isNumber_cons h
      refine ⟨⟨.inNumber state (cs.reverse ++ [c]), stack⟩, ?_, .number haccepting (by simp)⟩
      have hstep : (Scanner.mk .beginValue stack).step limit c = some ⟨.inNumber start [c], stack⟩ :=
        beginValue_number hstart
      rw [run_cons, hstep, Option.bind_some, run_digits hrest]

theorem spells_string (hquote : Quotes quote) (text : String) :
    Spells limit (printString quote text) (.string text) stack := by
  have hopen : (Scanner.mk .beginValue stack).step limit '"' =
      some ⟨.inString false .plain [], stack⟩ := rfl
  refine spells_leaf ?_
  rw [run_string hquote text hopen, completeString, List.reverse_reverse, unquote_quotes hquote,
    String.ofList_toList]

theorem push_eq {frame : Frame} (hroom : stack.length < limit) :
    push limit mode frame stack = some ⟨mode, frame :: stack⟩ := by
  rw [push, if_pos hroom]

/-- The text begins with neither white space nor a bracket that closes. -/
def Begins (cs : List Char) : Prop := ∃ c ∈ cs.head?, c ≠ ']' ∧ isSpace c = false

/-- An array opens, and its first element begins. -/
theorem run_openArray {cs : List Char} (hroom : stack.length < limit) (hcs : Begins cs) :
    (Scanner.mk .beginValue stack).run limit (['['] ++ cs) =
      (Scanner.mk .beginValue (.array [] :: stack)).run limit cs := by
  obtain ⟨c, hhead, hc, hspace⟩ := hcs
  obtain ⟨cs, rfl⟩ := List.head?_eq_some_iff.mp hhead
  have hopen : (Scanner.mk .beginValue stack).step limit '[' =
      some ⟨.beginValueOrEmpty, .array [] :: stack⟩ := push_eq hroom
  have hfirst : (Scanner.mk .beginValueOrEmpty (.array [] :: stack)).step limit c =
      (Scanner.mk .beginValue (.array [] :: stack)).step limit c := by
    simp [Scanner.step, Scanner.flush, Scanner.stepFlushed, hc, hspace]
  rw [List.singleton_append, run_cons, hopen, Option.bind_some, run_cons, hfirst, run_cons]

theorem Begins.append {cs ds : List Char} (h : Begins cs) : Begins (cs ++ ds) := by
  obtain ⟨c, hhead, hc⟩ := h
  obtain ⟨cs, rfl⟩ := List.head?_eq_some_iff.mp hhead
  exact ⟨c, rfl, hc⟩

theorem begins_print (h : Printable room v) : Begins (print quote v) := by
  cases h with
  | null => exact ⟨_, rfl, by decide, by decide⟩
  | bool b => cases b <;> exact ⟨_, rfl, by decide, by decide⟩
  | @number _ literal hnumber =>
      cases literal with
      | nil => cases hnumber
      | cons c cs =>
          obtain ⟨start, _, hstart, _⟩ := isNumber_cons hnumber
          refine ⟨c, rfl, ?_⟩
          have hnone : ∀ d ∈ [']', ' ', '\t', '\r', '\n'], startNumber d = none := by
            simp [startNumber]
          have hne : ∀ d ∈ [']', ' ', '\t', '\r', '\n'], c ≠ d := by
            rintro d hd rfl
            exact absurd ((hnone c hd).symm.trans hstart) nofun
          simp only [List.forall_mem_cons] at hne
          simp [isSpace, hne]
  | string s => exact ⟨_, rfl, by decide, by decide⟩
  | array => exact ⟨_, rfl, by decide, by decide⟩
  | object => exact ⟨_, rfl, by decide, by decide⟩

theorem begins_elems {vs : List Json} (h : Printable room v) :
    Begins ([','].intercalate (printElems quote (v :: vs))) := by
  cases vs with
  | nil =>
      rw [printElems, printElems, List.intercalate_singleton]
      exact begins_print h
  | cons w vs =>
      rw [printElems, printElems, List.intercalate_cons_cons]
      exact (begins_print h).append.append

/-- The elements of an array, up to its end. -/
theorem run_elems {done : List Json} (hne : elems ≠ [])
    (helems : ∀ v ∈ elems, ∀ done, Spells limit (print quote v) v (.array done :: stack)) :
    (Scanner.mk .beginValue (.array done :: stack)).run limit
        ([','].intercalate (printElems quote elems) ++ [']']) =
      some (complete (.array (done.reverse ++ elems)) stack) := by
  induction elems generalizing done with
  | nil => exact absurd rfl hne
  | cons v vs ih =>
      obtain ⟨s, hrun, hfinished⟩ := helems v List.mem_cons_self done
      cases vs with
      | nil =>
          have hclose : s.step limit ']' = some (complete (.array (v :: done).reverse) stack) :=
            hfinished.step (.inr (by decide))
          simp only [printElems, List.intercalate_singleton]
          rw [run_append, hrun, Option.bind_some, run_cons, hclose]
          simp [Scanner.run]
      | cons w vs =>
          have hcomma : s.step limit ',' = some ⟨.beginValue, .array (v :: done) :: stack⟩ :=
            hfinished.step (.inr (by decide))
          have hrest := @ih (v :: done) (List.cons_ne_nil w vs)
            fun u hu => helems u (List.mem_cons_of_mem v hu)
          simp only [printElems, List.intercalate_cons_cons, List.append_assoc] at hrest ⊢
          rw [run_append, hrun, Option.bind_some, run_append, run_cons, hcomma]
          simpa [Scanner.run] using hrest

/-- The members of an object, up to its end. -/
theorem run_members (hquote : Quotes quote) {done : List (String × Json)} (hne : members ≠ [])
    (hmode : mode = .beginStringOrEmpty ∨ mode = .beginString)
    (hmembers : ∀ m ∈ members, ∀ done, Spells limit (print quote m.2) m.2
      (.object done m.1 :: stack)) :
    (Scanner.mk mode (.object done name :: stack)).run limit
        ([','].intercalate (printMembers quote members) ++ ['}']) =
      some (complete (.object (done.reverse ++ members)) stack) := by
  induction members generalizing done mode name with
  | nil => exact absurd rfl hne
  | cons m ms ih =>
      obtain ⟨key, v⟩ := m
      obtain ⟨s, hrun, hfinished⟩ := hmembers (key, v) List.mem_cons_self done
      have hmember (rest : List Char) : (Scanner.mk mode (.object done name :: stack)).run limit
          (printString quote key ++ ([':'] ++ print quote v) ++ rest) = s.run limit rest := by
        have hcolon : (Scanner.mk .endName (.object done key :: stack)).run limit [':'] =
            some ⟨.beginValue, .object done key :: stack⟩ := rfl
        rw [run_append, run_append, run_name hquote key hmode, Option.bind_some, run_append, hcolon,
          Option.bind_some, hrun, Option.bind_some]
      cases ms with
      | nil =>
          have hclose : s.step limit '}' =
              some (complete (.object ((key, v) :: done).reverse) stack) :=
            hfinished.step (.inr (by decide))
          simp only [printMembers, List.intercalate_singleton]
          rw [hmember, run_cons, hclose]
          simp [Scanner.run]
      | cons m ms =>
          have hcomma : s.step limit ',' =
              some ⟨.beginString, .object ((key, v) :: done) "" :: stack⟩ :=
            hfinished.step (.inr (by decide))
          have hrest := @ih "" .beginString ((key, v) :: done) (List.cons_ne_nil m ms) (.inr rfl)
            fun n hn => hmembers n (List.mem_cons_of_mem _ hn)
          obtain ⟨key', w⟩ := m
          simp only [printMembers, List.intercalate_cons_cons] at hrest ⊢
          rw [List.append_assoc, List.append_assoc, hmember, run_append, run_cons, hcomma]
          simpa [Scanner.run] using hrest

/-- A printed value is read back, as deep as the scanner has room for it. -/
theorem spells_print (hquote : Quotes quote) (h : Printable room v)
    (hroom : stack.length + room ≤ limit) : Spells limit (print quote v) v stack := by
  induction h generalizing stack with
  | null => exact spells_leaf rfl
  | bool b => cases b <;> exact spells_leaf rfl
  | number hnumber => exact spells_number hnumber
  | string s => exact spells_string hquote s
  | @array room elems helems ih =>
      have hlt : stack.length < limit := by omega
      refine spells_leaf ?_
      rw [print]
      cases elems with
      | nil =>
          have hopen : (Scanner.mk .beginValue stack).step limit '[' =
              some ⟨.beginValueOrEmpty, .array [] :: stack⟩ := push_eq hlt
          rw [List.singleton_append, run_cons, hopen]
          rfl
      | cons v vs =>
          have hinner : ∀ w ∈ v :: vs, ∀ done,
              Spells limit (print quote w) w (.array done :: stack) := by
            intro w hw done
            exact ih w hw (by rw [List.length_cons]; omega)
          rw [run_openArray hlt (begins_elems (helems v List.mem_cons_self)).append]
          exact run_elems (List.cons_ne_nil v vs) hinner
  | @object room members hmembers ih =>
      have hlt : stack.length < limit := by omega
      have hopen : (Scanner.mk .beginValue stack).step limit '{' =
          some ⟨.beginStringOrEmpty, .object [] "" :: stack⟩ := push_eq hlt
      refine spells_leaf ?_
      rw [print, List.singleton_append, run_cons, hopen, Option.bind_some]
      cases members with
      | nil => rfl
      | cons m ms =>
          have hinner : ∀ n ∈ m :: ms, ∀ done,
              Spells limit (print quote n.2) n.2 (.object done n.1 :: stack) := by
            intro n hn done
            exact ih n hn (by rw [List.length_cons]; omega)
          exact run_members hquote (List.cons_ne_nil m ms) (.inl rfl) hinner

/-! ## Texts -/

/-- After the value, only white space may follow. -/
theorem scanAll_spaces {spaces : List Char} (hspaces : ∀ c ∈ spaces, isSpace c = true) :
    scanAll limit ⟨.endTop v, []⟩ spaces = some v := by
  induction spaces with
  | nil => rfl
  | cons c cs ih =>
      have hstep : (Scanner.mk (.endTop v) []).step limit c = some ⟨.endTop v, []⟩ := by
        simp [Scanner.step, Scanner.flush, Scanner.stepFlushed, hspaces c List.mem_cons_self]
      rw [scanAll, hstep]
      exact ih fun d hd => hspaces d (List.mem_cons_of_mem c hd)

theorem Finished.scanAll_spaces {spaces : List Char} (h : Finished v [] s)
    (hspaces : ∀ c ∈ spaces, isSpace c = true) : scanAll limit s spaces = some v := by
  cases spaces with
  | nil =>
      rw [scanAll, h.step (.inl rfl)]
      rfl
  | cons c cs =>
      rw [scanAll, h.step (.inl (hspaces c List.mem_cons_self))]
      change scanAll limit (Json.complete v []) (c :: cs) = some v
      exact Json.scanAll_spaces hspaces

/-- Whatever is printed is read back, white space after it or not. -/
theorem parseWithin_print (hquote : Quotes quote) (h : Printable room v) {spaces : List Char}
    (hspaces : ∀ c ∈ spaces, isSpace c = true) :
    parseWithin room (String.ofList (print quote v ++ spaces)) = some v := by
  have hroom : ([] : List Frame).length + room ≤ room := by simp
  obtain ⟨s, hrun, hfinished⟩ := spells_print hquote h hroom
  have hinit : Scanner.init.run room (print quote v) = some s := hrun
  rw [parseWithin, String.toList_ofList, scanAll_append, hinit, Option.bind_some,
    hfinished.scanAll_spaces hspaces]

/-- What is parsed is parsed with more room as well. -/
theorem parseWithin_mono {limit : ℕ} {text : String} (h : parseWithin room text = some v)
    (hroom : room ≤ limit) : parseWithin limit text = some v :=
  scanAll_limit h (.inr hroom)

end Go.Json
