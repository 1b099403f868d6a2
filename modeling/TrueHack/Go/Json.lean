-- SUMMARY: The JSON scanner of encoding/json: one character at a time, with the value built on the way.
import Mathlib.Data.List.Basic

/-!
# JSON texts

The scanner is a state machine with a stack of unfinished arrays and objects.
`parse` runs it over a whole text, as `json.Unmarshal` does before it decodes;
`firstValue` stops after one value and leaves the rest unread, as
`json.Decoder.Decode` does.
-/

namespace Go

/-- A JSON value. A number keeps its literal, and an object its members in the order of
    the text, repeated names included. -/
inductive Json where
  | null
  | bool (b : Bool)
  | number (literal : List Char)
  | string (s : String)
  | array (elems : List Json)
  | object (members : List (String × Json))

namespace Json

/-- `isSpace` of the scanner. -/
def isSpace (c : Char) : Bool := c = ' ' || c = '\t' || c = '\r' || c = '\n'

/-! ## String literals -/

/-- The value of a hexadecimal digit. -/
def hexVal (c : Char) : Option ℕ :=
  if '0' ≤ c ∧ c ≤ '9' then some (c.toNat - '0'.toNat)
  else if 'a' ≤ c ∧ c ≤ 'f' then some (c.toNat - 'a'.toNat + 10)
  else if 'A' ≤ c ∧ c ≤ 'F' then some (c.toNat - 'A'.toNat + 10)
  else none

/-- `getu4`: the code unit of `\uXXXX`. -/
def getu4 (a b c d : Char) : ℕ :=
  [a, b, c, d].foldl (fun n x => 16 * n + (hexVal x).getD 0) 0

/-- `utf16.IsSurrogate` -/
def isSurrogate (u : ℕ) : Bool := 0xD800 ≤ u && u < 0xE000

/-- `utf16.DecodeRune`, when the units make a pair. -/
def decodePair (hi lo : ℕ) : Option Char :=
  if 0xD800 ≤ hi ∧ hi < 0xDC00 ∧ 0xDC00 ≤ lo ∧ lo < 0xE000 then
    some (Char.ofNat (0x10000 + (hi - 0xD800) * 0x400 + (lo - 0xDC00)))
  else none

/-- `unicode.ReplacementChar` -/
def replacementChar : Char := Char.ofNat 0xFFFD

/-- The escapes of one letter. -/
def unescape : Char → Char
  | 'b' => Char.ofNat 8
  | 'f' => Char.ofNat 12
  | 'n' => '\n'
  | 'r' => '\r'
  | 't' => '\t'
  | c => c

/-- The text between the quotes as characters and `\u` code units. -/
def units : List Char → List (Char ⊕ ℕ)
  | '\\' :: 'u' :: a :: b :: c :: d :: rest => .inr (getu4 a b c d) :: units rest
  | '\\' :: c :: rest => .inl (unescape c) :: units rest
  | c :: rest => .inl c :: units rest
  | [] => []

/-- Code units as characters. Half a surrogate pair becomes the replacement
    character. -/
def decodeUnits : List (Char ⊕ ℕ) → List Char
  | .inl c :: us => c :: decodeUnits us
  | .inr hi :: .inr lo :: us =>
      if isSurrogate hi then
        match decodePair hi lo with
        | some rune => rune :: decodeUnits us
        | none => replacementChar :: decodeUnits (.inr lo :: us)
      else Char.ofNat hi :: decodeUnits (.inr lo :: us)
  | .inr u :: us => (if isSurrogate u then replacementChar else Char.ofNat u) :: decodeUnits us
  | [] => []

/-- `unquote` -/
def unquote (raw : List Char) : List Char := decodeUnits (units raw)

/-! ## The scanner -/

/-- An unfinished array or object: what it has so far, latest first, and for an object
    the name of the member that is being read. -/
inductive Frame where
  | array (elems : List Json)
  | object (members : List (String × Json)) (name : String)

/-- Where the scanner is in a string literal. -/
inductive InString where
  | plain
  | escape
  /-- Inside `\u`, with this many more digits to come. -/
  | unicode (digits : ℕ)
deriving DecidableEq

/-- Where the scanner is in a number. -/
inductive InNumber where
  | neg
  | zero
  | int
  | dot
  | frac
  | exp
  | expSign
  | expDigits
deriving DecidableEq

/-- The state of the scanner apart from its stack, in the order of `scan.go`. -/
inductive Mode where
  | beginValueOrEmpty
  | beginValue
  | beginStringOrEmpty
  | beginString
  | endName
  | endValue
  /-- The top-level value is complete. -/
  | endTop (v : Json)
  /-- In a string literal with the text `raw` so far, latest first; `isName` in an
      object before the colon. -/
  | inString (isName : Bool) (state : InString) (raw : List Char)
  | inNumber (state : InNumber) (raw : List Char)
  /-- In `true`, `false` or `null`, with `rest` to come. -/
  | inLiteral (rest : List Char) (v : Json)

structure Scanner where
  mode : Mode
  stack : List Frame

/-- `maxNestingDepth` -/
def maxNestingDepth : ℕ := 10000

/-- `pushParseState`, with room for `limit` frames. -/
def push (limit : ℕ) (mode : Mode) (frame : Frame) (stack : List Frame) : Option Scanner :=
  if stack.length < limit then some ⟨mode, frame :: stack⟩ else none

/-- A value is complete: it goes to the frame it belongs to. -/
def complete (v : Json) : List Frame → Scanner
  | [] => ⟨.endTop v, []⟩
  | .array elems :: stack => ⟨.endValue, .array (v :: elems) :: stack⟩
  | .object members name :: stack => ⟨.endValue, .object ((name, v) :: members) "" :: stack⟩

/-- A string literal is complete. -/
def completeString (isName : Bool) (raw : List Char) (stack : List Frame) : Option Scanner :=
  let s := String.ofList (unquote raw.reverse)
  match isName, stack with
  | false, stack => some (complete (.string s) stack)
  | true, .object members _ :: stack => some ⟨.endName, .object members s :: stack⟩
  | true, _ => none

/-- `stateBeginValue` -/
def beginValue (limit : ℕ) (c : Char) (stack : List Frame) : Option Scanner :=
  if isSpace c then some ⟨.beginValue, stack⟩
  else if c = '{' then push limit .beginStringOrEmpty (.object [] "") stack
  else if c = '[' then push limit .beginValueOrEmpty (.array []) stack
  else if c = '"' then some ⟨.inString false .plain [], stack⟩
  else if c = '-' then some ⟨.inNumber .neg [c], stack⟩
  else if c = '0' then some ⟨.inNumber .zero [c], stack⟩
  else if c.isDigit then some ⟨.inNumber .int [c], stack⟩
  else if c = 't' then some ⟨.inLiteral ['r', 'u', 'e'] (.bool true), stack⟩
  else if c = 'f' then some ⟨.inLiteral ['a', 'l', 's', 'e'] (.bool false), stack⟩
  else if c = 'n' then some ⟨.inLiteral ['u', 'l', 'l'] .null, stack⟩
  else none

/-- `stateBeginString` -/
def beginString (c : Char) (stack : List Frame) : Option Scanner :=
  if isSpace c then some ⟨.beginString, stack⟩
  else if c = '"' then some ⟨.inString true .plain [], stack⟩
  else none

/-- `stateEndValue` inside an array or object. -/
def endValue (c : Char) (stack : List Frame) : Option Scanner :=
  if isSpace c then some ⟨.endValue, stack⟩
  else match stack with
    | .array elems :: rest =>
        if c = ',' then some ⟨.beginValue, stack⟩
        else if c = ']' then some (complete (.array elems.reverse) rest)
        else none
    | .object members _ :: rest =>
        if c = ',' then some ⟨.beginString, stack⟩
        else if c = '}' then some (complete (.object members.reverse) rest)
        else none
    | [] => none

/-- One more character of a string literal; `none` is an invalid one. -/
def inString (state : InString) (c : Char) : Option InString :=
  match state with
  | .plain =>
      if c = '\\' then some .escape else if c.toNat < 0x20 then none else some .plain
  | .escape =>
      if c = 'u' then some (.unicode 4)
      else if c ∈ ['b', 'f', 'n', 'r', 't', '\\', '/', '"'] then some .plain
      else none
  | .unicode digits =>
      if (hexVal c).isSome then some (if digits ≤ 1 then .plain else .unicode (digits - 1)) else none

/-- One more character of a number; `none` where the number cannot go on with it. -/
def inNumber (state : InNumber) (c : Char) : Option InNumber :=
  match state with
  | .neg => if c = '0' then some .zero else if c.isDigit then some .int else none
  | .zero => if c = '.' then some .dot else if c = 'e' ∨ c = 'E' then some .exp else none
  | .int =>
      if c.isDigit then some .int
      else if c = '.' then some .dot
      else if c = 'e' ∨ c = 'E' then some .exp
      else none
  | .dot => if c.isDigit then some .frac else none
  | .frac => if c.isDigit then some .frac else if c = 'e' ∨ c = 'E' then some .exp else none
  | .exp =>
      if c = '+' ∨ c = '-' then some .expSign else if c.isDigit then some .expDigits else none
  | .expSign => if c.isDigit then some .expDigits else none
  | .expDigits => if c.isDigit then some .expDigits else none

/-- A number may end here. -/
def InNumber.accepting : InNumber → Bool
  | .zero | .int | .frac | .expDigits => true
  | _ => false

/-- A number ends before a character it cannot go on with; everything else ends with its
    own last character. -/
def Scanner.flush (s : Scanner) (c : Char) : Scanner :=
  match s.mode with
  | .inNumber state raw =>
      if (inNumber state c).isNone ∧ state.accepting then complete (.number raw.reverse) s.stack
      else s
  | _ => s

/-- One character, when no number ends before it. -/
def Scanner.stepFlushed (limit : ℕ) (s : Scanner) (c : Char) : Option Scanner :=
  match s.mode with
  | .beginValueOrEmpty =>
      if c = ']' then
        match s.stack with
        | .array elems :: rest => some (complete (.array elems.reverse) rest)
        | _ => none
      else if isSpace c then some s
      else beginValue limit c s.stack
  | .beginValue => beginValue limit c s.stack
  | .beginStringOrEmpty =>
      if c = '}' then
        match s.stack with
        | .object members _ :: rest => some (complete (.object members.reverse) rest)
        | _ => none
      else if isSpace c then some s
      else beginString c s.stack
  | .beginString => beginString c s.stack
  | .endName =>
      if isSpace c then some s
      else if c = ':' then some ⟨.beginValue, s.stack⟩
      else none
  | .endValue => endValue c s.stack
  | .endTop _ => if isSpace c then some s else none
  | .inString isName state raw =>
      if state = .plain ∧ c = '"' then completeString isName raw s.stack
      else (inString state c).map fun state => ⟨.inString isName state (c :: raw), s.stack⟩
  | .inNumber state raw =>
      (inNumber state c).map fun state => ⟨.inNumber state (c :: raw), s.stack⟩
  | .inLiteral rest v =>
      match rest with
      | [] => none
      | [d] => if c = d then some (complete v s.stack) else none
      | d :: rest => if c = d then some ⟨.inLiteral rest v, s.stack⟩ else none

/-- One character of the scanner; `none` is a syntax error. -/
def Scanner.step (limit : ℕ) (s : Scanner) (c : Char) : Option Scanner :=
  (s.flush c).stepFlushed limit c

/-- The scanner before the first character. -/
def Scanner.init : Scanner := ⟨.beginValue, []⟩

/-- The complete top-level value, if there is one. -/
def Scanner.top (s : Scanner) : Option Json :=
  match s.mode with
  | .endTop v => some v
  | _ => none

/-- Scan to the end of the text; the end acts like a space. -/
def scanAll (limit : ℕ) (s : Scanner) : List Char → Option Json
  | [] => (s.step limit ' ').bind Scanner.top
  | c :: cs => (s.step limit c).bind fun s => scanAll limit s cs

/-- Scan until a top-level value is complete. -/
def scanFirst (limit : ℕ) (s : Scanner) : List Char → Option Json
  | [] => (s.step limit ' ').bind Scanner.top
  | c :: cs =>
      match (s.flush c).top with
      | some v => some v
      | none => (s.step limit c).bind fun s =>
          match s.top with
          | some v => some v
          | none => scanFirst limit s cs

/-- The value of a whole text, if it is valid JSON and nests at most `limit` deep. -/
def parseWithin (limit : ℕ) (text : String) : Option Json := scanAll limit .init text.toList

/-- The value that `json.Unmarshal` decodes. -/
def parse (text : String) : Option Json := parseWithin maxNestingDepth text

/-- The first value of a text, the one that `json.Decoder.Decode` decodes. -/
def firstValue (text : String) : Option Json := scanFirst maxNestingDepth .init text.toList

/-! ## A whole text is its first value -/

variable {limit : ℕ}

theorem flush_top {s : Scanner} {c : Char} {v : Json} (h : s.top = some v) : s.flush c = s := by
  unfold Scanner.top at h
  unfold Scanner.flush
  split at h
  · rename_i hmode
    simp [hmode]
  · cases h

theorem top_step {s t : Scanner} {c : Char} {v : Json} (h : s.top = some v)
    (hstep : s.step limit c = some t) : t.top = some v := by
  rw [Scanner.step, flush_top h] at hstep
  unfold Scanner.top at h
  unfold Scanner.stepFlushed at hstep
  split at h
  · rename_i hmode
    cases h
    simp only [hmode, Option.ite_none_right_eq_some, Option.some.injEq] at hstep
    obtain ⟨_, rfl⟩ := hstep
    simp [Scanner.top, hmode]
  · cases h

/-- After the value only space follows, and the value stays. -/
theorem scanAll_of_top {s : Scanner} {v w : Json} {cs : List Char} (h : s.top = some v)
    (hall : scanAll limit s cs = some w) : v = w := by
  induction cs generalizing s with
  | nil =>
      obtain ⟨t, hstep, htop⟩ := Option.bind_eq_some_iff.mp hall
      exact Option.some.inj ((top_step h hstep).symm.trans htop)
  | cons c cs ih =>
      obtain ⟨t, hstep, hrest⟩ := Option.bind_eq_some_iff.mp hall
      exact ih (top_step h hstep) hrest

theorem scanFirst_of_scanAll {s : Scanner} {v : Json} {cs : List Char}
    (h : scanAll limit s cs = some v) : scanFirst limit s cs = some v := by
  induction cs generalizing s with
  | nil => exact h
  | cons c cs ih =>
      obtain ⟨t, hstep, hrest⟩ := Option.bind_eq_some_iff.mp h
      have hfirst : (match t.top with
          | some v => some v
          | none => scanFirst limit t cs) = some v := by
        cases htop : t.top with
        | none => exact ih hrest
        | some w => rw [scanAll_of_top htop hrest]
      unfold scanFirst
      cases hflush : (s.flush c).top with
      | none => simp only [hstep, Option.bind_some, hfirst]
      | some w =>
          have hfixed : (s.flush c).flush c = s.flush c := flush_top hflush
          have hstep' : (s.flush c).step limit c = some t := by rwa [Scanner.step, hfixed]
          rw [scanAll_of_top (top_step hflush hstep') hrest]

/-- Where the whole text is valid, its first value is its value. -/
theorem firstValue_of_parse {text : String} {v : Json} (h : parse text = some v) :
    firstValue text = some v :=
  scanFirst_of_scanAll h

end Json

end Go
