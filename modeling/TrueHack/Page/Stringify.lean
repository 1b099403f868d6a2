-- SUMMARY: JSON.stringify on an object of strings, and what the scanner of encoding/json reads from its text.
import TrueHack.Go.JsonPieces

/-!
# JSON.stringify

The page serializes an object whose values are strings. A JavaScript string is a
sequence of UTF-16 code units, so halves of surrogate pairs may stand alone in it.
They are escaped, and the text is a sequence of characters.
-/

namespace Page

open Go

/-- A code point of a JavaScript string: a character, or half a surrogate pair that stands
    alone. -/
inductive CodePoint where
  | char (c : Char)
  | half (offset : Fin 0x800)

/-- The code points of a string without lone halves. -/
def codePoints (s : String) : List CodePoint := s.toList.map .char

/-- `UnicodeEscape` -/
def unicodeEscape (unit : ℕ) : List Char :=
  ['\\', 'u'] ++
    [unit / 4096 % 16, unit / 256 % 16, unit / 16 % 16, unit % 16].map Nat.digitChar

/-- The escapes of one letter. -/
def escapeLetter (c : Char) : Option Char :=
  if c = Char.ofNat 8 then some 'b'
  else if c = '\t' then some 't'
  else if c = '\n' then some 'n'
  else if c = Char.ofNat 12 then some 'f'
  else if c = '\r' then some 'r'
  else if c = '"' then some '"'
  else if c = '\\' then some '\\'
  else none

/-- One step of `QuoteJSONString`. -/
def quoteCodePoint : CodePoint → List Char
  | .char c =>
      match escapeLetter c with
      | some letter => ['\\', letter]
      | none => if c.toNat < 0x20 then unicodeEscape c.toNat else [c]
  | .half offset => unicodeEscape (0xD800 + offset)

/-- `QuoteJSONString` between its quotes. -/
def quoted (s : List CodePoint) : List Char := s.flatMap quoteCodePoint

/-- `QuoteJSONString` -/
def quoteJSONString (s : List CodePoint) : List Char := ['"'] ++ quoted s ++ ['"']

/-- A property of the object. -/
def serializeProperty (property : String × List CodePoint) : List Char :=
  quoteJSONString (codePoints property.1) ++ [':'] ++ quoteJSONString property.2

/-- `SerializeJSONObject` on an object of strings. -/
def serializeJSONObject (properties : List (String × List CodePoint)) : List Char :=
  ['{'] ++ [','].intercalate (properties.map serializeProperty) ++ ['}']

/-- `JSON.stringify` on an object of strings. -/
def stringify (properties : List (String × List CodePoint)) : String :=
  String.ofList (serializeJSONObject properties)

/-! ## One code point -/

variable {limit : ℕ} {isName : Bool} {raw : List Char} {stack : List Json.Frame} {c letter : Char}
  {s : List CodePoint}

theorem escapeLetter_spec (h : escapeLetter c = some letter) :
    letter ∈ ['b', 'f', 'n', 'r', 't', '\\', '/', '"'] ∧ Json.unescape letter = c := by
  unfold escapeLetter at h
  split_ifs at h with h₁ h₂ h₃ h₄ h₅ h₆ h₇
  all_goals
    cases h
    subst c
    exact ⟨by decide, rfl⟩

/-- A character is escaped by a letter or by its code, or it stands for itself. -/
theorem quote_cases (c : Char) :
    (∃ letter, quoteCodePoint (.char c) = ['\\', letter] ∧
      letter ∈ ['b', 'f', 'n', 'r', 't', '\\', '/', '"'] ∧ Json.unescape letter = c) ∨
    (quoteCodePoint (.char c) = unicodeEscape c.toNat ∧ c.toNat < 0x20) ∨
    (quoteCodePoint (.char c) = [c] ∧ c ≠ '"' ∧ c ≠ '\\' ∧ ¬c.toNat < 0x20) := by
  cases hletter : escapeLetter c with
  | some letter => exact .inl ⟨letter, by rw [quoteCodePoint, hletter], escapeLetter_spec hletter⟩
  | none =>
      right
      have hquote : c ≠ '"' := by
        rintro rfl
        cases hletter
      have hbackslash : c ≠ '\\' := by
        rintro rfl
        cases hletter
      by_cases hcontrol : c.toNat < 0x20
      · exact .inl ⟨by simp [quoteCodePoint, hletter, hcontrol], hcontrol⟩
      · exact .inr ⟨by simp [quoteCodePoint, hletter, hcontrol], hquote, hbackslash, hcontrol⟩

theorem hexVal_digitChar {d : ℕ} (h : d < 16) : (Json.hexVal (Nat.digitChar d)).isSome = true := by
  revert d
  decide

/-- The scanner inside of a string literal, with the text `raw` so far. -/
def inside (isName : Bool) (raw : List Char) (stack : List Json.Frame) : Json.Scanner :=
  ⟨.inString isName .plain raw, stack⟩

theorem run_unicodeEscape (unit : ℕ) : (inside isName raw stack).run limit (unicodeEscape unit) =
    some (inside isName ((unicodeEscape unit).reverse ++ raw) stack) := by
  have hdigit (n : ℕ) : (Json.hexVal (Nat.digitChar (n % 16))).isSome = true :=
    hexVal_digitChar (Nat.mod_lt n (by decide))
  simp [Json.Scanner.run, unicodeEscape, inside, Json.Scanner.step, Json.Scanner.flush,
    Json.Scanner.stepFlushed, Json.inString, hdigit]

theorem run_escape (h : letter ∈ ['b', 'f', 'n', 'r', 't', '\\', '/', '"']) :
    (inside isName raw stack).run limit ['\\', letter] =
      some (inside isName (['\\', letter].reverse ++ raw) stack) := by
  have hu : letter ≠ 'u' := by
    rintro rfl
    exact absurd h (by decide)
  simp [Json.Scanner.run, inside, Json.Scanner.step, Json.Scanner.flush,
    Json.Scanner.stepFlushed, Json.inString, h, hu]

/-- A quoted code point does not leave the string literal. -/
theorem run_quoteCodePoint (p : CodePoint) :
    (inside isName raw stack).run limit (quoteCodePoint p) =
      some (inside isName ((quoteCodePoint p).reverse ++ raw) stack) := by
  cases p with
  | half offset => exact run_unicodeEscape _
  | char c =>
      rcases quote_cases c with ⟨letter, heq, hletter, _⟩ | ⟨heq, _⟩ |
        ⟨heq, hquote, hbackslash, hcontrol⟩
      · rw [heq]
        exact run_escape hletter
      · rw [heq]
        exact run_unicodeEscape _
      · rw [heq]
        simp [Json.Scanner.run, inside, Json.Scanner.step, Json.Scanner.flush,
          Json.Scanner.stepFlushed, Json.inString, hquote, hbackslash, hcontrol]

theorem run_quoted (s : List CodePoint) : (inside isName raw stack).run limit (quoted s) =
    some (inside isName ((quoted s).reverse ++ raw) stack) := by
  induction s generalizing raw with
  | nil => rfl
  | cons p s ih =>
      have hrest : (inside isName ((quoteCodePoint p).reverse ++ raw) stack).run limit (quoted s) =
          some (inside isName ((quoted s).reverse ++ ((quoteCodePoint p).reverse ++ raw)) stack) := ih
      rw [quoted, List.flatMap_cons, Json.run_append, run_quoteCodePoint, Option.bind_some,
        List.reverse_append, List.append_assoc]
      exact hrest

/-! ## Strings -/

/-- What the scanner makes of a quoted string. -/
def received (s : List CodePoint) : String := String.ofList (Json.unquote (quoted s))

/-- A string literal is complete at its closing quote. -/
theorem run_quoteJSONString {t : Json.Scanner} (s : List CodePoint)
    (hopen : t.step limit '"' = some (inside isName [] stack)) :
    t.run limit (quoteJSONString s) = Json.completeString isName (quoted s).reverse stack := by
  have hclose : (inside isName (quoted s).reverse stack).run limit ['"'] =
      Json.completeString isName (quoted s).reverse stack := by
    simp [Json.Scanner.run, inside, Json.Scanner.step, Json.Scanner.flush,
      Json.Scanner.stepFlushed]
  rw [quoteJSONString, List.singleton_append, List.cons_append, Json.run_cons, hopen,
    Option.bind_some, Json.run_append, run_quoted, List.append_nil, Option.bind_some, hclose]

variable {ms : List (String × Json)} {name : String} {mode : Json.Mode}

theorem run_name (s : List CodePoint)
    (hmode : mode = .beginStringOrEmpty ∨ mode = .beginString) :
    (Json.Scanner.mk mode (.object ms name :: stack)).run limit (quoteJSONString s ++ [':']) =
      some ⟨.beginValue, .object ms (received s) :: stack⟩ := by
  have hopen : (Json.Scanner.mk mode (.object ms name :: stack)).step limit '"' =
      some (inside true [] (.object ms name :: stack)) := by
    rcases hmode with rfl | rfl <;> rfl
  rw [Json.run_append, run_quoteJSONString s hopen, Json.completeString, List.reverse_reverse]
  rfl

theorem run_value (s : List CodePoint) :
    (Json.Scanner.mk .beginValue (.object ms name :: stack)).run limit (quoteJSONString s) =
      some ⟨.endValue, .object ((name, .string (received s)) :: ms) "" :: stack⟩ := by
  have hopen : (Json.Scanner.mk .beginValue (.object ms name :: stack)).step limit '"' =
      some (inside false [] (.object ms name :: stack)) := rfl
  rw [run_quoteJSONString s hopen, Json.completeString, List.reverse_reverse]
  rfl

/-! ## Objects -/

/-- What the scanner makes of a property. -/
def receivedProperty (property : String × List CodePoint) : String × Json :=
  (received (codePoints property.1), .string (received property.2))

theorem run_property (property : String × List CodePoint)
    (hmode : mode = .beginStringOrEmpty ∨ mode = .beginString) :
    (Json.Scanner.mk mode (.object ms name :: stack)).run limit (serializeProperty property) =
      some ⟨.endValue, .object (receivedProperty property :: ms) "" :: stack⟩ := by
  rw [serializeProperty, Json.run_append, run_name _ hmode, Option.bind_some, run_value]
  rfl

theorem run_properties (properties : List (String × List CodePoint)) (hne : properties ≠ [])
    (hmode : mode = .beginStringOrEmpty ∨ mode = .beginString) :
    (Json.Scanner.mk mode (.object ms name :: stack)).run limit
        ([','].intercalate (properties.map serializeProperty)) =
      some ⟨.endValue, .object ((properties.map receivedProperty).reverse ++ ms) "" :: stack⟩ := by
  induction properties generalizing mode ms name with
  | nil => exact absurd rfl hne
  | cons property properties ih =>
      cases properties with
      | nil => simpa using run_property property hmode
      | cons next properties =>
          have hcomma : (Json.Scanner.mk .endValue
              (.object (receivedProperty property :: ms) "" :: stack)).run limit [','] =
              some ⟨.beginString, .object (receivedProperty property :: ms) "" :: stack⟩ := rfl
          rw [List.map_cons, List.map_cons, List.intercalate_cons_cons, ← List.map_cons,
            Json.run_append, Json.run_append, run_property property hmode, Option.bind_some,
            hcomma, Option.bind_some, ih (List.cons_ne_nil _ _) (.inr rfl)]
          simp

/-- The text is read as the object of the received properties. -/
theorem denotes_stringify (properties : List (String × List CodePoint)) (hne : properties ≠ []) :
    Json.Denotes (stringify properties) (.object (properties.map receivedProperty)) := by
  refine ⟨1, ?_⟩
  have hopen : Json.Scanner.init.run 1 ['{'] = some ⟨.beginStringOrEmpty, [.object [] ""]⟩ := rfl
  have hclose (members : List (String × Json)) : Json.scanAll 1 ⟨.endValue, [.object members ""]⟩
      ['}'] = some (.object members.reverse) := rfl
  rw [Json.parseWithin, stringify, String.toList_ofList, serializeJSONObject, Json.scanAll_append,
    Json.run_append, hopen, Option.bind_some, run_properties properties hne (.inl rfl),
    Option.bind_some, hclose, List.append_nil, List.reverse_reverse]

/-! ## The round trip -/

theorem decodeUnits_inr {unit : ℕ} {us : List (Char ⊕ ℕ)} (h : Json.isSurrogate unit = false) :
    Json.decodeUnits (.inr unit :: us) = Char.ofNat unit :: Json.decodeUnits us := by
  match us with
  | [] => simp [Json.decodeUnits, h]
  | .inl c :: us => simp [Json.decodeUnits, h]
  | .inr lo :: us => simp [Json.decodeUnits, h]

theorem getu4_control {n : ℕ} (h : n < 0x20) : Json.getu4 (Nat.digitChar (n / 4096 % 16))
    (Nat.digitChar (n / 256 % 16)) (Nat.digitChar (n / 16 % 16)) (Nat.digitChar (n % 16)) = n := by
  revert n
  decide

/-- A quoted character is one unit, and decodes to itself. -/
theorem units_quoteCodePoint (c : Char) (rest : List Char) :
    ∃ u, Json.units (quoteCodePoint (.char c) ++ rest) = u :: Json.units rest ∧
      ∀ us, Json.decodeUnits (u :: us) = c :: Json.decodeUnits us := by
  rcases quote_cases c with ⟨letter, heq, hletter, hunescape⟩ | ⟨heq, hcontrol⟩ |
    ⟨heq, _, hbackslash, _⟩
  · refine ⟨.inl c, ?_, fun us => rfl⟩
    have hu : letter ≠ 'u' := by
      rintro rfl
      exact absurd hletter (by decide)
    rw [heq, ← hunescape]
    simp [Json.units, hu]
  · refine ⟨.inr c.toNat, ?_, fun us => ?_⟩
    · rw [heq]
      exact congrArg (fun n => .inr n :: Json.units rest) (getu4_control hcontrol)
    · have hscalar : Json.isSurrogate c.toNat = false := by
        simp only [Json.isSurrogate, Bool.and_eq_false_iff, decide_eq_false_iff_not]
        omega
      rw [decodeUnits_inr hscalar, Char.ofNat_toNat]
  · refine ⟨.inl c, ?_, fun us => rfl⟩
    rw [heq]
    simp [Json.units, hbackslash]

theorem received_codePoints (s : String) : received (codePoints s) = s := by
  have hchars (l : List Char) : Json.unquote (quoted (l.map .char)) = l := by
    unfold Json.unquote
    induction l with
    | nil => rfl
    | cons c l ih =>
        obtain ⟨u, hunits, hdecode⟩ := units_quoteCodePoint c (quoted (l.map .char))
        rw [List.map_cons, quoted, List.flatMap_cons]
        exact (congrArg _ hunits).trans ((hdecode _).trans (congrArg _ ih))
  rw [received, codePoints, hchars, String.ofList_toList]

end Page
