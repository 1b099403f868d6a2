-- SUMMARY: The text of an answer as json.Encoder writes it, and that whoever scans it reads the answer.
import TrueHack.Go.Print
import TrueHack.Page.Stringify
import TrueHack.Server.ReplyBody

/-!
# The text of an answer

The encoder escapes more than JSON asks for, so that an answer can stand in HTML. A
client that scans the text reads the answer all the same: every character of the
analysis, of each suggestion and of each metric.
-/

namespace Go

open Page (unicodeEscape)

/-! ## Strings -/

/-- The table `htmlSafeSet`. -/
def htmlSafe (c : Char) : Bool :=
  0x20 ≤ c.toNat && c.toNat < 0x80 && ! ['"', '&', '<', '>', '\\'].contains c

/-- What `appendString` appends for one character, with `escapeHTML`. -/
def appendChar (c : Char) : List Char :=
  if c.toNat < 0x80 then
    if htmlSafe c then [c]
    else if c = '\\' ∨ c = '"' then ['\\', c]
    else if c = Char.ofNat 8 then ['\\', 'b']
    else if c = Char.ofNat 12 then ['\\', 'f']
    else if c = '\n' then ['\\', 'n']
    else if c = '\r' then ['\\', 'r']
    else if c = '\t' then ['\\', 't']
    else ['\\', 'u', '0', '0'] ++ [c.toNat / 16, c.toNat % 16].map Nat.digitChar
  else if c = Char.ofNat 0x2028 ∨ c = Char.ofNat 0x2029 then
    ['\\', 'u', '2', '0', '2', Nat.digitChar (c.toNat % 16)]
  else [c]

variable {c : Char}

/-- The characters that are escaped by their codes. -/
def EscapedByCode (c : Char) : Prop :=
  c.toNat < 0x20 ∨ c.toNat ∈ [0x26, 0x3c, 0x3e, 0x2028, 0x2029]

/-- For an ASCII character the encoder writes the two high digits as zeros. -/
theorem unicodeEscape_ascii {n : ℕ} (h : n < 0x80) :
    unicodeEscape n = ['\\', 'u', '0', '0'] ++ [n / 16, n % 16].map Nat.digitChar := by
  have hfirst : n / 4096 % 16 = 0 := by omega
  have hsecond : n / 256 % 16 = 0 := by omega
  have hthird : n / 16 % 16 = n / 16 := by omega
  rw [unicodeEscape, hfirst, hsecond, hthird]
  rfl

theorem htmlSafe_cases (h : htmlSafe c = true) : c ≠ '"' ∧ c ≠ '\\' ∧ ¬c.toNat < 0x20 := by
  simp only [htmlSafe, Bool.and_eq_true, decide_eq_true_eq, Bool.not_eq_true',
    List.contains_eq_mem, decide_eq_false_iff_not, List.mem_cons, not_or] at h
  obtain ⟨⟨hcontrol, _⟩, hquote, _, _, _, hbackslash, _⟩ := h
  exact ⟨hquote, hbackslash, by omega⟩

theorem escapedByCode_of_escaped (hascii : c.toNat < 0x80) (hescaped : ¬htmlSafe c = true)
    (hplain : ¬(c = '\\' ∨ c = '"')) : EscapedByCode c := by
  by_cases hcontrol : c.toNat < 0x20
  · exact .inl hcontrol
  · simp only [htmlSafe, Bool.and_eq_true, decide_eq_true_eq, Bool.not_eq_true',
      List.contains_eq_mem, decide_eq_false_iff_not, not_and, not_not] at hescaped
    have hmem := hescaped ⟨by omega, hascii⟩
    simp only [List.mem_cons, List.not_mem_nil, or_false] at hmem
    rcases hmem with rfl | rfl | rfl | rfl | rfl
    · exact absurd (.inr rfl) hplain
    · exact .inr (by decide)
    · exact .inr (by decide)
    · exact .inr (by decide)
    · exact absurd (.inl rfl) hplain

/-- A character is escaped by a letter or by its code, or it stands for itself. -/
theorem append_cases (c : Char) :
    (∃ letter, appendChar c = ['\\', letter] ∧
      letter ∈ ['b', 'f', 'n', 'r', 't', '\\', '/', '"'] ∧ Json.unescape letter = c) ∨
    (appendChar c = unicodeEscape c.toNat ∧ EscapedByCode c) ∨
    (appendChar c = [c] ∧ c ≠ '"' ∧ c ≠ '\\' ∧ ¬c.toNat < 0x20) := by
  unfold appendChar
  split_ifs with hascii hsafe hplain hbackspace hfeed hline hreturn htab hseparator
  · exact .inr (.inr ⟨rfl, htmlSafe_cases hsafe⟩)
  · refine .inl ⟨c, rfl, ?_⟩
    rcases hplain with rfl | rfl <;> exact ⟨by simp, rfl⟩
  · exact .inl ⟨'b', rfl, by simp, hbackspace.symm⟩
  · exact .inl ⟨'f', rfl, by simp, hfeed.symm⟩
  · exact .inl ⟨'n', rfl, by simp, hline.symm⟩
  · exact .inl ⟨'r', rfl, by simp, hreturn.symm⟩
  · exact .inl ⟨'t', rfl, by simp, htab.symm⟩
  · exact .inr (.inl ⟨(unicodeEscape_ascii hascii).symm,
      escapedByCode_of_escaped hascii hsafe hplain⟩)
  · right; left
    rcases hseparator with rfl | rfl <;> exact ⟨by decide +kernel, .inr (by decide +kernel)⟩
  · refine .inr (.inr ⟨rfl, ?_, ?_, by omega⟩)
    · rintro rfl
      exact hascii (by decide)
    · rintro rfl
      exact hascii (by decide)

theorem getu4_escaped (h : EscapedByCode c) :
    Json.getu4 (Nat.digitChar (c.toNat / 4096 % 16)) (Nat.digitChar (c.toNat / 256 % 16))
      (Nat.digitChar (c.toNat / 16 % 16)) (Nat.digitChar (c.toNat % 16)) = c.toNat := by
  rcases h with hcontrol | hcode
  · exact Page.getu4_control hcontrol
  · have hall : ∀ n ∈ [0x26, 0x3c, 0x3e, 0x2028, 0x2029], Json.getu4 (Nat.digitChar (n / 4096 % 16))
        (Nat.digitChar (n / 256 % 16)) (Nat.digitChar (n / 16 % 16)) (Nat.digitChar (n % 16)) =
        n := by
      decide
    exact hall c.toNat hcode

/-- The encoder stays inside of a string literal, and what it writes stands for the
    character. -/
theorem quotes_appendChar : Json.Quotes appendChar where
  inside c limit isName raw stack := by
    rcases append_cases c with ⟨letter, heq, hletter, _⟩ | ⟨heq, _⟩ |
      ⟨heq, hquote, hbackslash, hcontrol⟩
    · rw [heq]
      exact Page.run_escape hletter
    · rw [heq]
      exact Page.run_unicodeEscape c.toNat
    · rw [heq]
      simp [Json.Scanner.run, Json.Scanner.step, Json.Scanner.flush, Json.Scanner.stepFlushed,
        Json.inString, hquote, hbackslash, hcontrol]
  unit c rest := by
    rcases append_cases c with ⟨letter, heq, hletter, hunescape⟩ | ⟨heq, hcode⟩ |
      ⟨heq, _, hbackslash, _⟩
    · refine ⟨.inl c, ?_, fun us => rfl⟩
      have hu : letter ≠ 'u' := by
        rintro rfl
        exact absurd hletter (by decide)
      rw [heq, ← hunescape]
      simp [Json.units, hu]
    · refine ⟨.inr c.toNat, ?_, fun us => ?_⟩
      · rw [heq]
        exact congrArg (fun n => .inr n :: Json.units rest) (getu4_escaped hcode)
      · have hscalar : Json.isSurrogate c.toNat = false := by
          simp only [EscapedByCode, List.mem_cons, List.not_mem_nil, or_false] at hcode
          simp only [Json.isSurrogate, Bool.and_eq_false_iff, decide_eq_false_iff_not]
          omega
        rw [Page.decodeUnits_inr hscalar, Char.ofNat_toNat]
    · refine ⟨.inl c, ?_, fun us => rfl⟩
      rw [heq]
      simp [Json.units, hbackslash]

end Go

namespace Chain.LLMResponse

open Go

/-! ## Answers -/

variable {formatFloat : ℚ → List Char} {v : LLMResponse}

/-- The body of an answer: `Encode` ends with a line feed. -/
def body (formatFloat : ℚ → List Char) (v : LLMResponse) : String :=
  String.ofList (Json.print appendChar (v.encode formatFloat) ++ ['\n'])

theorem printable_encodeStrings (slice : Option (List String)) :
    Json.Printable 1 (encodeStrings slice) := by
  cases slice with
  | none => exact .null
  | some elems =>
      refine .array fun v hv => ?_
      obtain ⟨s, _, rfl⟩ := List.mem_map.mp hv
      exact .string s

theorem printable_encode (hformat : ∀ q, Json.isNumber (formatFloat q) = true) (v : LLMResponse) :
    Json.Printable 2 (v.encode formatFloat) := by
  refine .object fun m hm => ?_
  simp only [List.mem_cons, List.not_mem_nil, or_false] at hm
  rcases hm with rfl | rfl | rfl | rfl
  · exact .string _
  · exact .number (hformat _)
  · exact printable_encodeStrings _
  · exact printable_encodeStrings _

/-- A client that scans the body reads the answer. -/
theorem parseWithin_body (hformat : ∀ q, Json.isNumber (formatFloat q) = true) (v : LLMResponse) :
    Json.parseWithin 2 (v.body formatFloat) = some (v.encode formatFloat) :=
  Json.parseWithin_print quotes_appendChar (printable_encode hformat v)
    (by simp [Json.isSpace])

/-! ## An answer as a reply -/

theorem decodeElems_encode (elems : List String) :
    decodeElems [] (elems.map .string) = some elems := by
  induction elems with
  | nil => rfl
  | cons s elems ih => simp [decodeElems, decodeString, ih]

theorem decodeStrings_encode (slice : Option (List String)) :
    decodeStrings .nil (encodeStrings slice) = some ⟨slice, []⟩ := by
  cases slice with
  | none => rfl
  | some elems =>
      cases elems with
      | nil => rfl
      | cons s elems =>
          change (decodeElems [] ((s :: elems).map .string)).bind _ = _
          rw [decodeElems_encode]
          rfl

/-- The members of an answer are stored one after the other. -/
theorem decode_encode (v : LLMResponse) {q : ℚ}
    (hvalue : parseFloat32 (formatFloat v.confidence) = some q) :
    decodeStruct Fields.member .zero (v.encode formatFloat) =
      some ⟨v.analysis, q, ⟨v.suggestions, []⟩, ⟨v.metrics, []⟩⟩ := by
  have hanalysis : Fields.zero.member ("analysis", .string v.analysis) =
      some ⟨v.analysis, 0, .nil, .nil⟩ := rfl
  have hconfidence : Fields.member ⟨v.analysis, 0, .nil, .nil⟩
      ("confidence", .number (formatFloat v.confidence)) =
      some ⟨v.analysis, q, .nil, .nil⟩ := by
    change (parseFloat32 (formatFloat v.confidence)).bind _ = _
    rw [hvalue]
    rfl
  have hsuggestions : Fields.member ⟨v.analysis, q, .nil, .nil⟩
      ("suggestions", encodeStrings v.suggestions) =
      some ⟨v.analysis, q, ⟨v.suggestions, []⟩, .nil⟩ := by
    change (decodeStrings .nil (encodeStrings v.suggestions)).bind _ = _
    rw [decodeStrings_encode]
    rfl
  have hmetrics : Fields.member ⟨v.analysis, q, ⟨v.suggestions, []⟩, .nil⟩
      ("relevant_metrics", encodeStrings v.metrics) =
      some ⟨v.analysis, q, ⟨v.suggestions, []⟩, ⟨v.metrics, []⟩⟩ := by
    change (decodeStrings .nil (encodeStrings v.metrics)).bind _ = _
    rw [decodeStrings_encode]
    rfl
  rw [LLMResponse.encode, decodeStruct]
  simp only [List.foldlM_cons, List.foldlM_nil, hanalysis, hconfidence, hsuggestions, hmetrics,
    Option.bind_eq_bind, Option.bind_some, Option.pure_def]

/-- A model that replies with the body of an answer gives that answer, its confidence as it is
    written there. -/
theorem parse_body (hformat : ∀ q, Json.isNumber (formatFloat q) = true) (v : LLMResponse) {q : ℚ}
    (hvalue : parseFloat32 (formatFloat v.confidence) = some q) :
    parseLLMResponse (v.body formatFloat) = { v with confidence := q } := by
  have hparse : Json.parse (v.body formatFloat) = some (v.encode formatFloat) :=
    Json.parseWithin_mono (v.parseWithin_body hformat) (by decide)
  have hunmarshal : unmarshalLLMResponse (v.body formatFloat) =
      some { v with confidence := q } := by
    rw [unmarshalLLMResponse, hparse]
    simp only [Option.bind_eq_bind, Option.bind_some, decode_encode v hvalue]
    rfl
  exact parse_of_unmarshal hunmarshal

end Chain.LLMResponse
