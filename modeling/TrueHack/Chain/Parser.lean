-- SUMMARY: The parser of the model's replies: JSON first, and otherwise what regular expressions find.
import TrueHack.Base.Regex
import TrueHack.Go.Decode

/-!
# Parsing a reply of the model

`parseLLMResponse` takes a reply that is a JSON document as it is. Any other
text is the analysis itself, and confidence, suggestions and metrics are picked
out of it by their markers.
-/

namespace Chain

open Go

/-- `LLMResponse`. A slice that is `nil` is `none`; the confidence is exact. -/
structure LLMResponse where
  analysis : String
  confidence : ℚ
  suggestions : Option (List String)
  metrics : Option (List String)
deriving DecidableEq

/-- An `LLMResponse` while its members are stored. -/
structure LLMResponse.Fields where
  analysis : String
  confidence : ℚ
  suggestions : StringSlice
  metrics : StringSlice

namespace LLMResponse

/-- The zero value. -/
def Fields.zero : Fields := ⟨"", 0, .nil, .nil⟩

/-- One member of the reply's object. -/
def Fields.member (fields : Fields) (m : String × Json) : Option Fields := do
  let (key, v) := m
  if names key "analysis" then
    let analysis ← decodeString fields.analysis v
    some { fields with analysis := analysis }
  else if names key "confidence" then
    let confidence ← decodeFloat32 fields.confidence v
    some { fields with confidence := confidence }
  else if names key "suggestions" then
    let suggestions ← decodeStrings fields.suggestions v
    some { fields with suggestions := suggestions }
  else if names key "relevant_metrics" then
    let metrics ← decodeStrings fields.metrics v
    some { fields with metrics := metrics }
  else some fields

def Fields.toResponse (fields : Fields) : LLMResponse :=
  ⟨fields.analysis, fields.confidence, fields.suggestions.elems, fields.metrics.elems⟩

end LLMResponse

/-- `json.Unmarshal` into an `LLMResponse`. -/
def unmarshalLLMResponse (response : String) : Option LLMResponse := do
  let v ← Json.parse response
  let fields ← decodeStruct LLMResponse.Fields.member .zero v
  some fields.toResponse

/-! ## The fallback -/

/-- `\s` -/
def isPatternSpace (c : Char) : Bool :=
  c = '\t' || c = '\n' || c = Char.ofNat 12 || c = '\r' || c = ' '

/-- `[^\n]` -/
def notNewline (c : Char) : Bool := c ≠ '\n'

/-- `[0-9.]` -/
def isDigitOrDot (c : Char) : Bool := c.isDigit || c = '.'

/-- `marker:?\s*(class+)` -/
def markerRegex (marker : String) (cls : Char → Bool) : List Regex.Item :=
  Regex.literal marker ++ [.opt (· = ':'), .star isPatternSpace, .plus cls]

def confidenceRegex : List Regex.Item := markerRegex "confidence" isDigitOrDot

def suggestionRegex : List Regex.Item := markerRegex "suggestion" notNewline

def metricRegex : List Regex.Item := markerRegex "metric" notNewline

/-- The text of the group. -/
def captured (m : Regex.Match) : List Char := m.pieces.getLastD []

/-- `fmt.Sscanf(text, "%f", _)` on digits and dots: it takes digits and at most one dot.
    Where these are no number, nothing is stored. -/
def scanFloat (text : List Char) : Option ℚ :=
  let int := text.takeWhile Char.isDigit
  let frac := match text.dropWhile Char.isDigit with
    | '.' :: rest => rest.takeWhile Char.isDigit
    | _ => []
  if int.isEmpty && frac.isEmpty then none else parseFloat32 (int ++ '.' :: frac)

/-- `unicode.IsSpace` -/
def isSpace (c : Char) : Bool :=
  let n := c.toNat
  (9 ≤ n && n ≤ 13) || n = 0x20 || n = 0x85 || n = 0xA0 || n = 0x1680 ||
    (0x2000 ≤ n && n ≤ 0x200A) || n = 0x2028 || n = 0x2029 || n = 0x202F || n = 0x205F ||
    n = 0x3000

/-- `strings.TrimSpace` -/
def trimSpace (text : List Char) : List Char := (text.dropWhile isSpace).rdropWhile isSpace

/-- `strings.TrimPrefix` -/
def trimPrefix (text beginning : List Char) : List Char :=
  if beginning.isPrefixOf text then text.drop beginning.length else text

/-- `FindAllString` and the loop that strips `marker:` from each match; without a match
    the slice is `nil`. -/
def findMarked (regex : List Regex.Item) (marker response : String) : Option (List String) :=
  match Regex.findAll regex response with
  | [] => none
  | ms => some (ms.map fun m =>
      String.ofList (trimSpace (trimPrefix m.text (marker ++ ":").toList)))

/-- The default confidence. -/
def defaultConfidence : ℚ := 0.8

/-- `parseLLMResponse`; it never returns an error. -/
def parseLLMResponse (response : String) : LLMResponse :=
  match unmarshalLLMResponse response with
  | some llmResp => llmResp
  | none => {
      analysis := response
      confidence := match Regex.find confidenceRegex response with
        | some m => (scanFloat (captured m)).getD defaultConfidence
        | none => defaultConfidence
      suggestions := findMarked suggestionRegex "suggestion" response
      metrics := findMarked metricRegex "metric" response }

end Chain
