-- SUMMARY: Decoding JSON values into the fields of a Go struct.
import Mathlib.Algebra.Order.Field.Rat
import TrueHack.Go.Json
import TrueHack.Go.Time

/-!
# Decoding into structs

`json.Unmarshal` walks the members of an object in order and stores each into the
field it names, whatever the case of the letters. A member that fits no field is
skipped, and a value of the wrong type makes the whole decoding fail. What a
field held before shows through a `null`.
-/

namespace Go

/-! ## Field names -/

/-- `foldRune`, as far as a character can fold into ASCII: beside the lower-case letters
    that is the long s and the Kelvin sign. -/
def foldRune (c : Char) : Char :=
  if 'a' ≤ c ∧ c ≤ 'z' then c.toUpper
  else if c = Char.ofNat 0x17F then 'S'
  else if c = Char.ofNat 0x212A then 'K'
  else c

/-- `foldName` -/
def foldName (name : String) : List Char := name.toList.map foldRune

/-- The member `key` is stored in the field `field`. -/
def names (key field : String) : Bool := foldName key = foldName field

/-! ## Numbers -/

/-- The exact value of a decimal literal. -/
def decimal (literal : List Char) : ℚ :=
  let (sign, rest) := match literal with
    | '-' :: rest => ((-1 : ℚ), rest)
    | rest => (1, rest)
  let int := rest.takeWhile Char.isDigit
  let rest := rest.dropWhile Char.isDigit
  let (frac, rest) := match rest with
    | '.' :: rest => (rest.takeWhile Char.isDigit, rest.dropWhile Char.isDigit)
    | rest => ([], rest)
  let exp : ℤ := match rest with
    | _ :: '-' :: digits => -atoi digits
    | _ :: '+' :: digits => atoi digits
    | _ :: digits => atoi digits
    | [] => 0
  sign * atoi (int ++ frac) * 10 ^ (exp - frac.length)

/-- `strconv.ParseFloat(literal, 32)` on a literal with a digit in it. The value is kept
    exact; it is out of range when it rounds to an infinity. -/
def parseFloat32 (literal : List Char) : Option ℚ :=
  let x := decimal literal
  if |x| < 2 ^ 128 - 2 ^ 103 then some x else none

/-! ## Fields -/

/-- A value stored into a `string` field that holds `old`. -/
def decodeString (old : String) : Json → Option String
  | .string s => some s
  | .null => some old
  | _ => none

/-- A value stored into a `float32` field that holds `old`. -/
def decodeFloat32 (old : ℚ) : Json → Option ℚ
  | .number literal => parseFloat32 literal
  | .null => some old
  | _ => none

/-- A `[]string`: its elements, or `none` for `nil`, and what its backing array still
    holds behind them. -/
structure StringSlice where
  elems : Option (List String)
  spare : List String
deriving DecidableEq

namespace StringSlice

/-- The zero value. -/
def nil : StringSlice := ⟨none, []⟩

/-- `len(s)` is zero, or the elements in order. -/
def toList (s : StringSlice) : List String := s.elems.getD []

end StringSlice

/-- The elements of an array stored over the memory `mem` of a slice; a `null` leaves the
    string that is there. -/
def decodeElems : List String → List Json → Option (List String)
  | _, [] => some []
  | mem, v :: vs => do
      let s ← decodeString (mem.headD "") v
      let rest ← decodeElems mem.tail vs
      some (s :: rest)

/-- A value stored into a `[]string` field that holds `old`. -/
def decodeStrings (old : StringSlice) : Json → Option StringSlice
  | .array [] => some ⟨some [], []⟩
  | .array vs => do
      let mem := old.toList ++ old.spare
      let elems ← decodeElems mem vs
      some ⟨some elems, mem.drop elems.length⟩
  | .null => some .nil
  | _ => none

/-- A value stored into a struct, one member after the other; `null` leaves the struct
    alone. -/
def decodeStruct {S : Type} (member : S → String × Json → Option S) (zero : S) :
    Json → Option S
  | .object members => members.foldlM member zero
  | .null => some zero
  | _ => none

/-! ## What is left in a field -/

/-- A member is stored in one field at most. -/
theorem not_names_of_names {key field : String} (field' : String) (h : names key field = true)
    (hne : foldName field ≠ foldName field') : names key field' = false := by
  unfold names at h ⊢
  rw [of_decide_eq_true h]
  exact decide_eq_false hne

def Json.isNull : Json → Bool
  | .null => true
  | _ => false

/-- The last value that the members store in `field`; a null stores nothing. -/
def lastValue (field : String) : List (String × Json) → Option Json
  | [] => none
  | (key, v) :: members =>
      match lastValue field members with
      | some w => some w
      | none => if names key field && !v.isNull then some v else none

/-- The members named `field` are decoded by `decode` into the part `get` of the struct,
    which no other member touches. -/
structure FieldOf {S α : Type} (member : S → String × Json → Option S) (field : String)
    (get : S → α) (decode : α → Json → Option α) : Prop where
  stored : ∀ {s s' key v}, names key field = true → member s (key, v) = some s' →
    decode (get s) v = some (get s')
  kept : ∀ {s s' key v}, names key field = false → member s (key, v) = some s' → get s' = get s
  null : ∀ a, decode a .null = some a
  overwrites : ∀ a b {v}, v.isNull = false → decode a v = decode b v

variable {S α : Type} {member : S → String × Json → Option S} {field : String} {get : S → α}
  {decode : α → Json → Option α} {members : List (String × Json)} {s s' : S}

theorem isNull_of_lastValue {v : Json} (h : lastValue field members = some v) :
    v.isNull = false := by
  induction members with
  | nil => cases h
  | cons m members ih =>
      unfold lastValue at h
      split at h
      · rename_i w hw
        cases h
        exact ih hw
      · obtain ⟨hm, h⟩ := Option.ite_none_right_eq_some.mp h
        cases h
        simpa using (Bool.and_eq_true_iff.mp hm).2

/-- The last value makes `b` of `a`; without one `a` stays. -/
def Becomes (decode : α → Json → Option α) (a b : α) : Option Json → Prop
  | none => b = a
  | some v => decode a v = some b

/-- One member. -/
theorem FieldOf.becomes_first (h : FieldOf member field get decode) {key : String} {v : Json}
    (hfirst : member s (key, v) = some s') :
    Becomes decode (get s) (get s') (if names key field && !v.isNull then some v else none) := by
  cases hname : names key field with
  | false => exact h.kept hname hfirst
  | true =>
      have hstored := h.stored hname hfirst
      cases v with
      | null => exact Option.some.inj (hstored.symm.trans (h.null _))
      | bool | number | string | array | object => exact hstored

/-- A decoded struct has in the field what the last value is decoded to. -/
theorem FieldOf.becomes (h : FieldOf member field get decode)
    (hdecoded : members.foldlM member s = some s') :
    Becomes decode (get s) (get s') (lastValue field members) := by
  induction members generalizing s with
  | nil =>
      cases hdecoded
      rfl
  | cons m members ih =>
      obtain ⟨key, v⟩ := m
      rw [List.foldlM_cons] at hdecoded
      obtain ⟨u, hfirst, hrest⟩ := Option.bind_eq_some_iff.mp hdecoded
      have hlater := ih hrest
      unfold lastValue
      cases hlast : lastValue field members with
      | some w =>
          rw [hlast] at hlater
          exact (h.overwrites _ _ (isNull_of_lastValue hlast)).trans hlater
      | none =>
          rw [hlast] at hlater
          have hsame : get s' = get u := hlater
          rw [hsame]
          exact h.becomes_first hfirst

end Go
