-- SUMMARY: Slices of strings in JSON: what a decoded struct holds in one, and how it is encoded.
import TrueHack.Go.Decode

/-!
# Slices in JSON

A slice that is `nil` is encoded as `null`, an empty one as an array. Unlike a
string or a number, a slice does not outlast a `null`: the last value of its name
decides, whatever it is.
-/

namespace Go

/-! ## Encoding -/

def Json.isArray : Json → Bool
  | .array _ => true
  | _ => false

/-- The member of an object. -/
def Json.member (name : String) : Json → Option Json
  | .object members => members.lookup name
  | _ => none

/-- A `[]string` as JSON. -/
def encodeStrings : Option (List String) → Json
  | none => .null
  | some elems => .array (elems.map .string)

theorem isArray_encodeStrings (slice : Option (List String)) :
    (encodeStrings slice).isArray = slice.isSome := by
  cases slice <;> rfl

/-! ## The last value of a slice -/

/-- The last value that the members give for `field`, a null included. -/
def lastNamed (field : String) (members : List (String × Json)) : Option Json :=
  (members.reverse.find? fun m => names m.1 field).map Prod.snd

theorem lastNamed_snoc (field : String) (members : List (String × Json)) (key : String)
    (v : Json) : lastNamed field (members ++ [(key, v)]) =
      if names key field then some v else lastNamed field members := by
  unfold lastNamed
  rw [List.reverse_append, List.reverse_singleton, List.singleton_append]
  cases hname : names key field with
  | true => simp [hname]
  | false => simp [hname]

/-- The members named `field` are stored into the slice `get` of the struct, which no
    other member touches. -/
structure SliceOf {S : Type} (member : S → String × Json → Option S) (field : String)
    (get : S → StringSlice) : Prop where
  stored : ∀ {s s' key v}, names key field = true → member s (key, v) = some s' →
    decodeStrings (get s) v = some (get s')
  kept : ∀ {s s' key v}, names key field = false → member s (key, v) = some s' → get s' = get s

/-- A slice that is stored is there exactly if the value is an array. -/
theorem decodeStrings_isSome {old slice : StringSlice} {v : Json}
    (h : decodeStrings old v = some slice) : slice.elems.isSome = v.isArray := by
  cases v with
  | null =>
      cases h
      rfl
  | array elems =>
      cases elems with
      | nil =>
          cases h
          rfl
      | cons v vs =>
          obtain ⟨decoded, _, hslice⟩ := Option.bind_eq_some_iff.mp h
          cases hslice
          rfl
  | bool | number | string | object => cases h

/-- After all members a slice is there exactly if its last value is an array. -/
theorem SliceOf.isSome {S : Type} {member : S → String × Json → Option S} {field : String}
    {get : S → StringSlice} (h : SliceOf member field get) {zero s : S}
    (hzero : (get zero).elems = none) {members : List (String × Json)}
    (hdecoded : members.foldlM member zero = some s) :
    (get s).elems.isSome = (lastNamed field members).any Json.isArray := by
  induction members using List.reverseRecOn generalizing s with
  | nil =>
      cases hdecoded
      rw [hzero]
      rfl
  | append_singleton members m ih =>
      obtain ⟨key, v⟩ := m
      rw [List.foldlM_append] at hdecoded
      obtain ⟨u, hbefore, hlast⟩ := Option.bind_eq_some_iff.mp hdecoded
      have hmember : member u (key, v) = some s := by simpa using hlast
      rw [lastNamed_snoc]
      cases hname : names key field with
      | true => exact decodeStrings_isSome (h.stored hname hmember)
      | false =>
          rw [h.kept hname hmember]
          exact ih hbefore

end Go
