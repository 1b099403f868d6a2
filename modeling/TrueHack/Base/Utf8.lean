-- SUMMARY: Bytes that are read as a text, whatever they are: what decodes, what is written for the rest, and how long it gets.
import Mathlib.Data.List.Basic

/-!
# Bytes as a text

Bytes need not be a text, and a text that is cut after some number of bytes can end
inside of a character. What decodes to nothing is replaced by a program that has to
write a text all the same: it writes one replacement character for each byte.
-/

namespace Utf8

open String (utf8EncodeChar)

/-- The bytes of a text. -/
def encode (cs : List Char) : List UInt8 := cs.flatMap utf8EncodeChar

/-- The character that the bytes begin with. -/
def decodeRune (bytes : List UInt8) : Option Char := bytes.toByteArray.utf8DecodeChar? 0

def replacement : Char := Char.ofNat 0xFFFD

/-- The characters of the bytes behind the first `skip`. -/
def replaced : ℕ → List UInt8 → List Char
  | _, [] => []
  | skip + 1, _ :: bytes => replaced skip bytes
  | 0, b :: bytes =>
      match decodeRune (b :: bytes) with
      | some c => c :: replaced (c.utf8Size - 1) bytes
      | none => replacement :: replaced 0 bytes

/-- The bytes as a text. -/
def toText (bytes : List UInt8) : String := String.ofList (replaced 0 bytes)

variable {c d : Char} {cs : List Char} {b : UInt8} {bytes rest : List UInt8} {k n : ℕ}

/-! ## Whole characters -/

theorem decodeRune_char (c : Char) (rest : List UInt8) :
    decodeRune (utf8EncodeChar c ++ rest) = some c := by
  rw [decodeRune, List.toByteArray_append]
  exact ByteArray.utf8DecodeChar?_utf8EncodeChar_append

theorem exists_of_decodeRune (h : decodeRune bytes = some c) :
    ∃ rest, bytes = utf8EncodeChar c ++ rest := by
  obtain ⟨l, hl⟩ := ByteArray.exists_of_utf8DecodeChar?_eq_some h
  have hdata := congrArg (fun array : ByteArray => array.data.toList) hl
  exact ⟨l.data.toList, by simpa using hdata⟩

theorem replaced_skip (bytes : List UInt8) (skip : ℕ) :
    replaced skip bytes = replaced 0 (bytes.drop skip) := by
  induction skip generalizing bytes with
  | zero => rfl
  | succ skip ih =>
      cases bytes with
      | nil => rfl
      | cons b bytes => exact ih bytes

theorem replaced_char (c : Char) (rest : List UInt8) :
    replaced 0 (utf8EncodeChar c ++ rest) = c :: replaced 0 rest := by
  have hlength := String.length_utf8EncodeChar c
  have hdecode := decodeRune_char c rest
  cases hc : utf8EncodeChar c with
  | nil => exact absurd hc String.utf8EncodeChar_ne_nil
  | cons b tail =>
      rw [hc] at hlength hdecode
      have htail : c.utf8Size - 1 = tail.length := by
        rw [← hlength]
        rfl
      rw [List.cons_append] at hdecode ⊢
      rw [replaced, hdecode]
      change c :: replaced (c.utf8Size - 1) (tail ++ rest) = _
      rw [htail, replaced_skip, List.drop_left]

theorem encode_cons (c : Char) (cs : List Char) :
    encode (c :: cs) = utf8EncodeChar c ++ encode cs :=
  List.flatMap_cons

/-- What is whole is read as it is, whatever follows. -/
theorem replaced_encode (cs : List Char) (rest : List UInt8) :
    replaced 0 (encode cs ++ rest) = cs ++ replaced 0 rest := by
  induction cs with
  | nil => rfl
  | cons c cs ih =>
      rw [encode_cons, List.append_assoc, replaced_char, ih]
      rfl

theorem replaced_whole (cs : List Char) : replaced 0 (encode cs) = cs := by
  simpa [replaced] using replaced_encode cs []

/-! ## Parts of characters -/

/-- Only the first byte of a character can be the first of one. -/
theorem isFirst_iff {b : UInt8} (h : (utf8EncodeChar c)[n]? = some b) :
    b.IsUTF8FirstByte ↔ n = 0 := by
  obtain ⟨hlt, rfl⟩ := List.getElem?_eq_some_iff.mp h
  exact UInt8.isUTF8FirstByte_getElem_utf8EncodeChar

theorem isFirst_of_decodeRune (h : decodeRune (b :: bytes) = some c) : b.IsUTF8FirstByte := by
  obtain ⟨rest, hrest⟩ := exists_of_decodeRune h
  refine (isFirst_iff (c := c) (n := 0) ?_).mpr rfl
  cases hc : utf8EncodeChar c with
  | nil => exact absurd hc String.utf8EncodeChar_ne_nil
  | cons w tail =>
      rw [hc] at hrest
      cases hrest
      rfl

/-- No character begins with another one. -/
theorem eq_of_begins (h : utf8EncodeChar d <+: utf8EncodeChar c) : c = d := by
  obtain ⟨rest, hrest⟩ := h
  have hc := decodeRune_char c []
  rw [List.append_nil, ← hrest, decodeRune_char] at hc
  exact (Option.some.inj hc).symm

theorem replaced_bad (h : decodeRune (b :: bytes) = none) :
    replaced 0 (b :: bytes) = replacement :: replaced 0 bytes := by
  rw [replaced, h]

/-- Bytes that begin no character are replaced one by one. -/
theorem replaced_continuations (hbytes : ∀ b ∈ bytes, ¬b.IsUTF8FirstByte) :
    replaced 0 bytes = List.replicate bytes.length replacement := by
  induction bytes with
  | nil => rfl
  | cons b bytes ih =>
      have hnone : decodeRune (b :: bytes) = none := by
        cases hdecode : decodeRune (b :: bytes) with
        | none => rfl
        | some c => exact absurd (isFirst_of_decodeRune hdecode) (hbytes b List.mem_cons_self)
      rw [replaced_bad hnone, ih fun b hb => hbytes b (List.mem_cons_of_mem _ hb)]
      rfl

/-- The first bytes of a character decode to nothing without the next one. -/
theorem decodeRune_part (hlt : k < c.utf8Size) :
    decodeRune ((utf8EncodeChar c).take k) = none := by
  have htake : ((utf8EncodeChar c).take k).length = k := by
    rw [List.length_take, String.length_utf8EncodeChar]
    omega
  cases hdecode : decodeRune ((utf8EncodeChar c).take k) with
  | none => rfl
  | some d =>
      obtain ⟨rest', heq⟩ := exists_of_decodeRune hdecode
      obtain rfl := eq_of_begins (((utf8EncodeChar d).prefix_append rest').trans
        (heq ▸ List.take_prefix k _))
      have hlength := congrArg List.length heq
      rw [htake, List.length_append, String.length_utf8EncodeChar] at hlength
      omega

/-- The first bytes of a character are replaced one by one. -/
theorem replaced_part (hlt : k < c.utf8Size) :
    replaced 0 ((utf8EncodeChar c).take k) = List.replicate k replacement := by
  cases hc : utf8EncodeChar c with
  | nil => exact absurd hc String.utf8EncodeChar_ne_nil
  | cons w tail =>
      cases k with
      | zero => rfl
      | succ k =>
          have htail : ∀ b ∈ tail.take k, ¬b.IsUTF8FirstByte := by
            intro b hb hfirst
            obtain ⟨n, hn⟩ := List.mem_iff_getElem?.mp (List.mem_of_mem_take hb)
            have hnth : (utf8EncodeChar c)[n + 1]? = some b := by
              rw [hc, List.getElem?_cons_succ, hn]
            exact absurd ((isFirst_iff hnth).mp hfirst) n.succ_ne_zero
          have hlength : (tail.take k).length = k := by
            have hsize := String.length_utf8EncodeChar c
            rw [hc, List.length_cons] at hsize
            rw [List.length_take]
            omega
          have hnone := decodeRune_part hlt
          rw [hc, List.take_succ_cons] at hnone
          rw [List.take_succ_cons, replaced_bad hnone, replaced_continuations htail, hlength]
          rfl

/-! ## Cuts -/

/-- A text that is cut after `n` bytes is some whole characters and a part of the next. -/
theorem take_encode (h : n < (encode cs).length) : ∃ kept c behind k, cs = kept ++ c :: behind ∧
    k < c.utf8Size ∧ (encode kept).length + k = n ∧
    (encode cs).take n = encode kept ++ (utf8EncodeChar c).take k := by
  induction cs generalizing n with
  | nil => cases h
  | cons c cs ih =>
      have hlength : (utf8EncodeChar c).length = c.utf8Size := String.length_utf8EncodeChar c
      rw [encode_cons, List.length_append] at h
      by_cases hn : n < c.utf8Size
      · refine ⟨[], c, cs, n, rfl, hn, Nat.zero_add n, ?_⟩
        rw [encode_cons, List.take_append_of_le_length (by omega)]
        rfl
      · obtain ⟨kept, c', behind, k, rfl, hk, hsum, htake⟩ := ih (n := n - c.utf8Size) (by omega)
        refine ⟨c :: kept, c', behind, k, rfl, hk, ?_, ?_⟩
        · simp only [encode, List.flatMap_cons, List.length_append] at hsum ⊢
          omega
        · rw [encode_cons, List.take_append, List.take_of_length_le (by omega), hlength, htake]
          simp [encode]

/-- A text that is cut: the character at the cut is replaced byte by byte. -/
theorem toText_take (h : n < (encode cs).length) :
    ∃ kept c behind k, cs = kept ++ c :: behind ∧ k < c.utf8Size ∧ (encode kept).length + k = n ∧
      toText ((encode cs).take n) = String.ofList (kept ++ List.replicate k replacement) := by
  obtain ⟨kept, c, behind, k, hcs, hk, hsum, htake⟩ := take_encode h
  refine ⟨kept, c, behind, k, hcs, hk, hsum, ?_⟩
  rw [toText, htake, replaced_encode, replaced_part hk]

/-- A whole text comes back. -/
theorem toText_encode (s : String) : toText (encode s.toList) = s := by
  rw [toText, replaced_whole, String.ofList_toList]

theorem length_encode (cs : List Char) :
    (encode cs).length = (String.ofList cs).utf8ByteSize := by
  induction cs with
  | nil => rfl
  | cons c cs ih =>
      have hsplit : String.ofList (c :: cs) = String.singleton c ++ String.ofList cs := by
        rw [← String.toList_inj]
        simp
      rw [encode_cons, hsplit, List.length_append, ih, String.utf8ByteSize_append,
        String.length_utf8EncodeChar, String.utf8ByteSize_singleton]

/-! ## Sizes -/

end Utf8
