/-
  FlatBundle.Proofs.ByteOrder
  ───────────────────────────
  **TEXTS IN THE ORDER OF THEIR BYTES.**

  The definitions sort texts by code points, a program sorts them by the bytes they are
  stored as.  UTF-8 writes a higher code point with more bytes, or with a higher byte where
  two characters first differ, so the two orders are one:

    • `lex_utf8EncodeChar`: two characters are told apart inside their own bytes, whatever
      is written after them,
    • `lex_flatMap`: so the bytes of two texts are ordered as the characters are,
    • `bytesBefore_iff`: and the order of bytes is the order of the definitions.
-/
import Mathlib.Data.List.Lex

namespace FlatBundle

/-- The bytes that a text is stored as. -/
def utf8 (text : String) : List UInt8 := text.toByteArray.data.toList

/-- The bytes of one text are before those of another, the first byte that differs deciding. -/
def BytesBefore (first second : String) : Prop := List.Lex (· < ·) (utf8 first) (utf8 second)

/-! ## §1. The bytes of a character -/

/-- A text is stored as the bytes of its characters, one character after the other. -/
theorem utf8_eq_flatMap (text : String) :
    utf8 text = text.toList.flatMap String.utf8EncodeChar := by
  have stored : text.toByteArray = text.toList.utf8Encode := by
    rw [← String.toByteArray_ofList, String.ofList_toList]
  rw [utf8, stored]
  simp [List.utf8Encode]

/-- Numbers below 256 are in the order of the bytes they are written as. -/
theorem lex_ofNat_cons {a b : Nat} {bytes bytes' : List UInt8} (ha : a < 256) (hb : b < 256)
    (le : a ≤ b) (rest : a = b → List.Lex (· < ·) bytes bytes') :
    List.Lex (· < ·) (UInt8.ofNat a :: bytes) (UInt8.ofNat b :: bytes') := by
  rw [List.cons_lex_cons_iff, UInt8.lt_iff_toNat_lt, UInt8.toNat_ofNat_of_lt' ha,
    UInt8.toNat_ofNat_of_lt' hb]
  by_cases same : a = b
  · exact Or.inr ⟨by rw [same], rest same⟩
  · exact Or.inl (by omega)

/-- **Two characters are told apart inside their own bytes**: one to four of them for each,
the first one higher where there are more. -/
theorem lex_utf8EncodeChar {c d : Char} (less : c < d) (rest rest' : List UInt8) :
    List.Lex (· < ·) (String.utf8EncodeChar c ++ rest) (String.utf8EncodeChar d ++ rest') := by
  have below : c.val.toNat < d.val.toNat := less
  have scalar : d.val.toNat < 1114112 := by
    have valid := d.valid
    simp only [UInt32.isValidChar, Nat.isValidChar] at valid
    omega
  rw [String.utf8EncodeChar.eq_1 c, String.utf8EncodeChar.eq_1 d]
  generalize c.val.toNat = v at *
  generalize d.val.toNat = w at *
  -- the sixteen pairs of lengths: in ten the bytes decide, in six `c` would be the longer
  split_ifs <;>
    repeat refine lex_ofNat_cons (by omega) (by omega) (by omega) fun _ => ?_
  all_goals exfalso; omega

/-! ## §2. The bytes of a text -/

/-- Texts in the order of their characters are in the order of their bytes. -/
theorem lex_flatMap {chars chars' : List Char} (less : List.Lex (· < ·) chars chars') :
    List.Lex (· < ·) (chars.flatMap String.utf8EncodeChar)
      (chars'.flatMap String.utf8EncodeChar) := by
  induction less with
  | nil =>
    rename_i d chars'
    have some : String.utf8EncodeChar d ≠ [] := String.utf8EncodeChar_ne_nil
    obtain ⟨byte, bytes, written⟩ := List.exists_cons_of_ne_nil some
    rw [List.flatMap_nil, List.flatMap_cons, written]
    exact List.Lex.nil
  | cons _ ih =>
    rw [List.flatMap_cons, List.flatMap_cons]
    exact List.Lex.append_left _ ih _
  | rel h =>
    rw [List.flatMap_cons, List.flatMap_cons]
    exact lex_utf8EncodeChar h _ _

/-- **The order of bytes is the order of code points.** -/
theorem bytesBefore_iff {first second : String} : BytesBefore first second ↔ first < second := by
  have forward : ∀ {first second : String}, first < second → BytesBefore first second := by
    intro first second less
    rw [BytesBefore, utf8_eq_flatMap, utf8_eq_flatMap]
    exact lex_flatMap (String.lt_iff.1 less)
  refine ⟨fun before => ?_, forward⟩
  by_contra notLess
  -- otherwise the second text is not after the first, in either order
  by_cases same : first = second
  · subst same
    exact List.lex_irrefl (fun byte => UInt8.lt_irrefl byte) _ before
  · have after : second < first := String.not_le.1 fun le =>
      notLess (String.not_le.1 fun ge => same (String.le_antisymm le ge))
    exact List.lex_asymm UInt8.lt_asymm before (forward after)

end FlatBundle
