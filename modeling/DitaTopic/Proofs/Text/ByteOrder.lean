import Mathlib.Tactic.SplitIfs

/-!
# The order of texts

Texts are ordered by their characters, and so are their bytes in UTF-8: of two characters the
greater one has the greater bytes, and no character begins with the bytes of another.
-/

namespace DitaTopic.Text

/-- The bytes of a text in UTF-8. -/
def utf8 (text : String) : List UInt8 := text.toUTF8.data.toList

theorem utf8_eq (text : String) : utf8 text = text.toList.flatMap String.utf8EncodeChar := by
  have hbytes : text.toUTF8 = (text.toList.flatMap String.utf8EncodeChar).toByteArray := by
    rw [String.toUTF8_eq_toByteArray, ← String.utf8Encode_toList, List.utf8Encode]
  rw [utf8, hbytes, List.toList_data_toByteArray]

theorem char_lt_size (c : Char) : c.toNat < 0x110000 := by
  have hvalid := c.valid
  simp only [UInt32.isValidChar, Nat.isValidChar] at hvalid
  show c.val.toNat < 0x110000
  omega

/-- Whatever follows them, the bytes of the greater character come later. -/
theorem encodeChar_lt {c d : Char} (h : c < d) (rest rest' : List UInt8) :
    String.utf8EncodeChar c ++ rest < String.utf8EncodeChar d ++ rest' := by
  have hlt : c.val.toNat < d.val.toNat := h
  have hsize : d.val.toNat < 0x110000 := char_lt_size d
  simp only [String.utf8EncodeChar]
  -- one case for each pair of lengths; where they differ the first bytes do
  split_ifs <;>
    simp (disch := omega) only [List.cons_append, List.nil_append, List.cons_lt_cons_iff,
      UInt8.lt_iff_toNat_lt, ← UInt8.toNat_inj, UInt8.toNat_ofNat', Nat.mod_eq_of_lt] <;>
    omega

theorem encode_lt {cs ds : List Char} (h : cs < ds) :
    cs.flatMap String.utf8EncodeChar < ds.flatMap String.utf8EncodeChar := by
  induction h with
  | @nil d ds =>
    cases hbytes : (d :: ds).flatMap String.utf8EncodeChar with
    | nil =>
      have hnil := List.flatMap_eq_nil_iff.mp hbytes d (List.mem_cons_self ..)
      exact absurd hnil String.utf8EncodeChar_ne_nil
    | cons => exact .nil
  | rel h =>
    rw [List.flatMap_cons, List.flatMap_cons]
    exact encodeChar_lt h _ _
  | cons _ ih =>
    rw [List.flatMap_cons, List.flatMap_cons]
    exact List.append_left_lt ih

theorem utf8_lt_of_lt {a b : String} (h : a < b) : utf8 a < utf8 b := by
  rw [utf8_eq, utf8_eq]
  exact encode_lt h

/-- One text comes before another or is the same if its bytes do. -/
theorem utf8_le_iff {a b : String} : utf8 a ≤ utf8 b ↔ a ≤ b := by
  constructor
  · intro h hlt
    exact h (utf8_lt_of_lt hlt)
  · intro h hlt
    by_cases hle : b ≤ a
    · obtain rfl := String.le_antisymm h hle
      exact List.lt_irrefl _ hlt
    · exact List.lt_asymm (utf8_lt_of_lt (Decidable.not_not.mp hle)) hlt

end DitaTopic.Text
