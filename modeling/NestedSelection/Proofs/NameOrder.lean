import Mathlib.Data.List.Lex
import NestedSelection.NameSet

/-! # The order of names

Names are ordered by their code points. This is the order of their bytes in UTF-8 as well: of two
different characters the one with the larger number has the larger byte where their bytes first
differ, and the bytes of neither go on with those of the other.
-/

namespace NestedSelection

namespace Utf8

def bytes (s : String) : List UInt8 := s.toUTF8.data.toList

theorem bytes_eq (s : String) : bytes s = s.toList.flatMap String.utf8EncodeChar := by
  unfold bytes
  rw [String.toUTF8_eq_toByteArray, ← String.utf8Encode_toList, List.utf8Encode,
    List.toList_data_toByteArray]

section Bytes

variable {a b : Nat}

theorem ofNat_lt_ofNat_iff (ha : a < 256) (hb : b < 256) :
    UInt8.ofNat a < UInt8.ofNat b ↔ a < b := by
  rw [UInt8.lt_iff_toNat_lt, UInt8.toNat_ofNat_of_lt' ha, UInt8.toNat_ofNat_of_lt' hb]

theorem ofNat_eq_ofNat_iff (ha : a < 256) (hb : b < 256) :
    UInt8.ofNat a = UInt8.ofNat b ↔ a = b := by
  rw [← UInt8.toNat_inj, UInt8.toNat_ofNat_of_lt' ha, UInt8.toNat_ofNat_of_lt' hb]

end Bytes

/-- The bytes of two characters differ somewhere, so it does not matter what stands behind them. -/
theorem utf8EncodeChar_append_lt {c d : Char} (h : c < d) (x y : List UInt8) :
    String.utf8EncodeChar c ++ x < String.utf8EncodeChar d ++ y := by
  have hlt : c.val.toNat < d.val.toNat := h
  have hd : d.val.toNat < 0x110000 := by
    rcases d.valid with hd | ⟨-, hd⟩
    · exact Nat.lt_trans hd (by decide)
    · exact hd
  -- Each byte but the first one holds a digit to the base 64: these are split off one by one.
  have hdiv : ∀ k, k / 262144 = k / 64 / 64 / 64 ∧ k / 4096 = k / 64 / 64 := by omega
  unfold String.utf8EncodeChar
  generalize c.val.toNat = m at hlt ⊢
  generalize d.val.toNat = n at hlt hd ⊢
  simp only [hdiv]
  split_ifs <;>
    simp (disch := omega) only [List.cons_append, List.cons_lt_cons_iff, ofNat_lt_ofNat_iff,
      ofNat_eq_ofNat_iff] <;>
    omega

theorem flatMap_utf8EncodeChar_lt {l r : List Char} (h : l < r) :
    l.flatMap String.utf8EncodeChar < r.flatMap String.utf8EncodeChar := by
  induction h with
  | @nil c r =>
    obtain ⟨b, bs, hb⟩ := List.exists_cons_of_ne_nil (String.utf8EncodeChar_ne_nil (c := c))
    simp [hb]
  | rel h => simpa only [List.flatMap_cons] using utf8EncodeChar_append_lt h _ _
  | cons _ ih => simpa only [List.flatMap_cons] using List.append_left_lt ih

theorem bytes_lt_of_lt {s t : String} (h : s < t) : bytes s < bytes t := by
  rw [bytes_eq, bytes_eq]
  exact flatMap_utf8EncodeChar_lt (String.lt_iff.1 h)

end Utf8

namespace NameSet

theorem pairwise_bytes_lt (s : NameSet) :
    s.names.Pairwise fun a b => Utf8.bytes a < Utf8.bytes b :=
  s.ascending.imp Utf8.bytes_lt_of_lt

-- The last two characters would change places in the order of the units of UTF-16.
example : (ofList ["😀", "\uffff", "é", "a", "Z"]).names = ["Z", "a", "é", "\uffff", "😀"] := by
  decide

end NameSet

end NestedSelection
