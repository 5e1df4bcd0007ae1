import NestedSelection.Text.Piece

/-! # UTF-8

Bytes are read as a list of characters and of errors: each error is the longest run of bytes that
starts a character and does not complete it. A strict reading allows no errors, a lenient one puts
a replacement character in the place of each.
-/

namespace NestedSelection

namespace Utf8

/-- What a first byte tells of its character. -/
structure Lead where
  /-- How many bytes follow. -/
  count : Nat
  /-- The range of the next one of them. -/
  low : Nat := 0x80
  high : Nat := 0xbf
  /-- The bits of the number found so far. -/
  bits : Nat

def lead? (b : Nat) : Option Lead :=
  if b < 0x80 then some { count := 0, bits := b }
  else if b < 0xc2 then none
  else if b < 0xe0 then some { count := 1, bits := b - 0xc0 }
  else if b = 0xe0 then some { count := 2, low := 0xa0, bits := 0 }
  else if b = 0xed then some { count := 2, high := 0x9f, bits := 0xd }
  else if b < 0xf0 then some { count := 2, bits := b - 0xe0 }
  else if b = 0xf0 then some { count := 3, low := 0x90, bits := 0 }
  else if b < 0xf4 then some { count := 3, bits := b - 0xf0 }
  else if b = 0xf4 then some { count := 3, high := 0x8f, bits := 4 }
  else none

/-- The number of a character, if the bytes that should follow do. -/
def complete : Nat → Nat → Nat → Nat → (s : List UInt8) → Option Nat × Tail s
  | 0, _, _, bits, s => (some bits, .whole s)
  | _ + 1, _, _, _, [] => (none, .whole [])
  | count + 1, low, high, bits, b :: rest =>
    if low ≤ b.toNat ∧ b.toNat ≤ high then
      let (n, t) := complete count 0x80 0xbf (bits * 64 + (b.toNat - 0x80)) rest
      (n, (t.behind () b).tail)
    else (none, .whole (b :: rest))

/-- The characters that bytes spell, with nothing in the place of each error. -/
def read (s : List UInt8) : List (Option Char) :=
  match s with
  | [] => []
  | b :: rest =>
    match lead? b.toNat with
    | none => none :: read rest
    | some l =>
      match complete l.count l.low l.high l.bits rest with
      | (n, t) =>
        have : t.rest.length < (b :: rest).length := Nat.lt_succ_of_le t.noLonger
        n.map Char.ofNat :: read t.rest
termination_by s.length
decreasing_by
  · exact Nat.lt_succ_self _
  · exact this

def strict? (b : ByteArray) : Option String := ((read b.data.toList).mapM id).map String.ofList

/-- The text that bytes spell, with a replacement character for each error. -/
def lenient (b : ByteArray) : String :=
  String.ofList ((read b.data.toList).map (·.getD '\ufffd'))

end Utf8

end NestedSelection
