import NestedSelection.Text.Piece

/-! # Hexadecimal numbers

Digits of either case, and numbers of a fixed count of digits.
-/

namespace NestedSelection

def hexValue? (c : Char) : Option Nat :=
  if c.isDigit then some (c.toNat - '0'.toNat)
  else if 'a' ≤ c ∧ c ≤ 'f' then some (c.toNat - 'a'.toNat + 10)
  else if 'A' ≤ c ∧ c ≤ 'F' then some (c.toNat - 'A'.toNat + 10)
  else none

def ofDigits (base : Nat) (digits : List Nat) : Nat := digits.foldl (fun n d => n * base + d) 0

/-- A number of so many digits at the front of a text. -/
def hexNumber (count : Nat) (s : List Char) : Option (Nat × Tail s) :=
  let digits := s.take count
  if digits.length = count then
    (digits.mapM hexValue?).map fun values =>
      (ofDigits 16 values, .drop count s)
  else none

def charOfNumber? (n : Nat) : Option Char :=
  if n.isValidChar then some (Char.ofNat n) else none

end NestedSelection
