import NestedSelection.Powers

/-! # Binary64 numbers

Finite binary64 numbers as a sign, a significand and a power of two, and the rounding of a ratio
of natural numbers to the nearest of them. All arithmetic is exact up to that one rounding.
-/

namespace NestedSelection

/--
A finite binary64 number, `± significand * 2 ^ exponent`. The significand is below `2 ^ 53`, and
at least `2 ^ 52` unless the exponent is the least one, `-1074`.
-/
structure Binary64 where
  negative : Bool
  significand : Nat
  exponent : Int
deriving DecidableEq, Repr

namespace Binary64

/-- The quotient rounded to the nearest natural number, a half going to the even neighbour. -/
def roundHalfEven (num den : Nat) : Nat :=
  let q := num / den
  let r := num % den
  if 2 * r < den then q
  else if den < 2 * r then q + 1
  else if q % 2 = 0 then q else q + 1

/-- The greatest `e` with `2 ^ e ≤ num / den`, for positive `num` and `den`. -/
def floorLog2 (num den : Nat) : Int :=
  let e : Int := (Nat.log2 num : Int) - Nat.log2 den
  if num * twoTo (-e).toNat < den * twoTo e.toNat then e - 1 else e

def zero (negative : Bool) : Binary64 := ⟨negative, 0, -1074⟩

/-- The number nearest to `± num / den`, unless that lies beyond the greatest finite number. -/
def nearest? (negative : Bool) (num den : Nat) : Option Binary64 :=
  if num = 0 then some (zero negative)
  else
    let q := max (floorLog2 num den - 52) (-1074)
    let m := roundHalfEven (num * twoTo (-q).toNat) (den * twoTo q.toNat)
    let x : Binary64 :=
      if m = twoTo 53 then ⟨negative, twoTo 52, q + 1⟩ else ⟨negative, m, q⟩
    if x.exponent ≤ 971 then some x else none

/--
The number nearest to `± digits * 10 ^ exponent`. Exponents far outside the range are settled by
the count of digits, so that no power of ten larger than needed is formed.
-/
def ofDecimal? (negative : Bool) (digits : Nat) (exponent : Int) : Option Binary64 :=
  if digits = 0 then some (zero negative)
  else
    let size : Int := Nat.log2 digits + 1
    -- `10 ^ exponent * 2 ^ (size - 1) ≤ |x| < 10 ^ exponent * 2 ^ size`
    if exponent > 310 then none
    else if exponent + (size * 1234) / 4096 + 1 < -330 then some (zero negative)
    else nearest? negative (digits * tenTo exponent.toNat) (tenTo (-exponent).toNat)

def numerator (x : Binary64) : Nat := x.significand * twoTo x.exponent.toNat

def denominator (x : Binary64) : Nat := twoTo (-x.exponent).toNat

def isZero (x : Binary64) : Bool := x.significand == 0

def mul? (x y : Binary64) : Option Binary64 :=
  nearest? (x.negative != y.negative) (x.numerator * y.numerator) (x.denominator * y.denominator)

/-- Division by a number other than zero. -/
def div? (x y : Binary64) : Option Binary64 :=
  nearest? (x.negative != y.negative) (x.numerator * y.denominator) (x.denominator * y.numerator)

/-- A binary64 datum: a finite number, an infinity, or no number at all. -/
inductive Extended where
  | finite (x : Binary64)
  | infinite (negative : Bool)
  | notANumber
deriving DecidableEq, Repr

end Binary64

end NestedSelection
