import NestedSelection.Binary64.Basic

/-! # Decimal text of binary64 numbers

`Binary64.shortest` finds the fewest decimal digits that round back to a number, and of those the
nearest. `Layout` decides how digits and exponent are written down.
-/

namespace NestedSelection

namespace Binary64

/-- A positive decimal number, `digits * 10 ^ exponent`. -/
structure Decimal where
  digits : Nat
  exponent : Int
deriving DecidableEq, Repr

/-- The greatest `e` with `10 ^ e ≤ num / den`, for positive `num` and `den`. -/
def floorLog10 (num den : Nat) : Int :=
  -- `1233 / 4096` is a little less than `log 2 / log 10`, so the guess is off by one at most
  let guess : Int := floorLog2 num den * 1233 / 4096
  let reaches (e : Int) : Bool := den * tenTo e.toNat ≤ num * tenTo (-e).toNat
  if reaches (guess + 1) then guess + 1
  else if reaches guess then guess
  else guess - 1

/--
The numbers that round to a given one lie between `(4 m - below) u` and `(4 m + 2) u`, for its
significand `m` and a quarter `u` of its unit; the ends belong to them if `m` is even. Below a
power of two the gap is half as wide.
-/
def gapBelow (x : Binary64) : Nat :=
  if x.significand = twoTo 52 ∧ x.exponent > -1074 then 1 else 2

/-- Whether `c * 10 ^ k` rounds to `x`, in exact arithmetic on quarters of the unit of `x`. -/
def isHit (x : Binary64) (c : Nat) (k : Int) : Bool :=
  let q := x.exponent - 2
  let value := c * tenTo k.toNat * twoTo (-q).toNat
  let unit := twoTo q.toNat * tenTo (-k).toNat
  let low := (4 * x.significand - gapBelow x) * unit
  let high := (4 * x.significand + 2) * unit
  if x.significand % 2 = 0 then low ≤ value && value ≤ high else low < value && value < high

/-- The decimal number of the grid `10 ^ k` that rounds to `x` and is nearest to it, if any. -/
def nearestOnGrid? (x : Binary64) (k : Int) : Option Decimal :=
  let num := x.numerator * tenTo (-k).toNat
  let den := x.denominator * tenTo k.toNat
  let below := num / den
  let nearest := roundHalfEven num den
  let other := if nearest = below then below + 1 else below
  if isHit x nearest k then some ⟨nearest, k⟩
  else if isHit x other k then some ⟨other, k⟩
  else none

def Decimal.trim (d : Decimal) : Decimal :=
  if h : d.digits % 10 = 0 ∧ d.digits ≠ 0 then trim ⟨d.digits / 10, d.exponent + 1⟩ else d
termination_by d.digits
decreasing_by exact Nat.div_lt_self (Nat.pos_of_ne_zero h.2) (by decide)

/--
The decimal number of fewest digits that rounds to a positive `x`; among several the nearest to
`x`. Seventeen digits always suffice.
-/
def shortest (x : Binary64) : Decimal :=
  let e := floorLog10 x.numerator x.denominator
  match (List.range 17).findSome? fun (n : Nat) => nearestOnGrid? x (e - n) with
  | some d => d.trim
  | none =>
    let num := x.numerator * tenTo (16 - e).toNat
    let den := x.denominator * tenTo (e - 16).toNat
    ⟨roundHalfEven num den, e - 16⟩

end Binary64

/-- How a decimal number is laid out as text. -/
structure Layout where
  /-- The scientific exponents from `low` to `high` are written with a plain point. -/
  low : Option Int
  high : Option Int
  /-- Whether a whole number written with a plain point ends in `.0`. -/
  wholePoint : Bool

namespace Layout

/-- Whole numbers keep `.0`; a signed exponent is written below `-5` and from `16` on. -/
def json : Layout := ⟨some (-5), some 15, true⟩

/-- Every digit is written out, and whole numbers have no point. -/
def plain : Layout := ⟨none, none, false⟩

def isPositional (l : Layout) (exponent : Int) : Bool :=
  l.low.all (· ≤ exponent) && l.high.all (exponent ≤ ·)

def whole (l : Layout) (digits : List Char) : List Char :=
  if l.wholePoint then digits ++ ['.', '0'] else digits

def magnitude (l : Layout) (d : Binary64.Decimal) : List Char :=
  let digits := Nat.toDigits 10 d.digits
  -- the number is `0.digits * 10 ^ point`
  let point : Int := digits.length + d.exponent
  if l.isPositional (point - 1) then
    if d.exponent ≥ 0 then l.whole (digits ++ List.replicate d.exponent.toNat '0')
    else if point > 0 then digits.take point.toNat ++ '.' :: digits.drop point.toNat
    else '0' :: '.' :: List.replicate (-point).toNat '0' ++ digits
  else
    let mantissa := match digits with
      | [] => []
      | [c] => [c]
      | c :: rest => c :: '.' :: rest
    let exponent := point - 1
    mantissa ++ 'e' :: (if exponent < 0 then '-' else '+') :: Nat.toDigits 10 exponent.natAbs

def chars (l : Layout) (x : Binary64) : List Char :=
  (if x.negative then ['-'] else []) ++
    if x.isZero then l.whole ['0'] else l.magnitude x.shortest

def render (l : Layout) (x : Binary64) : String := String.ofList (l.chars x)

end Layout

end NestedSelection
