import NestedSelection.Json.Mismatch
import NestedSelection.Powers
import NestedSelection.Text.Piece

/-! # JSON numbers

`NumeralText` is a number as written: a sign, digits, perhaps a fraction and an exponent. Its
value is an integer where that fits 64 bits, and otherwise a binary64 number found in two rounded
steps: the leading digits that fit 64 bits, then one power of ten.
-/

namespace NestedSelection

namespace Json

/-- The value of a number: an integer of 64 bits or a binary64 number. -/
inductive Numeral where
  | integer (n : Int)
  | real (x : Binary64)
deriving DecidableEq, Repr

def Numeral.found : Numeral → Found
  | .integer n => .integer n
  | .real x => .real x

structure NumeralText where
  negative : Bool
  whole : List Char
  fraction : Option (List Char)
  /-- Whether the exponent is negative, and its digits. -/
  exponent : Option (Bool × List Char)

/-- What is missing at the end of a text is the rest of it; elsewhere the text is malformed. -/
def missing (s : List Char) : ReadError := if s.isEmpty then .endOfText else .malformed

/-- Digits with no needless leading zero. -/
def wholePart (s : List Char) : Except ReadError (Piece (List Char) s) :=
  match s with
  | [] => .error .endOfText
  | c :: rest =>
    if c = '0' then
      if rest.head?.any Char.isDigit then .error .malformed
      else .ok ((Tail.whole rest).behind [c] c)
    else if c.isDigit then
      .ok ((Tail.skip Char.isDigit rest).behind (c :: rest.takeWhile Char.isDigit) c)
    else .error .malformed

def someDigits (s : List Char) : Except ReadError (Piece (List Char) s) :=
  match s with
  | [] => .error .endOfText
  | c :: rest =>
    if c.isDigit then
      .ok ((Tail.skip Char.isDigit rest).behind (c :: rest.takeWhile Char.isDigit) c)
    else .error .malformed

def fractionPart (s : List Char) : Except ReadError (Option (List Char) × Tail s) :=
  match s with
  | '.' :: rest => (someDigits rest).map fun p => (some p.value, (p.behind '.').tail)
  | t => .ok (none, .whole t)

def exponentSign : (s : List Char) → Bool × Tail s
  | '+' :: rest => (false, .after '+' rest)
  | '-' :: rest => (true, .after '-' rest)
  | s => (false, .whole s)

def exponentPart (s : List Char) : Except ReadError (Option (Bool × List Char) × Tail s) :=
  match s with
  | c :: rest =>
    if c = 'e' ∨ c = 'E' then
      let (negative, after) := exponentSign rest
      (someDigits after.rest).map fun p =>
        (some (negative, p.value), ((p.widen after.noLonger).behind c).tail)
    else .ok (none, .whole (c :: rest))
  | [] => .ok (none, .whole [])

/-- The number at the front of a text, after its sign. -/
def unsignedText (negative : Bool) (s : List Char) : Except ReadError (Piece NumeralText s) := do
  let whole ← wholePart s
  let (fraction, afterFraction) ← fractionPart whole.rest
  let (exponent, afterExponent) ← exponentPart afterFraction.rest
  return (whole.shorten (afterFraction.trans afterExponent)).map fun digits =>
    ⟨negative, digits, fraction, exponent⟩

/-- The number at the front of a text that starts with a minus sign or a digit. -/
def numeralText (s : List Char) : Except ReadError (Piece NumeralText s) :=
  match s with
  | '-' :: rest => (unsignedText true rest).map (·.behind '-')
  | t => unsignedText false t

namespace NumeralText

def digitValue (c : Char) : Nat := c.toNat - '0'.toNat

/-- A number in the making: its leading digits, as far as they fit 64 bits, and a power of ten. -/
structure Lead where
  significand : Nat
  exponent : Int

/-- Whether one more digit would take the significand out of 64 bits. -/
def Lead.isFull (lead : Lead) (c : Char) : Bool :=
  twoTo 64 ≤ lead.significand * 10 + digitValue c

/-- The digits before the point. Once one does not fit, it and all later ones only count. -/
def Lead.ofWhole : Lead → List Char → Lead
  | lead, [] => lead
  | lead, c :: rest =>
    if lead.isFull c then ⟨lead.significand, lead.exponent + (rest.length + 1)⟩
    else ofWhole ⟨lead.significand * 10 + digitValue c, lead.exponent⟩ rest

/-- The digits after the point. Once one does not fit, it and all later ones are dropped. -/
def Lead.addFraction : Lead → List Char → Lead
  | lead, [] => lead
  | lead, c :: rest =>
    if lead.isFull c then lead
    else addFraction ⟨lead.significand * 10 + digitValue c, lead.exponent - 1⟩ rest

def powerOfTen (n : Nat) : Binary64 :=
  (Binary64.nearest? false (tenTo n) 1).getD (Binary64.zero false)

/--
Scaling by a power of ten in rounded steps: one multiplication, or divisions by at most `10 ^ 308`
each. There is no result beyond the greatest finite number.
-/
def scale? (x : Binary64) (exponent : Int) : Option Binary64 :=
  if x.isZero then some x
  else if 308 < exponent then none
  else if 0 ≤ exponent then x.mul? (powerOfTen exponent.toNat)
  else if h : -308 ≤ exponent then x.div? (powerOfTen (-exponent).toNat)
  else (x.div? (powerOfTen 308)).bind (scale? · (exponent + 308))
termination_by (-exponent).toNat
decreasing_by omega

/-- The greatest exponent that is told from a greater one. -/
def exponentBound : Nat := twoTo 31 - 1

def ofLead? (negative : Bool) (lead : Lead) : Option Numeral := do
  let x ← Binary64.nearest? false lead.significand 1
  let y ← scale? x lead.exponent
  return .real { y with negative }

def natOfDigits (digits : List Char) : Nat := digits.foldl (fun n c => n * 10 + digitValue c) 0

/-- The value, unless it lies beyond the greatest finite number. -/
def value? (t : NumeralText) : Option Numeral :=
  let whole := Lead.ofWhole ⟨0, 0⟩ t.whole
  let lead := match t.fraction with
    | some digits => whole.addFraction digits
    | none => whole
  match t.exponent with
  | some (negative, digits) =>
    let e := natOfDigits digits
    if exponentBound < e then
      if lead.significand ≠ 0 ∧ !negative then none
      else some (.real (Binary64.zero t.negative))
    else ofLead? t.negative
      ⟨lead.significand, if negative then lead.exponent - e else lead.exponent + e⟩
  | none =>
    if t.fraction.isSome ∨ whole.exponent ≠ 0 then ofLead? t.negative lead
    else if !t.negative then some (.integer whole.significand)
    else if 0 < whole.significand ∧ whole.significand ≤ twoTo 63 then
      some (.integer (-whole.significand))
    else ofLead? true whole

end NumeralText

def numeral (s : List Char) : Except ReadError (Piece Numeral s) := do
  let t ← numeralText s
  match t.value.value? with
  | some n => return ⟨n, t.rest, t.shorter⟩
  | none => throw .malformed

end Json

end NestedSelection
