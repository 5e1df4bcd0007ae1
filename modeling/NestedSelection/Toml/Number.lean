import NestedSelection.Binary64.Basic
import NestedSelection.Document
import NestedSelection.Powers
import NestedSelection.Toml.Token

/-! # TOML numbers

Integers of 64 bits in four bases, and binary64 numbers. Single underscores may stand between
digits.
-/

namespace NestedSelection

namespace Toml

/-- Digits at the front of a text, before each of which an underscore may stand. -/
def moreDigits (isDigit : Char → Bool) : (s : List Char) → List Char × Tail s
  | [] => ([], .whole [])
  | '_' :: d :: rest =>
    if isDigit d then
      let (digits, t) := moreDigits isDigit rest
      (d :: digits, ((t.behind () d).behind '_').tail)
    else ([], .whole ('_' :: d :: rest))
  | c :: rest =>
    if isDigit c then
      let (digits, t) := moreDigits isDigit rest
      (c :: digits, (t.behind () c).tail)
    else ([], .whole (c :: rest))

def someDigits (isDigit : Char → Bool) : Reader (List Char) := fun s =>
  match s with
  | [] => none
  | c :: rest =>
    if isDigit c then
      let (digits, t) := moreDigits isDigit rest
      some (t.behind (c :: digits) c)
    else none

/-- A sign, if there is one: whether it is a minus sign, and what is left. -/
def sign (s : List Char) : Bool × Tail s :=
  match s with
  | '-' :: rest => (true, .after '-' rest)
  | '+' :: rest => (false, .after '+' rest)
  | t => (false, .whole t)

/-- Decimal digits with no needless leading zero. -/
def wholePart : Reader (List Char) := fun s =>
  match s with
  | '0' :: rest => some ((Tail.whole rest).behind ['0'] '0')
  | t => someDigits Char.isDigit t

def digitsValue (base : Nat) (digits : List Char) : Nat :=
  ofDigits base (digits.map fun c => (hexValue? c).getD 0)

/-- An integer, unless it takes more than 64 bits. -/
def integer64 (negative : Bool) (n : Nat) : Option Document :=
  if negative then if n ≤ twoTo 63 then some (.integer (-n)) else none
  else if n < twoTo 63 then some (.integer n) else none

def decimalInteger : Reader Document := fun s => do
  let (negative, t) := sign s
  let p ← wholePart t.rest
  let d ← integer64 negative (digitsValue 10 p.value)
  return (p.map fun _ => d).widen t.noLonger

/-- An integer in another base, read after the zero and the letter that tell the base. -/
def basedInteger (base : Nat) (isDigit : Char → Bool) : Reader Document := fun s => do
  let p ← someDigits isDigit s
  let d ← integer64 false (digitsValue base p.value)
  return p.map fun _ => d

def integer : Reader Document := fun s =>
  match s with
  | '0' :: 'x' :: rest =>
    (basedInteger 16 (fun c => (hexValue? c).isSome) rest).map fun p => (p.behind 'x').behind '0'
  | '0' :: 'o' :: rest =>
    (basedInteger 8 (fun c => '0' ≤ c && c ≤ '7') rest).map fun p => (p.behind 'o').behind '0'
  | '0' :: 'b' :: rest =>
    (basedInteger 2 (fun c => c = '0' || c = '1') rest).map fun p => (p.behind 'b').behind '0'
  | t => decimalInteger t

def fractionPart (s : List Char) : Option (List Char × Tail s) :=
  match s with
  | '.' :: rest =>
    (someDigits Char.isDigit rest).map fun p => (p.value, (p.behind '.').tail)
  | t => some ([], .whole t)

def exponentPart (s : List Char) : Option (Int × Tail s) :=
  match s with
  | c :: rest =>
    if c = 'e' || c = 'E' then
      let (negative, t) := sign rest
      (someDigits Char.isDigit t.rest).map fun p =>
        let n : Int := digitsValue 10 p.value
        (if negative then -n else n, ((p.widen t.noLonger).behind c).tail)
    else some (0, .whole (c :: rest))
  | [] => some (0, .whole [])

/--
The number nearest to a decimal number. Beyond the greatest finite number there is an infinity on
the negative side only.
-/
def nearestReal (negative : Bool) (digits : List Char) (exponent : Int) : Option Document :=
  match Binary64.ofDecimal? negative (digitsValue 10 digits) exponent with
  | some x => some (.real (.finite x))
  | none => if negative then some (.real (.infinite true)) else none

/-- A number with a fraction or an exponent. -/
def decimalReal : Reader Document := fun s => do
  let (negative, t) := sign s
  let whole ← wholePart t.rest
  let (fraction, afterFraction) ← fractionPart whole.rest
  let (exponent, afterExponent) ← exponentPart afterFraction.rest
  if afterExponent.rest.length = whole.rest.length then none
  else
    let d ← nearestReal negative (whole.value ++ fraction) (exponent - fraction.length)
    return (((whole.map fun _ => d).shorten afterFraction).shorten afterExponent).widen t.noLonger

/-- An infinity or no number at all. -/
def specialReal : Reader Document := fun s =>
  let (negative, t) := sign s
  let value : Reader Binary64.Extended := fun s =>
    word (.infinite negative) 'i' ['n', 'f'] s <|> word .notANumber 'n' ['a', 'n'] s
  (value t.rest).map fun p => (p.map .real).widen t.noLonger

def number : Reader Document := fun s =>
  decimalReal s <|> specialReal s <|> integer s

end Toml

end NestedSelection
