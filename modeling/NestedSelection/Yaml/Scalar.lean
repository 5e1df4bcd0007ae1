import NestedSelection.Document
import NestedSelection.Powers
import NestedSelection.Text.Hex
import NestedSelection.Yaml.Node

/-! # What YAML scalars mean

A scalar is null, a truth value, a number or text. A plain one tells by its form, any other is
text; a tag may ask for one of the kinds.
-/

namespace NestedSelection

namespace Yaml

inductive Scalar where
  | null
  | bool (b : Bool)
  | natural (n : Nat)
  /-- A number with a minus sign. -/
  | negative (magnitude : Nat)
  | real (x : Binary64.Extended)
  | text (s : String)
deriving DecidableEq, Repr

namespace Scalar

def document : Scalar → Document
  | .null => .null
  | .bool b => .bool b
  | .natural n => .integer n
  | .negative n => .integer (-n)
  | .real x => .real x
  | .text s => .text s

def key : Scalar → Document.Key
  | .text s => .name s
  | .natural n => .position n
  | _ => .other

def isNull (s : String) : Bool := ["~", "null", "Null", "NULL"].contains s

def bool? (s : String) : Option Bool :=
  if ["true", "True", "TRUE"].contains s then some true
  else if ["false", "False", "FALSE"].contains s then some false
  else none

/-- The number with these digits, one at least, all below the base. -/
def digits? (base : Nat) (digits : List Char) : Option Nat := do
  let values ← digits.mapM hexValue?
  if values.isEmpty || values.any (base ≤ ·) then none else some (ofDigits base values)

/-- Several digits, the first of them a zero. They are no number. -/
def isZeroLed (digits : List Char) : Bool :=
  match digits with
  | '0' :: rest => !rest.isEmpty && rest.all Char.isDigit
  | _ => false

/-- A number without a sign, in one of four bases. -/
def natural? (s : List Char) : Option Nat :=
  match s with
  | '0' :: 'x' :: rest => digits? 16 rest
  | '0' :: 'o' :: rest => digits? 8 rest
  | '0' :: 'b' :: rest => digits? 2 rest
  | t => if isZeroLed t then none else digits? 10 t

/-- What integers are found in a scalar. Those of more than 64 bits have no place in a document. -/
inductive IntegerForm where
  | fits (x : Scalar)
  | tooLarge
  | none

/--
The integer that a scalar writes. Beyond 128 bits it is no integer any more, so that it may still
be read as another number.
-/
def integer (s : List Char) : IntegerForm :=
  match s with
  | '-' :: rest =>
    match natural? rest with
    | some n =>
      if n ≤ twoTo 63 then .fits (.negative n) else if n ≤ twoTo 127 then .tooLarge else .none
    | none => .none
  | t =>
    let unsigned := match t with
      | '+' :: rest => rest
      | t => t
    match natural? unsigned with
    | some n =>
      if n < twoTo 64 then .fits (.natural n) else if n < twoTo 128 then .tooLarge else .none
    | none => .none

/-- The exponent of a number: a sign, if there is one, and digits. -/
def exponent? (s : List Char) : Option Int :=
  match s with
  | '-' :: rest => (digits? 10 rest).map fun n => -n
  | '+' :: rest => (digits? 10 rest).map fun n => n
  | t => (digits? 10 t).map fun n => n

/--
A decimal number without a sign: digits with at most one point, and perhaps an exponent. The parts
are all digits and the power of ten that they are multiplied by.
-/
def decimalParts? (s : List Char) : Option (Nat × Int) := do
  let isMark (c : Char) : Bool := c = 'e' || c = 'E'
  let mantissa := s.takeWhile fun c => !isMark c
  let exponent ← match s.dropWhile fun c => !isMark c with
    | [] => some 0
    | _ :: rest => exponent? rest
  let whole := mantissa.takeWhile (· ≠ '.')
  let fraction := (mantissa.dropWhile (· ≠ '.')).drop 1
  let digits ← digits? 10 (whole ++ fraction)
  return (digits, exponent - fraction.length)

def decimal? (negative : Bool) (s : List Char) : Option Binary64 := do
  let (digits, exponent) ← decimalParts? s
  Binary64.ofDecimal? negative digits exponent

def real? (s : String) : Option Binary64.Extended :=
  if [".inf", ".Inf", ".INF", "+.inf", "+.Inf", "+.INF"].contains s then some (.infinite false)
  else if ["-.inf", "-.Inf", "-.INF"].contains s then some (.infinite true)
  else if [".nan", ".NaN", ".NAN"].contains s then some .notANumber
  else
    (match s.toList with
    | '-' :: rest => decimal? true rest
    | '+' :: rest => decimal? false rest
    | t => decimal? false t).map .finite

def isZeroLedText (s : List Char) : Bool :=
  match s with
  | '-' :: rest => isZeroLed rest
  | '+' :: rest => isZeroLed rest
  | t => isZeroLed t

def plain? (s : String) : Option Scalar :=
  if s.isEmpty || isNull s then some .null
  else
    match bool? s with
    | some b => some (.bool b)
    | none =>
      match integer s.toList with
      | .fits x => some x
      | .tooLarge => none
      | .none =>
        if isZeroLedText s.toList then some (.text s)
        else some ((real? s).elim (.text s) .real)

/-- The tags for which a scalar must have a certain form, by their last part. -/
def coreTag (name : String) : Bytes := bytesOf "tag:yaml.org,2002:" ++ bytesOf name

/-- Whether a tag is one of the document's own, which say nothing that is known here. -/
def isLocal (tag : Bytes) : Bool :=
  tag.head? == some '!'.toNat.toUInt8 && (String.fromUTF8? ⟨tag.toArray⟩).isSome

/-- What a scalar means, unless its tag asks for another form. -/
def read? (tag : Option Bytes) (isPlain : Bool) (s : String) : Option Scalar :=
  match tag with
  | none => if isPlain then plain? s else some (.text s)
  | some tag =>
    if isLocal tag then none
    else if tag = coreTag "bool" then (bool? s).map .bool
    else if tag = coreTag "int" then
      match integer s.toList with
      | .fits x => some x
      | _ => none
    else if tag = coreTag "float" then (real? s).map .real
    else if tag = coreTag "null" then if isNull s then some .null else none
    else if tag.head? = some '!'.toNat.toUInt8 && isPlain then plain? s
    else some (.text s)

end Scalar

/-- What scalars mean, and which tags a container may have. -/
structure Rules where
  scalar? : Option Bytes → (isPlain : Bool) → String → Option Scalar
  allowsTag : Bytes → Bool

/-- The rules for documents. -/
def Rules.core : Rules := ⟨Scalar.read?, fun tag => !Scalar.isLocal tag⟩

end Yaml

end NestedSelection
