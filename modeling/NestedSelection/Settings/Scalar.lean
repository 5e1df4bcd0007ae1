import NestedSelection.Powers
import NestedSelection.Yaml.Scalar

/-! # What YAML scalars mean in settings

The words for null and the truth values have one spelling each, integers have 64 bits and may
begin with zeros, and a number beyond the greatest is infinite. A tag that does not fit makes
null.
-/

namespace NestedSelection

namespace Setting

open Yaml (Scalar)

/-- The integer that a scalar writes in a base, with or without a sign. -/
def signed? (base : Nat) (s : List Char) : Option Scalar :=
  match s with
  | '-' :: rest => do
    let n ← Scalar.digits? base rest
    if n ≤ twoTo 63 then some (.negative n) else none
  | t => do
    let n ← Scalar.digits? base (match t with
      | '+' :: rest => rest
      | t => t)
    if n < twoTo 63 then some (.natural n) else none

/-- A number without a sign: a word for one that is not finite, or decimal digits. -/
def unsignedReal? (negative : Bool) (s : List Char) : Option Binary64.Extended :=
  let word := s.map Char.toLower
  if word = ['i', 'n', 'f'] || word = ['i', 'n', 'f', 'i', 'n', 'i', 't', 'y'] then
    some (.infinite negative)
  else if word = ['n', 'a', 'n'] then some .notANumber
  else
    (Scalar.decimalParts? s).map fun (digits, exponent) =>
      (Binary64.ofDecimal? negative digits exponent).elim (.infinite negative) .finite

def real? (s : List Char) : Option Binary64.Extended :=
  match s with
  | '-' :: rest => unsignedReal? true rest
  | '+' :: rest => unsignedReal? false rest
  | t => unsignedReal? false t

/-- Words that are known to be numbers that are not finite, and cannot be read for all that. -/
def isUnreadable (s : String) : Bool :=
  [".inf", ".Inf", ".INF", "+.inf", "+.Inf", "+.INF", "-.inf", "-.Inf", "-.INF", ".nan",
    ".NAN"].contains s

def basedInteger? (s : List Char) : Option Scalar :=
  match s with
  | '0' :: 'x' :: rest => signed? 16 rest
  | '0' :: 'o' :: rest => signed? 8 rest
  | '+' :: rest => signed? 10 rest
  | _ => none

def isNull (s : String) : Bool := s = "~" || s = "null"

def bool? (s : String) : Option Bool :=
  if s = "true" then some true else if s = "false" then some false else none

def plain? (s : String) : Option Scalar :=
  match basedInteger? s.toList with
  | some x => some x
  | none =>
    if s.isEmpty || isNull s then some .null
    else
      match bool? s with
      | some b => some (.bool b)
      | none =>
        match signed? 10 s.toList with
        | some x => some x
        | none =>
          if isUnreadable s then none
          else some ((real? s.toList).elim (.text s) .real)

def scalar? (tag : Option Yaml.Bytes) (isPlain : Bool) (s : String) : Option Scalar :=
  if !isPlain then some (.text s)
  else
    match tag with
    | none => plain? s
    | some tag =>
      if tag = Scalar.coreTag "bool" then some ((bool? s).elim .null .bool)
      else if tag = Scalar.coreTag "int" then some ((signed? 10 s.toList).getD .null)
      else if tag = Scalar.coreTag "float" then
        if isUnreadable s then none else some ((real? s.toList).elim .null .real)
      else if tag = Scalar.coreTag "null" then some .null
      else some (.text s)

def rules : Yaml.Rules := ⟨scalar?, fun _ => true⟩

end Setting

end NestedSelection
