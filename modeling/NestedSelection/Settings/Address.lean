import NestedSelection.Powers
import NestedSelection.Settings.Setting
import NestedSelection.Text.Hex

/-! # Addresses of settings

A name leads to an entry of the outermost table, and further names after dots and indices in
brackets lead on from there. What is in the way of an address gives way to tables and lists.
-/

namespace NestedSelection

namespace Setting

inductive Step where
  | child (name : String)
  /-- An item counted from the start of a list, or for a negative index from its end. -/
  | item (index : Int)
deriving DecidableEq, Repr

abbrev Address := List Step

/-- The place of an item in a list of so many. -/
def place (size : Nat) (index : Int) : Nat :=
  if index < 0 then size - index.natAbs else index.natAbs

/-- The items of a list that reaches to a place at least. -/
def itemsTo (x : Setting) (n : Nat) : List Setting :=
  x.items ++ List.replicate (n + 1 - x.items.length) .nil

/-- Lays a value over what is at an address; a list item is replaced. -/
def assign (value : Setting) : Address → Option Setting → Setting
  | [], base => overlay base value
  | .child name :: rest, base =>
    let x := base.getD .nil
    x.enter name (assign value rest (x.get? name.toLower))
  | .item index :: rest, base =>
    let x := base.getD .nil
    let n := place x.items.length index
    .list ((x.itemsTo n).modify n fun item =>
      if rest.isEmpty then value else assign value rest (some item))

namespace Address

def isNameChar (c : Char) : Bool := c.isAlphanum || c = ' ' || c = '_' || c = '-'

def isGap (c : Char) : Bool := c = ' ' || c = '\t'

/-- A name with at least one character. -/
def name (s : List Char) : Option (Piece String s) :=
  match s with
  | [] => none
  | c :: rest =>
    if isNameChar c then
      some ((Tail.skip isNameChar rest).behind (String.ofList (c :: rest.takeWhile isNameChar)) c)
    else none

/-- The number with these digits, one at least, if it has its place in 64 bits. -/
def index? (s : List Char) : Option Int := do
  let (negative, digits) := match s with
    | '-' :: rest => (true, rest)
    | t => (false, t)
  if digits.isEmpty || !digits.all Char.isDigit then none
  else
    let n := ofDigits 10 (digits.filterMap hexValue?)
    if negative then if n ≤ twoTo 63 then some (-n) else none
    else if n < twoTo 63 then some n else none

/-- An index, read after its opening bracket. Gaps may surround it. -/
def index (s : List Char) : Option (Piece Int s) :=
  let inside := s.takeWhile (· ≠ ']')
  match h : s.dropWhile (· ≠ ']') with
  | [] => none
  | c :: rest =>
    let trimmed := ((inside.dropWhile isGap).reverse.dropWhile isGap).reverse
    (index? trimmed).map fun n =>
      ⟨n, rest, by
        have := length_dropWhile_le (· ≠ ']') s
        rw [h] at this
        exact Nat.lt_of_succ_le this⟩

/-- The steps after the first. -/
def steps (s : List Char) : Option Address :=
  match s with
  | [] => some []
  | '.' :: rest =>
    match name rest with
    | none => none
    | some p =>
      have : p.rest.length < ('.' :: rest).length := Nat.lt_succ_of_lt p.shorter
      (steps p.rest).map (.child p.value :: ·)
  | '[' :: rest =>
    match index rest with
    | none => none
    | some p =>
      have : p.rest.length < ('[' :: rest).length := Nat.lt_succ_of_lt p.shorter
      (steps p.rest).map (.item p.value :: ·)
  | _ => none
termination_by s.length
decreasing_by all_goals exact this

def ofText? (s : String) : Option Address := do
  let p ← name s.toList
  let l ← steps p.rest
  return .child p.value :: l

/-- The address that a name stands for. A name that spells none stands for itself. -/
def ofName (s : String) : Address := (ofText? s).getD [.child s]

end Address

/-- Lays settings of one source over those of earlier ones. -/
def layer (base : Setting) (source : List (String × Setting)) : Setting :=
  source.foldl (fun x e => assign e.2 (Address.ofName e.1) (some x)) base

end Setting

end NestedSelection
