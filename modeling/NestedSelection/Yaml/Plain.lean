import NestedSelection.Yaml.Fold

/-! # Plain scalars

Scalars without quotes. What ends them depends on whether they stand in brackets or braces.
-/

namespace NestedSelection

namespace Yaml

def isBracket (c : Char) : Bool := c = '[' || c = ']' || c = '\x7b' || c = '\x7d'

def endsPlain (inFlow : Bool) (c : Char) (rest : List Spot) : Bool :=
  isGap c || isBreak c || (c = ':' && endsWord rest) || (inFlow && (c = ',' || isBracket c))

/-- Whether a colon may not stand where it does: in brackets, right before another mark. -/
def isColonMisplaced (inFlow : Bool) (c : Char) (rest : List Spot) : Bool :=
  inFlow && c = ':' && match rest with
    | [] => false
    | p :: _ => p.char = ',' || p.char = '?' || isBracket p.char

/-- The word at the front of a text, which may be empty. -/
def plainWord (inFlow : Bool) : (s : List Spot) → Option (List Char × Tail s)
  | [] => some ([], .whole [])
  | p :: rest =>
    if endsPlain inFlow p.char rest then some ([], .whole (p :: rest))
    else if isColonMisplaced inFlow p.char rest then none
    else (plainWord inFlow rest).map fun (word, t) => (p.char :: word, (t.behind () p).tail)

/-- A plain scalar, and whether the gap after it crossed a line. -/
structure PlainText where
  chars : List Char
  crossedLine : Bool

/-- Whether no further word of a plain scalar can start at a spot. -/
def stopsPlain (inFlow : Bool) (indent : Nat) (p : Spot) (rest : List Spot) : Bool :=
  isDocumentMark (p :: rest) || p.char = '#' || (!inFlow && p.column < indent) ||
    endsPlain inFlow p.char rest

/-- The rest of a plain scalar after a word of it. The text read before is in reverse. -/
def plainRest {s₀ : List Spot} (inFlow : Bool) (indent : Nat) (before : List Char)
    (s : List Spot) (h : s.length ≤ s₀.length) : Option (PlainText × Tail s₀) :=
  match gap indent s with
  | none => none
  | some (g, ⟨[], ht⟩) => some (⟨before.reverse, g.isAcross⟩, ⟨[], Nat.le_trans ht h⟩)
  | some (g, ⟨p :: rest, ht⟩) =>
    if stopsPlain inFlow indent p rest then
      some (⟨before.reverse, g.isAcross⟩, ⟨p :: rest, Nat.le_trans ht h⟩)
    else if isColonMisplaced inFlow p.char rest then none
    else
      match plainWord inFlow rest with
      | none => none
      | some (word, u) =>
        have : u.rest.length < s.length := Nat.lt_of_le_of_lt u.noLonger ht
        plainRest inFlow indent (word.reverse ++ p.char :: g.chars.reverse ++ before) u.rest
          (Nat.le_trans (Nat.le_of_lt this) h)
termination_by s.length

def plain (inFlow : Bool) (indent : Nat) : Reader PlainText := fun s =>
  match s with
  | [] => none
  | p :: rest => do
    let (word, t) ← plainWord inFlow rest
    let (text, u) ← plainRest inFlow indent (p.char :: word).reverse t.rest t.noLonger
    return u.behind text p

end Yaml

end NestedSelection
