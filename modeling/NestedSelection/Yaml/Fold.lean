import NestedSelection.Yaml.Spot

/-! # Folded lines

A scalar may go on over several lines. Of the gap between two of its words only the spaces are
kept if it is within a line; across lines, one line end becomes a space and each further one stays.
-/

namespace NestedSelection

namespace Yaml

/-- What stands between two words of a scalar. -/
inductive Gap where
  | within (spaces : List Char)
  /-- The first line end, unless it was escaped, and the further ones. -/
  | across (first : Option Char) (more : List Char)

namespace Gap

def chars : Gap → List Char
  | .within spaces => spaces
  | .across first more =>
    if first = some '\n' then if more.isEmpty then [' '] else more
    else first.toList ++ more

def isAcross : Gap → Bool
  | .within _ => false
  | .across _ _ => true

end Gap

/--
The line ends in a gap that has crossed a line. Tabs may not stand in the columns before `indent`.
-/
def gapBreaks (indent : Nat) : (s : List Spot) → Option (List Char × Tail s)
  | [] => some ([], .whole [])
  | p :: rest =>
    if isBreak p.char then
      (gapBreaks indent rest).map fun (more, t) => (p.char :: more, (t.behind () p).tail)
    else if p.char = ' ' || (p.char = '\t' && indent ≤ p.column) then
      (gapBreaks indent rest).map fun (more, t) => (more, (t.behind () p).tail)
    else if p.char = '\t' then none
    else some ([], .whole (p :: rest))

/-- The gap at the front of a text, which may be empty. -/
def gap (indent : Nat) (s : List Spot) : Option (Gap × Tail s) :=
  let t := skipGap s
  match t.rest, t.noLonger with
  | p :: rest, h =>
    if isBreak p.char then
      (gapBreaks indent rest).map fun (more, u) => (.across (some p.char) more,
        ⟨u.rest, Nat.le_trans u.noLonger (Nat.le_of_succ_le h)⟩)
    else some (.within (takeChars isGap s), ⟨p :: rest, h⟩)
  | [], h => some (.within (takeChars isGap s), ⟨[], h⟩)

end Yaml

end NestedSelection
