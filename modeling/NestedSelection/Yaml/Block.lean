import NestedSelection.Yaml.Fold

/-! # Block scalars

Scalars that are told from the rest of the text by their indentation. Their line ends are kept or
folded, and those at the end are stripped, clipped to one, or kept.
-/

namespace NestedSelection

namespace Yaml

inductive Chomping where
  | strip
  | clip
  | keep
deriving DecidableEq, Repr

structure BlockHeader where
  chomping : Chomping := .clip
  /-- How much deeper than its parent the scalar is indented, if that is told. -/
  increment : Option Nat := none

/-- The marks after the first one of a block scalar, in either order. -/
def blockMarks (s : List Spot) : Option (BlockHeader × Tail s) :=
  let chomping (c : Char) : Option Chomping :=
    if c = '+' then some .keep else if c = '-' then some .strip else none
  let increment (c : Char) : Option Nat := if c.isDigit then some (c.toNat - '0'.toNat) else none
  let found : BlockHeader × Tail s :=
    match s with
    | [] => ({}, .whole [])
    | p :: rest =>
      match chomping p.char, increment p.char with
      | some c, _ =>
        match rest with
        | q :: next =>
          match increment q.char with
          | some n => (⟨c, some n⟩, ((Tail.after q next).behind () p).tail)
          | none => (⟨c, none⟩, .after p (q :: next))
        | [] => (⟨c, none⟩, .after p [])
      | none, some n =>
        match rest with
        | q :: next =>
          match chomping q.char with
          | some c => (⟨c, some n⟩, ((Tail.after q next).behind () p).tail)
          | none => (⟨.clip, some n⟩, .after p (q :: next))
        | [] => (⟨.clip, some n⟩, .after p [])
      | none, none => ({}, .whole (p :: rest))
  if found.1.increment = some 0 then none else some found

/-- What is met before a line of a block scalar. -/
structure BlockBreaks where
  breaks : List Char
  /-- The widest indentation met. -/
  widest : Nat

/--
The indentation of a line and the blank lines before it. Spaces beyond a known indentation belong
to the line; tabs may not stand before it.
-/
def blockBreaks (indent : Option Nat) (widest : Nat) :
    (s : List Spot) → Option (BlockBreaks × Tail s)
  | [] => some (⟨[], widest⟩, .whole [])
  | p :: rest =>
    let before := indent.all (p.column < ·)
    if before && p.char = ' ' then
      (blockBreaks indent (max widest (p.column + 1)) rest).map fun (b, t) =>
        (b, (t.behind () p).tail)
    else if before && p.char = '\t' then none
    else if isBreak p.char then
      (blockBreaks indent (max widest p.column) rest).map fun (b, t) =>
        (⟨p.char :: b.breaks, b.widest⟩, (t.behind () p).tail)
    else some (⟨[], max widest p.column⟩, .whole (p :: rest))

structure BlockText where
  /-- The text up to the last line, in reverse. -/
  before : List Char := []
  /-- The end of the last line. -/
  lineEnd : Option Char := none
  /-- The ends of the blank lines after it. -/
  blank : List Char
  /-- Whether the last line starts with a gap. Such lines are not folded. -/
  indented : Bool := false

namespace BlockText

/-- What stands between the last line and the next one. -/
def joint (b : BlockText) (isLiteral nextIndented : Bool) : List Char :=
  if !isLiteral && b.lineEnd = some '\n' && !b.indented && !nextIndented then
    if b.blank.isEmpty then [' '] else b.blank
  else b.lineEnd.toList ++ b.blank

/-- The text with as many line ends as the chomping leaves. -/
def finish (b : BlockText) (chomping : Chomping) : List Char :=
  b.before.reverse ++ match chomping with
    | .strip => []
    | .clip => b.lineEnd.toList
    | .keep => b.lineEnd.toList ++ b.blank

end BlockText

/-- The lines of a block scalar. -/
def blockLines {s₀ : List Spot} (isLiteral : Bool) (indent : Nat) (b : BlockText) (s : List Spot)
    (h : s.length ≤ s₀.length) : Option (BlockText × Tail s₀) :=
  match s with
  | [] => some (b, ⟨[], h⟩)
  | p :: rest =>
    if p.column = indent then
      let line := p.char :: takeChars (fun c => !isBreak c) rest
      let before := line.reverse ++ (b.joint isLiteral (isGap p.char)).reverse ++ b.before
      match skipLine rest with
      | ⟨[], _⟩ => some (⟨before, none, [], isGap p.char⟩, ⟨[], Nat.zero_le _⟩)
      | ⟨q :: next, ht⟩ =>
        match blockBreaks (some indent) 0 next with
        | none => none
        | some (breaks, u) =>
          have : u.rest.length < (p :: rest).length :=
            Nat.lt_succ_of_le (Nat.le_trans u.noLonger (Nat.le_of_succ_le ht))
          blockLines isLiteral indent ⟨before, some q.char, breaks.breaks, isGap p.char⟩ u.rest
            (Nat.le_trans (Nat.le_of_lt this) h)
    else some (b, ⟨p :: rest, h⟩)
termination_by s.length
decreasing_by exact this

/--
A block scalar, read after its first mark. The scalar is indented deeper than the column of its
parent, if it has one.
-/
def blockText (isLiteral : Bool) (parent : Option Nat) (s : List Spot) :
    Option (List Char × Tail s) := do
  let (header, t) ← blockMarks s
  let u ← blankLineEnd t.rest
  let known := header.increment.map fun n => parent.getD 0 + n
  let (first, v) ← blockBreaks known 0 u.rest
  let least := parent.elim 0 (· + 1)
  let indent := known.getD (max (max first.widest least) 1)
  let (b, w) ← blockLines isLiteral indent { blank := first.breaks } v.rest (length_le_self v.rest)
  return (b.finish header.chomping, ((t.trans u).trans v).trans w)

def block (isLiteral : Bool) (parent : Option Nat) : Reader (List Char) := fun s =>
  match s with
  | [] => none
  | p :: rest => (blockText isLiteral parent rest).map fun (text, t) => t.behind text p

end Yaml

end NestedSelection
