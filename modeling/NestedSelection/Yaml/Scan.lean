import NestedSelection.Yaml.Block
import NestedSelection.Yaml.Plain
import NestedSelection.Yaml.Quoted
import NestedSelection.Yaml.Token

/-! # From places to tokens

Whether something is the key of a mapping is known only at the colon after it. So a place is left
open before whatever may be a key, and filled in at the colon. The columns of the open block
collections tell when they end.

A text that cannot be scanned to its end gives the tokens up to the first place that may still
become a key, without the token that ends all texts.
-/

namespace NestedSelection

namespace Yaml

/-- A place before something that may turn out to be a key. -/
structure OpenPlace where
  number : Nat
  line : Nat
  column : Nat
  /-- Whether a key must stand there, since the line starts at the column of an open mapping. -/
  required : Bool

/-- What has been scanned: a token, or a place that may have been filled in since. -/
inductive Item where
  | token (t : Token)
  | place (number : Nat)

structure Scan where
  /-- The items scanned, the last one first. -/
  items : List Item := []
  places : Nat := 0
  /-- The places before keys, with whether a mapping starts there. -/
  filled : List (Nat × Bool) := []
  /-- The columns of the open block collections, the innermost first. -/
  columns : List Nat := []
  /-- The open place at this level of brackets and braces. -/
  current : Option OpenPlace := none
  /-- The open places at the levels around it, the innermost first. -/
  outer : List (Option OpenPlace) := []
  keyAllowed : Bool := true

namespace OpenPlace

/-- A key must be on one line and not too long. -/
def isStale (k : OpenPlace) (p : Spot) : Bool :=
  k.line < p.line || k.column + 1024 < p.column

/-- An open place once a spot is reached. There is none if a required key is missing. -/
def settle? (k : Option OpenPlace) (p : Spot) : Option (Option OpenPlace) :=
  match k with
  | none => some none
  | some k =>
    if k.isStale p then if k.required then none else some none
    else some (some k)

end OpenPlace

namespace Scan

def inFlow (st : Scan) : Bool := !st.outer.isEmpty

def push (st : Scan) (t : Token) : Scan := { st with items := .token t :: st.items }

/-- Closes the block collections that are indented deeper than a column. -/
def closeBeyond (column : Nat) (st : Scan) : Scan :=
  let ended := st.columns.takeWhile (column < ·)
  { st with
    items := ended.map (fun _ => .token .blockEnd) ++ st.items
    columns := st.columns.dropWhile (column < ·) }

def closeAll (st : Scan) : Scan :=
  { st with items := st.columns.map (fun _ => .token .blockEnd) ++ st.items, columns := [] }

def startsBlock (st : Scan) (column : Nat) : Bool :=
  !st.inFlow && st.columns.head?.all (· < column)

def openBlock (st : Scan) (column : Nat) : Scan := { st with columns := column :: st.columns }

/-- Starts a block collection at a column, unless it is already open. -/
def startBlock (st : Scan) (column : Nat) (t : Token) : Scan :=
  if st.startsBlock column then (st.openBlock column).push t else st

/-- Gives up the open place at this level, where no key is required. -/
def dropPlace (st : Scan) : Option Scan :=
  if st.current.any (·.required) then none else some { st with current := none }

/-- Leaves a place open before what starts at a spot, where it may be a key. -/
def leavePlace (st : Scan) (p : Spot) : Option Scan :=
  if st.keyAllowed then do
    let st ← st.dropPlace
    return { st with
      items := .place st.places :: st.items
      places := st.places + 1
      current := some
        ⟨st.places, p.line, p.column, !st.inFlow && st.columns.head? == some p.column⟩ }
  else some st

def settle (st : Scan) (p : Spot) : Option Scan := do
  let current ← OpenPlace.settle? st.current p
  let outer ← st.outer.mapM fun k => OpenPlace.settle? k p
  return { st with current, outer }

abbrev Step := Scan → (s : List Spot) → Option (Piece Scan s)

def directive : Step := fun st s => do
  let st ← st.closeAll.dropPlace
  let p ← Yaml.directive s
  return p.map fun t => { st with keyAllowed := false }.push t

def documentMark (t : Token) : Step := fun st s =>
  match s with
  | p :: q :: r :: rest => do
    let st ← st.closeAll.dropPlace
    return (((Tail.whole rest).behind ({ st with keyAllowed := false }.push t) r).behind q).behind p
  | _ => none

def flowStart (t : Token) (p : Spot) (rest : List Spot) (st : Scan) :
    Option (Piece Scan (p :: rest)) := do
  let st ← st.leavePlace p
  return (Tail.whole rest).behind
    ({ st with outer := st.current :: st.outer, current := none, keyAllowed := true }.push t) p

def flowEnd (t : Token) (p : Spot) (rest : List Spot) (st : Scan) :
    Option (Piece Scan (p :: rest)) := do
  let st ← st.dropPlace
  let st := { st with
    current := st.outer.head?.join, outer := st.outer.tail, keyAllowed := false }
  return (Tail.whole rest).behind (st.push t) p

def flowEntry (p : Spot) (rest : List Spot) (st : Scan) : Option (Piece Scan (p :: rest)) := do
  let st ← st.dropPlace
  return (Tail.whole rest).behind ({ st with keyAllowed := true }.push .flowEntry) p

def blockEntry (p : Spot) (rest : List Spot) (st : Scan) : Option (Piece Scan (p :: rest)) :=
  if !st.inFlow && !st.keyAllowed then none
  else do
    let st ← (st.startBlock p.column .blockSequence).dropPlace
    return (Tail.whole rest).behind ({ st with keyAllowed := true }.push .entry) p

def explicitKey (p : Spot) (rest : List Spot) (st : Scan) : Option (Piece Scan (p :: rest)) :=
  if !st.inFlow && !st.keyAllowed then none
  else do
    let st ← (st.startBlock p.column .blockMapping).dropPlace
    return (Tail.whole rest).behind ({ st with keyAllowed := !st.inFlow }.push .key) p

def value (p : Spot) (rest : List Spot) (st : Scan) : Option (Piece Scan (p :: rest)) :=
  match st.current with
  | some k =>
    let starts := st.startsBlock k.column
    let st := if starts then st.openBlock k.column else st
    let st := { st with
      filled := (k.number, starts) :: st.filled, current := none, keyAllowed := false }
    some ((Tail.whole rest).behind (st.push .value) p)
  | none =>
    if !st.inFlow && !st.keyAllowed then none
    else
      let st := st.startBlock p.column .blockMapping
      some ((Tail.whole rest).behind ({ st with keyAllowed := !st.inFlow }.push .value) p)

/-- An anchor, a reference or a tag, before which a place is left open. -/
def property (read : Reader Token) : Step := fun st s =>
  match s with
  | [] => none
  | p :: rest => do
    let st ← st.leavePlace p
    let t ← read (p :: rest)
    return t.map fun t => { st with keyAllowed := false }.push t

def quotedScalar (quote : Char) : Step :=
  property fun s => (quoted quote s).map (·.map fun text => .scalar false (String.ofList text))

def blockScalar (isLiteral : Bool) : Step := fun st s => do
  let st ← st.dropPlace
  let t ← block isLiteral st.columns.head? s
  return t.map fun text =>
    { st with keyAllowed := true }.push (.scalar false (String.ofList text))

def plainScalar : Step := fun st s =>
  match s with
  | [] => none
  | p :: rest => do
    let st ← st.leavePlace p
    let t ← plain st.inFlow (st.columns.head?.elim 0 (· + 1)) (p :: rest)
    return t.map fun text =>
      { st with keyAllowed := text.crossedLine }.push (.scalar true (String.ofList text.chars))

def isIndicator (c : Char) : Bool :=
  ['-', '?', ':', ',', '[', ']', '\x7b', '\x7d', '#', '&', '*', '!', '|', '>', '\x27', '"', '%',
    '@', '\x60'].contains c

def startsPlain (inFlow : Bool) (c : Char) (rest : List Spot) : Bool :=
  (!isGap c && !isIndicator c) || (c = '-' && !rest.head?.any fun q => isGap q.char) ||
    (!inFlow && (c = '?' || c = ':') && !endsWord rest)

def token : Step := fun st s =>
  match s with
  | [] => none
  | p :: rest =>
    let c := p.char
    if p.column = 0 && c = '%' then directive st (p :: rest)
    else if isThreeMarks '-' (p :: rest) then documentMark .documentStart st (p :: rest)
    else if isThreeMarks '.' (p :: rest) then documentMark .documentEnd st (p :: rest)
    else if c = '[' then flowStart .flowSequence p rest st
    else if c = '\x7b' then flowStart .flowMapping p rest st
    else if c = ']' then flowEnd .flowSequenceEnd p rest st
    else if c = '\x7d' then flowEnd .flowMappingEnd p rest st
    else if c = ',' then flowEntry p rest st
    else if c = '-' && endsWord rest then blockEntry p rest st
    else if c = '?' && (st.inFlow || endsWord rest) then explicitKey p rest st
    else if c = ':' && (st.inFlow || endsWord rest) then value p rest st
    else if c = '*' then property (fun s => (anchorName s).map (·.map .reference)) st (p :: rest)
    else if c = '&' then property (fun s => (anchorName s).map (·.map .anchor)) st (p :: rest)
    else if c = '!' then property (tag st.inFlow) st (p :: rest)
    else if c = '|' && !st.inFlow then blockScalar true st (p :: rest)
    else if c = '>' && !st.inFlow then blockScalar false st (p :: rest)
    else if c = '\x27' || c = '"' then quotedScalar c st (p :: rest)
    else if startsPlain st.inFlow c rest then plainScalar st (p :: rest)
    else none

/--
What is left after gaps, comments and line ends, and whether a key may start there. In block
context a new line allows keys, and where they are allowed no tab may come before them.
-/
def skipBlank (inFlow : Bool) (keyAllowed inComment : Bool) : (s : List Spot) → Bool × Tail s
  | [] => (keyAllowed, .whole [])
  | p :: rest =>
    let skip (keyAllowed inComment : Bool) : Bool × Tail (p :: rest) :=
      let (allowed, t) := skipBlank inFlow keyAllowed inComment rest
      (allowed, (t.behind () p).tail)
    if isBreak p.char then skip (keyAllowed || !inFlow) false
    else if inComment then skip keyAllowed true
    else if p.char = ' ' || (p.char = '\t' && (inFlow || !keyAllowed)) then skip keyAllowed false
    else if p.char = '#' then skip keyAllowed true
    else if p.char = '\ufeff' && p.column = 0 then skip keyAllowed false
    else (keyAllowed, .whole (p :: rest))

/-- The items as tokens. Places that were not filled in stand for nothing. -/
def tokensOf (filled : List (Nat × Bool)) (items : List Item) : List Token :=
  items.flatMap fun
    | .token t => [t]
    | .place n =>
      match filled.lookup n with
      | some true => [.blockMapping, .key]
      | some false => [.key]
      | none => []

/-- The tokens that are certain when the scan cannot go on from a spot. -/
def certain (st : Scan) (p : Option Spot) : List Token :=
  let live (k : OpenPlace) : Bool := !p.any k.isStale
  let waiting := (st.current :: st.outer).filterMap fun k => (k.filter live).map (·.number)
  tokensOf st.filled (st.items.reverse.takeWhile fun
    | .token _ => true
    | .place n => !waiting.contains n)

/-- The tokens of a whole text. -/
def finish (st : Scan) : Option (List Token) :=
  st.closeAll.dropPlace.map fun st => tokensOf st.filled (st.push .streamEnd).items.reverse

def run (st : Scan) (s : List Spot) : List Token :=
  match skipBlank st.inFlow st.keyAllowed false s with
  | (keyAllowed, t) =>
    match t.rest, t.noLonger with
    | [], _ => (finish { st with keyAllowed }).getD (st.certain s.head?)
    | p :: rest, h =>
      match ({ st with keyAllowed }).settle p with
      | none => st.certain s.head?
      | some st' =>
        match token (if st'.inFlow then st' else st'.closeBeyond p.column) (p :: rest) with
        | none => st.certain s.head?
        | some q =>
          have : q.rest.length < s.length := Nat.lt_of_lt_of_le q.shorter h
          run q.value q.rest
termination_by s.length

end Scan

def tokens (s : List Spot) : List Token := Scan.run {} s

end Yaml

end NestedSelection
