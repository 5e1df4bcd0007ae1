import NestedSelection.Text.Hex
import NestedSelection.Yaml.Spot

/-! # YAML tokens

The tokens of a text and the readers of the smaller ones: names of anchors, tags and directives.
Tags are kept as bytes, since escapes in them spell bytes.
-/

namespace NestedSelection

namespace Yaml

abbrev Bytes := List UInt8

inductive Token where
  /-- The version of the format that a document asks for. -/
  | version (major minor : Nat)
  /-- A handle that stands for the start of tags. -/
  | handle (name : String) (start : Bytes)
  | documentStart
  | documentEnd
  | blockSequence
  | blockMapping
  | blockEnd
  | flowSequence
  | flowSequenceEnd
  | flowMapping
  | flowMappingEnd
  | entry
  | flowEntry
  | key
  | value
  | anchor (name : String)
  | reference (name : String)
  | tag (handle : String) (suffix : Bytes)
  | scalar (isPlain : Bool) (text : String)
  | streamEnd
deriving DecidableEq, Repr

def bytesOf (s : String) : Bytes := s.toList.flatMap String.utf8EncodeChar

/-- The characters that may follow the name of an anchor. -/
def endsAnchor (s : List Spot) : Bool :=
  endsWord s || ['?', ':', ',', ']', '\x7d', '%', '@', '\x60'].any fun c => startsWith c s

/-- The name of an anchor, read with the mark before it. -/
def anchorName : Reader String := fun s =>
  match s with
  | [] => none
  | p :: rest =>
    let name := takeChars isNameChar rest
    let t := dropChars isNameChar rest
    if name.isEmpty || !endsAnchor t.rest then none
    else some (t.behind (String.ofList name) p)

def isTagChar (verbatim : Bool) (c : Char) : Bool :=
  isNameChar c ||
    [';', '/', '?', ':', '@', '&', '=', '+', '$', '.', '!', '~', '*', '\x27', '(', ')'].contains
      c ||
    (verbatim && (c = ',' || c = '[' || c = ']'))

/-- The byte that an escape in a tag spells. -/
def tagByte : Reader UInt8 := fun s =>
  match s with
  | p :: q :: r :: rest =>
    if p.char = '%' then do
      let high ← hexValue? q.char
      let low ← hexValue? r.char
      return (((Tail.whole rest).behind (UInt8.ofNat (high * 16 + low)) r).behind q).behind p
    else none
  | _ => none

/-- So many bytes that go on with a character. -/
def moreTagBytes : Nat → (s : List Spot) → Option (Bytes × Tail s)
  | 0, s => some ([], .whole s)
  | n + 1, s => do
    let b ← tagByte s
    if b.value.toNat / 64 = 2 then
      let (more, t) ← moreTagBytes n b.rest
      return (b.value :: more, b.tail.trans t)
    else none

def tagBytes : Reader Bytes := fun s => do
  let b ← tagByte s
  let n := b.value.toNat
  let count ← if n < 0x80 then some 0 else if n / 0x20 = 6 then some 1
    else if n / 0x10 = 14 then some 2 else if n / 8 = 30 then some 3 else none
  let (more, t) ← moreTagBytes count b.rest
  return (b.map fun first => first :: more).shorten t

/-- The characters of a tag, some of which may be spelt as bytes. -/
def tagText {s₀ : List Spot} (verbatim : Bool) (before : Bytes) (s : List Spot)
    (h : s.length ≤ s₀.length) : Option (Bytes × Tail s₀) :=
  match s with
  | [] => some (before.reverse, ⟨[], h⟩)
  | p :: rest =>
    if p.char = '%' then
      match tagBytes (p :: rest) with
      | none => none
      | some b => tagText verbatim (b.value.reverse ++ before) b.rest
          (Nat.le_trans (Nat.le_of_lt b.shorter) h)
    else if isTagChar verbatim p.char then
      tagText verbatim ((String.utf8EncodeChar p.char).reverse ++ before) rest
        (Nat.le_of_succ_le h)
    else some (before.reverse, ⟨p :: rest, h⟩)
termination_by s.length
decreasing_by
  · exact b.shorter
  · exact Nat.lt_succ_self _

def someTagText (verbatim : Bool) (s : List Spot) : Option (Bytes × Tail s) := do
  let (text, t) ← tagText verbatim [] s (length_le_self s)
  if t.rest.length < s.length then return (text, t) else none

def untilZero (b : Bytes) : Bytes := b.takeWhile (· ≠ 0)

/-- The name between the exclamation marks of a handle, with whether the second mark is there. -/
def handleName (s : List Spot) : List Char × Bool × Tail s :=
  let t := dropChars isNameChar s
  match mark '!' t.rest with
  | some p => (takeChars isNameChar s, true, t.trans p.tail)
  | none => (takeChars isNameChar s, false, t)

/-- The handle and the suffix of a tag, read after its exclamation mark. -/
def tagParts (s : List Spot) : Option ((String × Bytes) × Tail s) :=
  match mark '<' s with
  | some p => do
    let (text, t) ← someTagText true p.rest
    let e ← mark '>' t.rest
    return (("", untilZero text), (p.tail.trans t).trans e.tail)
  | none =>
    match handleName s with
    | (name, true, t) => do
      let (text, u) ← someTagText false t.rest
      return ((String.ofList ('!' :: name ++ ['!']), untilZero text), t.trans u)
    | (name, false, t) => do
      let (text, u) ← tagText false [] t.rest (length_le_self t.rest)
      let suffix := untilZero (name.flatMap String.utf8EncodeChar ++ text)
      if suffix.isEmpty then return (("", bytesOf "!"), t.trans u)
      else return (("!", suffix), t.trans u)

/-- A tag, after which a word must end. In brackets and braces a comma may follow. -/
def tag (inFlow : Bool) : Reader Token := fun s =>
  match s with
  | [] => none
  | p :: rest => do
    let ((handle, suffix), t) ← tagParts rest
    if endsWord t.rest || (inFlow && startsWith ',' t.rest) then
      return t.behind (.tag handle suffix) p
    else none

def versionNumber : Reader Nat := fun s =>
  match s with
  | [] => none
  | p :: rest =>
    let digits := p.char :: takeChars Char.isDigit rest
    if p.char.isDigit && digits.length ≤ 9 then
      some ((dropChars Char.isDigit rest).behind
        (ofDigits 10 (digits.map fun c => c.toNat - '0'.toNat)) p)
    else none

def versionDirective (s : List Spot) : Option (Token × Tail s) := do
  let t := skipGap s
  let major ← versionNumber t.rest
  let point ← mark '.' major.rest
  let minor ← versionNumber point.rest
  return (.version major.value minor.value,
    t.trans (major.followedBy (point.followedBy minor)).tail)

def handleDirective (s : List Spot) : Option (Token × Tail s) := do
  let t := skipGap s
  let first ← mark '!' t.rest
  let (name, closed, u) := handleName first.rest
  if !closed && !name.isEmpty then none
  else
    let handle := String.ofList ('!' :: name ++ if closed then ['!'] else [])
    let v := skipGap u.rest
    if v.rest.length < u.rest.length then
      let (start, w) ← someTagText true v.rest
      if endsWord w.rest then
        return (.handle handle (untilZero start),
          (((t.trans first.tail).trans u).trans v).trans w)
      else none
    else none

def directive : Reader Token := fun s =>
  match s with
  | [] => none
  | p :: rest => do
    let name := String.ofList (takeChars isNameChar rest)
    let t := dropChars isNameChar rest
    if !endsWord t.rest then none
    else
      let (token, u) ←
        if name = "YAML" then versionDirective t.rest
        else if name = "TAG" then handleDirective t.rest
        else none
      let v ← blankLineEnd u.rest
      return ((t.trans u).trans v).behind token p

end Yaml

end NestedSelection
