import NestedSelection.Yaml.Token

/-! # YAML nodes

The nodes that the tokens of a text make up: scalars, sequences and mappings, which may carry an
anchor and a tag, and references to anchored nodes. Where a node is missing an empty scalar stands
in for it.
-/

namespace NestedSelection

namespace Yaml

structure Properties where
  anchor : Option String := none
  tag : Option Bytes := none
deriving DecidableEq, Repr

/-- A node, given what references refer by. -/
inductive Node (ρ : Type) where
  | scalar (properties : Properties) (isPlain : Bool) (text : String)
  | sequence (properties : Properties) (items : List (Node ρ))
  | mapping (properties : Properties) (entries : List (Node ρ × Node ρ))
  | reference (r : ρ)

namespace Node

/-- The scalar that stands in for a missing node. -/
def missing {ρ : Type} (p : Properties) : Node ρ := .scalar p true ""

abbrev TokenReader (α : Type) := (s : List Token) → Option (Piece α s)

/-- A reader of nodes: whether block collections may start, and sequences without indentation. -/
abbrev ItemReader := (block indentless : Bool) → TokenReader (Node String)

/-- Whether one of some tokens comes next. -/
def isNext (l : List Token) (s : List Token) : Bool := s.head?.any l.contains

/-- A node, which is missing if one of some tokens comes next. -/
def orMissing (stops : List Token) (item : TokenReader (Node String)) (s : List Token) :
    Option (Node String × Tail s) :=
  if isNext stops s then some (missing {}, .whole s)
  else (item s).map fun p => (p.value, p.tail)

/-- The value of an entry, which is missing without its mark. -/
def entryValue (stops : List Token) (item : TokenReader (Node String)) (s : List Token) :
    Option (Node String × Tail s) :=
  match s with
  | .value :: rest =>
    (orMissing stops item rest).map fun (n, t) => (n, (t.behind () .value).tail)
  | t => some (missing {}, .whole t)

def blockItems {s₀ : List Token} (item : ItemReader) (before : List (Node String))
    (s : List Token) (h : s.length ≤ s₀.length) : Option (Piece (List (Node String)) s₀) :=
  match s with
  | .entry :: rest =>
    match orMissing [.entry, .blockEnd] (item true false) rest with
    | none => none
    | some (n, t) => blockItems item (n :: before) t.rest
        (Nat.le_trans t.noLonger (Nat.le_of_succ_le h))
  | .blockEnd :: rest => some ⟨before.reverse, rest, h⟩
  | _ => none
termination_by s.length
decreasing_by exact Nat.lt_succ_of_le t.noLonger

/-- The items of a sequence that is not indented deeper than its parent. -/
def indentlessItems {s₀ : List Token} (item : ItemReader) (before : List (Node String))
    (s : List Token) (h : s.length ≤ s₀.length) : Option (List (Node String) × Tail s₀) :=
  match s with
  | .entry :: rest =>
    match orMissing [.entry, .key, .value, .blockEnd] (item true false) rest with
    | none => none
    | some (n, t) => indentlessItems item (n :: before) t.rest
        (Nat.le_trans t.noLonger (Nat.le_of_succ_le h))
  | t => some (before.reverse, ⟨t, h⟩)
termination_by s.length
decreasing_by exact Nat.lt_succ_of_le t.noLonger

/-- The entries of a block mapping, read after its start. -/
def blockEntries {s₀ : List Token} (item : ItemReader)
    (before : List (Node String × Node String)) (s : List Token) (h : s.length ≤ s₀.length) :
    Option (Piece (List (Node String × Node String)) s₀) :=
  let stops : List Token := [.key, .value, .blockEnd]
  match s with
  | .key :: rest =>
    match orMissing stops (item true true) rest with
    | none => none
    | some (k, t) =>
      match entryValue stops (item true true) t.rest with
      | none => none
      | some (v, u) =>
        have : u.rest.length ≤ rest.length := Nat.le_trans u.noLonger t.noLonger
        blockEntries item ((k, v) :: before) u.rest (Nat.le_trans this (Nat.le_of_succ_le h))
  | .blockEnd :: rest => some ⟨before.reverse, rest, h⟩
  | _ => none
termination_by s.length
decreasing_by exact Nat.lt_succ_of_le this

/-- What is left after the comma before an item, unless the item is the first one. -/
def afterComma (isFirst : Bool) (s : List Token) : Option (Tail s) :=
  if isFirst then some (.whole s)
  else
    match s with
    | .flowEntry :: rest => some (.after .flowEntry rest)
    | _ => none

/--
A mapping of one entry among the items of a flow sequence, read after its key mark. If the key is
missing, the token in its place is passed over.
-/
def pairEntry (item : TokenReader (Node String)) (s : List Token) :
    Option (Node String × Tail s) := do
  let (k, t) ← (match s with
    | .value :: rest => some (missing {}, .after .value rest)
    | .flowEntry :: rest => some (missing {}, .after .flowEntry rest)
    | .flowSequenceEnd :: rest => some (missing {}, .after .flowSequenceEnd rest)
    | t => (item t).map fun p => (p.value, p.tail) : Option (Node String × Tail s))
  let (v, u) ← entryValue [.flowEntry, .flowSequenceEnd] item t.rest
  return (.mapping {} [(k, v)], t.trans u)

/-- An item of a flow sequence. Where no deeper container may open, there is no pair reader. -/
def flowItem (item : TokenReader (Node String)) (pair? : Option (TokenReader (Node String))) :
    TokenReader (Node String) := fun s =>
  match s with
  | .key :: rest => do
    let pair ← pair?
    let (n, t) ← pairEntry pair rest
    return t.behind n .key
  | t => item t

def flowItems {s₀ : List Token} (item : TokenReader (Node String)) (before : List (Node String))
    (s : List Token) (h : s.length ≤ s₀.length) : Option (Piece (List (Node String)) s₀) :=
  match s with
  | .flowSequenceEnd :: rest => some ⟨before.reverse, rest, h⟩
  | s' =>
    match afterComma before.isEmpty s' with
    | none => none
    | some ⟨.flowSequenceEnd :: rest, ht⟩ => some ⟨before.reverse, rest, Nat.le_trans ht h⟩
    | some t =>
      match item t.rest with
      | none => none
      | some p =>
        have : p.rest.length < s'.length := Nat.lt_of_lt_of_le p.shorter t.noLonger
        flowItems item (p.value :: before) p.rest (Nat.le_trans (Nat.le_of_lt this) h)
termination_by s.length

def flowEntry (item : TokenReader (Node String)) : TokenReader (Node String × Node String) :=
  fun s =>
    let stops : List Token := [.flowEntry, .flowMappingEnd]
    match s with
    | .key :: rest => do
      let (k, t) ← orMissing (.value :: stops) item rest
      let (v, u) ← entryValue stops item t.rest
      return (t.trans u).behind (k, v) .key
    | t => (item t).map fun p => p.map fun k => (k, missing {})

def flowEntries {s₀ : List Token} (item : TokenReader (Node String))
    (before : List (Node String × Node String)) (s : List Token) (h : s.length ≤ s₀.length) :
    Option (Piece (List (Node String × Node String)) s₀) :=
  match s with
  | .flowMappingEnd :: rest => some ⟨before.reverse, rest, h⟩
  | s' =>
    match afterComma before.isEmpty s' with
    | none => none
    | some ⟨.flowMappingEnd :: rest, ht⟩ => some ⟨before.reverse, rest, Nat.le_trans ht h⟩
    | some t =>
      match flowEntry item t.rest with
      | none => none
      | some p =>
        have : p.rest.length < s'.length := Nat.lt_of_lt_of_le p.shorter t.noLonger
        flowEntries item (p.value :: before) p.rest (Nat.le_trans (Nat.le_of_lt this) h)
termination_by s.length

abbrev Handles := List (String × Bytes)

/-- The handles of a text that defines none. -/
def defaultHandles : Handles := [("!", bytesOf "!"), ("!!", bytesOf "tag:yaml.org,2002:")]

/-- The tag with a handle and a suffix. A tag without a handle is its suffix. -/
def resolveTag (handles : Handles) (handle : String) (suffix : Bytes) : Option Bytes :=
  if handle = "" then some suffix
  else (List.lookup handle handles).map (· ++ suffix)

def properties (handles : Handles) (s : List Token) : Option (Properties × Tail s) :=
  match s with
  | .anchor a :: .tag h x :: rest => (resolveTag handles h x).map fun tag =>
      (⟨some a, some tag⟩, ((Tail.after (.tag h x) rest).behind () (.anchor a)).tail)
  | .tag h x :: .anchor a :: rest => (resolveTag handles h x).map fun tag =>
      (⟨some a, some tag⟩, ((Tail.after (.anchor a) rest).behind () (.tag h x)).tail)
  | .anchor a :: rest => some (⟨some a, none⟩, .after (.anchor a) rest)
  | .tag h x :: rest => (resolveTag handles h x).map fun tag =>
      (⟨none, some tag⟩, .after (.tag h x) rest)
  | t => some ({}, .whole t)

/-- The tag of a scalar. The bare mark says nothing about it. -/
def scalarProperties (p : Properties) : Properties :=
  if p.tag = some (bytesOf "!") then { p with tag := none } else p

/-- A node that opens a container, given a reader for what is in it. -/
def container (item : ItemReader) (pair? : Option (TokenReader (Node String)))
    (block indentless : Bool) (p : Properties) : TokenReader (Node String) := fun s =>
  match s with
  | .flowSequence :: rest =>
    (flowItems (flowItem (item false false) pair?) [] rest (length_le_self rest)).map fun q =>
      (q.map (.sequence p)).behind _
  | .flowMapping :: rest =>
    (flowEntries (item false false) [] rest (length_le_self rest)).map fun q =>
      (q.map (.mapping p)).behind _
  | .blockSequence :: rest =>
    if block then (blockItems item [] rest (length_le_self rest)).map fun q =>
      (q.map (.sequence p)).behind _
    else none
  | .blockMapping :: rest =>
    if block then (blockEntries item [] rest (length_le_self rest)).map fun q =>
      (q.map (.mapping p)).behind _
    else none
  | .entry :: rest =>
    if indentless then do
      let (first, t) ← orMissing [.entry, .key, .value, .blockEnd] (item true false) rest
      let (items, u) ← indentlessItems item [first] t.rest t.noLonger
      return u.behind (.sequence p items) .entry
    else none
  | _ => none

def startsContainer (block indentless : Bool) : Token → Bool
  | .flowSequence => true
  | .flowMapping => true
  | .blockSequence => block
  | .blockMapping => block
  | .entry => indentless
  | _ => false

/-- A node, given a reader for containers. -/
def withProperties (handles : Handles) (block indentless : Bool)
    (container : Properties → TokenReader (Node String)) : TokenReader (Node String) := fun s =>
  match s with
  | .reference name :: rest => some ((Tail.whole rest).behind (.reference name) _)
  | t =>
    match properties handles t with
    | none => none
    | some (p, ⟨.scalar isPlain text :: rest, h⟩) =>
      some ⟨.scalar (scalarProperties p) isPlain text, rest, h⟩
    | some (p, u) =>
      if u.rest.head?.any (startsContainer block indentless) then
        (container p u.rest).map (·.widen u.noLonger)
      else if h : u.rest.length < t.length then some ⟨missing p, u.rest, h⟩
      else none

def read (handles : Handles) : Nat → ItemReader
  | 0, block, indentless => withProperties handles block indentless fun _ _ => none
  | 1, block, indentless => withProperties handles block indentless
      (container (read handles 0) none block indentless)
  | depth + 2, block, indentless => withProperties handles block indentless
      (container (read handles (depth + 1)) (some (read handles depth false false)) block
        indentless)

/-- The directives before a document: at most one version, and no handle twice. -/
def directives (version : Bool) (handles : Handles) :
    (s : List Token) → Option (Handles × Tail s)
  | .version major minor :: rest =>
    if version || major ≠ 1 || (minor ≠ 1 && minor ≠ 2) then none
    else (directives true handles rest).map fun (l, t) =>
      (l, (t.behind () (.version major minor)).tail)
  | .handle name start :: rest =>
    if (List.lookup name handles).isSome then none
    else (directives version (handles ++ [(name, start)]) rest).map fun (l, t) =>
      (l, (t.behind () (.handle name start)).tail)
  | t => some (handles, .whole t)

/-- The number of containers that may stand one inside the other. -/
def maxDepth : Nat := 128

def partsDocuments : Token → Bool
  | .version .. => true
  | .handle .. => true
  | .documentStart => true
  | .documentEnd => true
  | .streamEnd => true
  | _ => false

/-- The first document of a text, if there is one, and the tokens after it. -/
def first (s : List Token) : Option (Option (Node String) × List Token) :=
  match s with
  | [] => none
  | .streamEnd :: _ => some (none, s)
  | t :: _ =>
    if partsDocuments t && t ≠ .documentEnd then
      match directives false [] s with
      | some (handles, ⟨.documentStart :: rest, _⟩) =>
        if rest.head?.any partsDocuments then some (some (missing {}), rest)
        else (read (handles ++ defaultHandles) maxDepth true false rest).map fun p =>
          (some p.value, p.rest)
      | _ => none
    else (read defaultHandles maxDepth true false s).map fun p => (some p.value, p.rest)

/-- Whether nothing but ends of documents comes before the end of the text. -/
def isLast (s : List Token) : Bool := s.dropWhile (· == .documentEnd) == [.streamEnd]

end Node

end Yaml

end NestedSelection
