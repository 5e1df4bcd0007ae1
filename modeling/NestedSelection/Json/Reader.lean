import NestedSelection.Document
import NestedSelection.Json.Token

/-! # Reading JSON text

`arrayOf` and `objectOf` read the punctuation of containers around whatever their parts are;
`document` reads any value that nests at most a given number of containers.
-/

namespace NestedSelection

namespace Json

/-- A reader of values that starts where the value starts. -/
abbrev Reader (α : Type) := (s : List Char) → Except ReadError (Piece α s)

/-- What follows an item of an array: its end, or another item. -/
def elements {α : Type} {s₀ : List Char} (item : Reader α) (before : List α) (s : List Char)
    (h : s.length ≤ s₀.length) : Except ReadError (Piece (List α) s₀) :=
  match item s with
  | .error e => .error e
  | .ok p =>
    match nextChar p.rest with
    | none => .error .endOfText
    | some c =>
      if c.value = ']' then
        .ok (((p.followedBy c).map fun _ => (p.value :: before).reverse).widen h)
      else if c.value = ',' then
        let next := (p.followedBy c).shorten (afterSpace c.rest)
        match next.rest.head? with
        | none => .error .endOfText
        | some d =>
          if d = ']' then .error .malformed
          else elements item (p.value :: before) next.rest
            (Nat.le_trans (Nat.le_of_lt next.shorter) h)
      else .error .malformed
termination_by s.length
decreasing_by exact next.shorter

def arrayOf {α : Type} (item : Reader α) (s : List Char) : Except ReadError (Piece (List α) s) :=
  match skipSpace s, length_skipSpace_le s with
  | [], _ => .error .endOfText
  | c :: rest, h =>
    if c = ']' then .ok ⟨[], rest, h⟩
    else elements item [] (c :: rest) h

/-- What is left after the colon between a name and its value, and the space around it. -/
def afterColon (s : List Char) : Except ReadError (Piece Unit s) :=
  match skipSpace s, length_skipSpace_le s with
  | [], _ => .error .endOfText
  | c :: rest, h =>
    if c = ':' then .ok ⟨(), skipSpace rest, Nat.lt_of_le_of_lt (length_skipSpace_le rest) h⟩
    else .error .malformed

/-- A reader of one member of an object, from after its name on, that adds it to a state. -/
abbrev MemberReader (σ : Type) := σ → String → Reader σ

/-- The member that starts at a quote, and those that follow it up to the end of the object. -/
def members {σ : Type} {s₀ : List Char} (member : MemberReader σ) (state : σ) (s : List Char)
    (h : s.length ≤ s₀.length) : Except ReadError (Piece σ s₀) :=
  match s with
  | [] => .error .endOfText
  | q :: afterQuote =>
    if q ≠ '"' then .error .malformed
    else
      match string afterQuote with
      | .error e => .error e
      | .ok name =>
        match member state name.value name.rest with
        | .error e => .error e
        | .ok p =>
          match nextChar p.rest with
          | none => .error .endOfText
          | some c =>
            let taken := ((name.followedBy p).followedBy c).behind q
            if c.value = '\x7d' then .ok ((taken.map fun _ => p.value).widen h)
            else if c.value = ',' then
              let next := taken.shorten (afterSpace c.rest)
              members member p.value next.rest (Nat.le_trans (Nat.le_of_lt next.shorter) h)
            else .error .malformed
termination_by s.length
decreasing_by exact next.shorter

def objectOf {σ : Type} (member : MemberReader σ) (state : σ) (s : List Char) :
    Except ReadError (Piece σ s) :=
  match skipSpace s, length_skipSpace_le s with
  | [], _ => .error .endOfText
  | c :: rest, h =>
    if c = '\x7d' then .ok ⟨state, rest, h⟩
    else members member state (c :: rest) h

/-- A member reader that reads a value for every name and keeps all of them, the last one first. -/
def keepMember {α : Type} (value : Reader α) : MemberReader (List (String × α)) :=
  fun before name s => do
    let colon ← afterColon s
    let p ← value colon.rest
    return (colon.followedBy p).map fun v => (name, v) :: before

/-- A word that stands for a value, read after its first letter. -/
def wordValue {α : Type} (letters : List Char) (value : α) {c : Char} (rest : List Char) :
    Except ReadError (Piece α (c :: rest)) :=
  (word letters rest).map (·.behind value c)

def Numeral.document : Numeral → Document
  | .integer n => .integer n
  | .real x => .real (.finite x)

/-- A value that nests at most `depth` containers. The space before it has been read. -/
def document (depth : Nat) (s : List Char) : Except ReadError (Piece Document s) :=
  match s with
  | [] => .error .endOfText
  | c :: rest =>
    if c = 'n' then wordValue ['u', 'l', 'l'] .null rest
    else if c = 't' then wordValue ['r', 'u', 'e'] (.bool true) rest
    else if c = 'f' then wordValue ['a', 'l', 's', 'e'] (.bool false) rest
    else if c = '-' || c.isDigit then
      (numeral (c :: rest)).map (·.map Numeral.document)
    else if c = '"' then (string rest).map fun p => (p.map .text).behind c
    else if c = '[' then
      match depth with
      | 0 => .error .malformed
      | depth + 1 =>
        (arrayOf (document depth) rest).map fun p => (p.map .sequence).behind c
    else if c = '\x7b' then
      match depth with
      | 0 => .error .malformed
      | depth + 1 =>
        (objectOf (keepMember (document depth)) [] rest).map fun p =>
          (p.map fun l => .mapping (l.reverse.map fun e => (.name e.1, e.2))).behind c
    else .error .malformed

/-- The number of containers that may stand one inside the other. -/
def maxDepth : Nat := 127

/--
A value at the start of a text. What is made of the value is settled before the rest of the text
is looked at, which must be blank.
-/
def readText {α : Type} (value : Reader α) (text : String) : Except ReadError α := do
  let p ← value (skipSpace text.toList)
  if (skipSpace p.rest).isEmpty then return p.value else throw .malformed

end Json

end NestedSelection
