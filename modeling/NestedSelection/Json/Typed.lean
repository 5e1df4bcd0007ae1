import NestedSelection.Json.Reader
import NestedSelection.Json.Skip

/-! # Reading JSON of an expected shape

Readers that know what they expect and report the first thing that differs from it. The text is
read once, from left to right, so the first difference is also the one reported.
-/

namespace NestedSelection

namespace Json

/-- What stands at the front of a text. Of a container only the kind is told. -/
def found (s : List Char) : Except ReadError Found :=
  match s with
  | [] => .error .endOfText
  | c :: rest =>
    if c = 'n' then (word ['u', 'l', 'l'] rest).map fun _ => .null
    else if c = 't' then (word ['r', 'u', 'e'] rest).map fun _ => .boolean true
    else if c = 'f' then (word ['a', 'l', 's', 'e'] rest).map fun _ => .boolean false
    else if c = '-' || c.isDigit then (numeral (c :: rest)).map fun p => p.value.found
    else if c = '"' then (string rest).map fun p => .text p.value
    else if c = '[' then .ok .sequence
    else if c = '\x7b' then .ok .map
    else .error .malformed

def unexpected (expected : Expected) (s : List Char) : ReadError :=
  match found s with
  | .ok f => .mismatch (.type f expected)
  | .error e => e

def boolean : Reader Bool := fun s =>
  match s with
  | 't' :: rest => wordValue ['r', 'u', 'e'] true rest
  | 'f' :: rest => wordValue ['a', 'l', 's', 'e'] false rest
  | t => .error (unexpected .boolean t)

def unit : Reader Unit := fun s =>
  match s with
  | 'n' :: rest => wordValue ['u', 'l', 'l'] () rest
  | t => .error (unexpected .unit t)

/-- A value that may be `null` instead. -/
def optional {α : Type} (value : Reader α) : Reader (Option α) := fun s =>
  match s with
  | 'n' :: rest => wordValue ['u', 'l', 'l'] none rest
  | t => (value t).map (·.map some)

/-- A map with any names. Where no deeper container may open there is no reader for its values. -/
def mapOf {α : Type} (value? : Option (Reader α)) : Reader (List (String × α)) := fun s =>
  match s with
  | '\x7b' :: rest =>
    match value? with
    | none => .error .malformed
    | some value =>
      (objectOf (keepMember value) [] rest).map fun p => (p.map List.reverse).behind '\x7b'
  | t => .error (unexpected .map t)

/-- Passes over the value of a member that has no meaning. -/
def skipMember {σ : Type} (state : σ) : Reader σ := fun s =>
  match afterColon s with
  | .error e => .error e
  | .ok colon =>
    (skipValue [] colon.rest (length_le_self colon.rest)).map fun t =>
      (colon.shorten t).map fun _ => state

def memberValue {α σ : Type} (value : Reader α) (add : α → σ) : Reader σ := fun s =>
  match afterColon s with
  | .error e => .error e
  | .ok colon =>
    (value colon.rest).map fun p => (colon.followedBy p).map add

/-- The end of an array that may hold no more items. -/
def arrayEnd (s : List Char) : Except ReadError (Piece Unit s) :=
  match skipSpace s, length_skipSpace_le s with
  | [], _ => .error .endOfText
  | c :: rest, h => if c = ']' then .ok ⟨(), rest, h⟩ else .error .malformed

/-- The next item of an array after one that was read, if there is one. -/
def nextItem {α : Type} (item : Reader α) (s : List Char) :
    Except ReadError (Option α × Tail s) :=
  match skipSpace s, length_skipSpace_le s with
  | [], _ => .error .endOfText
  | c :: rest, h =>
    if c = ']' then .ok (none, ⟨c :: rest, h⟩)
    else if c = ',' then
      match skipSpace rest, length_skipSpace_le rest with
      | [], _ => .error .endOfText
      | d :: next, hn =>
        if d = ']' then .error .malformed
        else
          (item (d :: next)).map fun p =>
            (some p.value, ⟨p.rest,
              Nat.le_trans (Nat.le_of_lt p.shorter) (Nat.le_trans hn (Nat.le_of_lt h))⟩)
    else .error .malformed

/-- An array of at most two items of given kinds, read after its opening bracket. -/
def pairOf {α β : Type} (first : Reader α) (second : Reader β) (s : List Char) :
    Except ReadError (Piece (Option α × Option β) s) :=
  match skipSpace s, length_skipSpace_le s with
  | [], _ => .error .endOfText
  | c :: rest, h =>
    if c = ']' then .ok ⟨(none, none), rest, h⟩
    else
      match first (c :: rest) with
      | .error e => .error e
      | .ok p =>
        match nextItem second p.rest with
        | .error e => .error e
        | .ok (y, t) =>
          (arrayEnd t.rest).map fun e => ⟨(some p.value, y), e.rest,
            Nat.lt_of_lt_of_le e.shorter
              (Nat.le_trans t.noLonger (Nat.le_trans (Nat.le_of_lt p.shorter) h))⟩

end Json

end NestedSelection
