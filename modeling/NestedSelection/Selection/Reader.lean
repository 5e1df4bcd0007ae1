import NestedSelection.Json.Typed
import NestedSelection.Selection.Check

/-! # Selections as JSON text

A selection is an object with members `select` and `include`, or an array of the two. Both may be
absent or `null`, other members are passed over, and each of the two may be given once.
-/

namespace NestedSelection

open Json

namespace Selection

/-- The parts of a selection met so far; the outer option says whether a part was met at all. -/
structure Parts where
  select : Option (Option (List (String × Bool))) := none
  nested : Option (Option (List (String × Selection))) := none

/-- Of names given twice the last value counts, in the place of the first. -/
def Parts.selection (p : Parts) : Selection :=
  .node (p.select.join.map OrderedMap.ofList) (p.nested.join.map Entries.ofList)

/-- A member of a selection object, given readers for its two parts. -/
def member (flags : Reader (List (String × Bool))) (children : Reader (List (String × Selection))) :
    MemberReader Parts := fun parts name =>
  if name = "select" then fun s =>
    if parts.select.isSome then .error (.mismatch (.duplicateField name))
    else memberValue (optional flags) (fun v => { parts with select := some v }) s
  else if name = "include" then fun s =>
    if parts.nested.isSome then .error (.mismatch (.duplicateField name))
    else memberValue (optional children) (fun v => { parts with nested := some v }) s
  else skipMember parts

/-- A selection in either layout, given readers for its two parts. -/
def layout (flags : Reader (List (String × Bool))) (children : Reader (List (String × Selection))) :
    Reader Selection := fun s =>
  match s with
  | '\x7b' :: rest =>
    (objectOf (member flags children) {} rest).map fun p =>
      (p.map Parts.selection).behind '\x7b'
  | '[' :: rest =>
    (pairOf (optional flags) (optional children) rest).map fun p =>
      (p.map fun (flags, children) => Parts.selection ⟨flags, children⟩).behind '['
  | t => .error (unexpected .selection t)

/-- A selection that nests at most `depth` containers: one for itself and one for each part. -/
def reader (depth : Nat) : Reader Selection :=
  match depth with
  | 0 => fun s =>
    match s with
    | '\x7b' :: _ => .error .malformed
    | '[' :: _ => .error .malformed
    | t => .error (unexpected .selection t)
  | 1 => layout (mapOf none) (mapOf none)
  | depth + 2 => layout (mapOf (some boolean)) (mapOf (some (reader depth)))

def ofJsonText (text : String) : Except ReadError Selection := readText (reader maxDepth) text

end Selection

namespace Policy

/-- A policy's name, read after its opening quote. -/
def named (s : List Char) : Except ReadError (Piece Policy s) :=
  match string s with
  | .error e => .error e
  | .ok p =>
    match ofName? p.value with
    | some policy => .ok (p.map fun _ => policy)
    | none => .error (.mismatch (.unknownVariant p.value (values.map name)))

/-- The `null` after a policy's name, and the end of the object that holds both. -/
def nullAndEnd (s : List Char) : Except ReadError (Piece Unit s) :=
  match afterColon s with
  | .error e => .error e
  | .ok colon =>
    match unit colon.rest with
    | .error e => .error e
    | .ok p =>
      match nextChar p.rest with
      | none => .error .endOfText
      | some c =>
        if c.value = '\x7d' then .ok (((colon.followedBy p).followedBy c).map fun _ => ())
        else .error .malformed

/-- A policy by its name, alone or as the name of a single member that is `null`. -/
def reader : Reader Policy := fun s =>
  match s with
  | [] => .error .endOfText
  | '"' :: rest => (named rest).map (·.behind '"')
  | '\x7b' :: rest =>
    match skipSpace rest, length_skipSpace_le rest with
    | '"' :: name, h =>
      match named name with
      | .error e => .error e
      | .ok p => (nullAndEnd p.rest).map fun e => ⟨p.value, e.rest,
          Nat.lt_succ_of_lt (Nat.lt_of_lt_of_le (Nat.lt_trans e.shorter p.shorter)
            (Nat.le_of_succ_le h))⟩
    | t, _ => .error (unexpected .variant t)
  | _ => .error .malformed

def ofJsonText (text : String) : Except ReadError Policy := readText reader text

def toJson (p : Policy) : Json := .text p.name

end Policy

end NestedSelection
