import NestedSelection.Json.Value

/-! # Documents

What a text in a structured format says, before it is asked what it means. Mappings keep all their
entries in order, repeated keys included.
-/

namespace NestedSelection

namespace Document

/--
What stands before a value in a mapping: a name, a natural number, or something that can name
nothing.
-/
inductive Key where
  | name (s : String)
  | position (n : Nat)
  | other
deriving DecidableEq, Repr

end Document

inductive Document where
  | null
  | bool (b : Bool)
  | integer (n : Int)
  | real (x : Binary64.Extended)
  | text (s : String)
  | sequence (items : List Document)
  | mapping (entries : List (Document.Key × Document))

namespace Document

def Key.name? : Key → Option String
  | .name s => some s
  | _ => none

mutual

/--
The JSON value that a document stands for. Of entries with one name the last gives the value and
the first the place; a number that is not finite is `null`. A mapping whose keys are not all names
stands for nothing.
-/
def toJson? : Document → Option Json
  | .null => some .null
  | .bool b => some (.bool b)
  | .integer n => some (.integer n)
  | .real (.finite x) => some (.real x)
  | .real _ => some .null
  | .text s => some (.text s)
  | .sequence items => (itemsToJson? items).map .array
  | .mapping entries => (entriesToJson? entries).map fun l => .object (Entries.ofList l)

def itemsToJson? : List Document → Option (List Json)
  | [] => some []
  | d :: rest => do return (← toJson? d) :: (← itemsToJson? rest)

def entriesToJson? : List (Key × Document) → Option (List (String × Json))
  | [] => some []
  | (key, d) :: rest => do return (← key.name?, ← toJson? d) :: (← entriesToJson? rest)

end

def namedEntries? : Document → Option (List (String × Document))
  | .mapping entries => entries.mapM fun e => e.1.name?.map (·, e.2)
  | _ => none

def text? : Document → Option String
  | .text s => some s
  | _ => none

def bool? : Document → Option Bool
  | .bool b => some b
  | _ => none

/-- An optional value: `null` is its absence. -/
def optional? {α : Type} (read : Document → Option α) : Document → Option (Option α)
  | .null => some none
  | d => (read d).map some

def list? {α : Type} (read : Document → Option α) : Document → Option (List α)
  | .sequence items => items.mapM read
  | _ => none

def map? {α : Type} (read : Document → Option α) (d : Document) : Option (OrderedMap α) := do
  let entries ← d.namedEntries?
  let values ← entries.mapM fun e => (read e.2).map (e.1, ·)
  return OrderedMap.ofList values

end Document

end NestedSelection
