import NestedSelection.Json.Value

/-! # Nested selections

A selection says, for one table, which of its fields are wanted and which related tables are
nested under it, each with a selection of its own. Both parts may be absent, and both keep the
order in which their names were first entered.
-/

namespace NestedSelection

inductive Selection where
  | node (select : Option (OrderedMap Bool)) (nested : Option (List (String × Selection)))

namespace Selection

def select : Selection → Option (OrderedMap Bool)
  | .node select _ => select

def nested : Selection → Option (List (String × Selection))
  | .node _ nested => nested

def all : Selection := .node none none

instance : Inhabited Selection := ⟨all⟩

def setField (s : Selection) (name : String) (wanted : Bool) : Selection :=
  .node (some ((s.select.getD ∅).insert name wanted)) s.nested

def field (s : Selection) (name : String) : Selection := s.setField name true

/-- Nests a related table. One nested before keeps its place and takes the new selection. -/
def nest (s : Selection) (relation : String) (child : Selection) : Selection :=
  .node s.select (some (Entries.insert (s.nested.getD []) relation child))

def selectedFields (s : Selection) : List String :=
  (s.select.elim [] (·.entries)).filterMap fun e => if e.2 then some e.1 else none

def includes (s : Selection) : List (String × Selection) := s.nested.getD []

/-- Whether every field is selected: none is flagged as wanted. -/
def selectsAll (s : Selection) : Bool := s.selectedFields.isEmpty

def flagsToJson (flags : OrderedMap Bool) : Json := .object (flags.entries.mapValues .bool)

mutual

/-- Absent parts are left out, empty ones are not. -/
def toJson : Selection → Json
  | .node select nested =>
    .object ((select.toList.map fun flags => ("select", flagsToJson flags)) ++ nestedToJson nested)

def nestedToJson : Option (List (String × Selection)) → List (String × Json)
  | none => []
  | some children => [("include", .object (childrenToJson children))]

def childrenToJson : List (String × Selection) → List (String × Json)
  | [] => []
  | (relation, child) :: rest => (relation, toJson child) :: childrenToJson rest

end

end Selection

end NestedSelection
