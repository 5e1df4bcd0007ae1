import NestedSelection.Json.Value

/-! # Schemas

A schema describes tables by name, in document order. A table has row fields, whose values are
kept and never looked at, and descriptors of its foreign keys.
-/

namespace NestedSelection

/-- A foreign key from the table that holds it to the table it references. -/
structure Relationship where
  foreignKeyName : Option String := none
  columns : List String := []
  referencedTable : Option String := none
  referencedColumns : List String := []
  isOneToOne : Option Bool := none
deriving DecidableEq

structure Table where
  row : OrderedMap Json := ∅
  relationships : List Relationship := []

structure Schema where
  tables : OrderedMap Table := ∅

namespace Table

def withField (t : Table) (name type : String) : Table :=
  { t with row := t.row.insert name (.text type) }

def withRelationship (t : Table) (r : Relationship) : Table :=
  { t with relationships := t.relationships ++ [r] }

def fieldNames (t : Table) : List String := t.row.keys

def hasField (t : Table) (name : String) : Bool := t.row.contains name

end Table

namespace Schema

/-- Adds a table, or replaces the one of its name in place. -/
def withTable (s : Schema) (name : String) (t : Table) : Schema := ⟨s.tables.insert name t⟩

def table? (s : Schema) (name : String) : Option Table := s.tables.get? name

def contains (s : Schema) (name : String) : Bool := s.tables.contains name

def tableNames (s : Schema) : List String := s.tables.keys

def size (s : Schema) : Nat := s.tables.size

def isEmpty (s : Schema) : Bool := s.tables.isEmpty

end Schema

namespace Relationship

/-- A foreign key to a table, of which nothing else is known. -/
def references (table : String) : Relationship := { referencedTable := some table }

/-- The referenced table, if it is a table of the schema. -/
def target? (r : Relationship) (s : Schema) : Option String :=
  r.referencedTable.filter s.contains

end Relationship

end NestedSelection
