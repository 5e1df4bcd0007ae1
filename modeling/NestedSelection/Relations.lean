import NestedSelection.NameSet
import NestedSelection.Schema.Basic

/-! # Relations between tables

The tables that may be nested under a table: those it references, and those that reference it.
Descriptors without a table of the schema as their target relate nothing.
-/

namespace NestedSelection

namespace Table

def references (t : Table) (name : String) : Bool :=
  t.relationships.any fun r => r.referencedTable == some name

end Table

namespace Schema

/-- The tables that a table references. -/
def forward (s : Schema) (table : String) : NameSet :=
  match s.table? table with
  | some t => .ofList (t.relationships.filterMap (·.target? s))
  | none => .empty

/-- The tables that reference a table. -/
def inverse (s : Schema) (table : String) : NameSet :=
  .ofList ((s.tables.entries.filter fun e => e.2.references table).map Prod.fst)

/-- The tables that may be nested under a table. -/
def available (s : Schema) (table : String) : NameSet := (s.forward table).union (s.inverse table)

end Schema

end NestedSelection
