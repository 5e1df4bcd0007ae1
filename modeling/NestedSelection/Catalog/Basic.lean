import NestedSelection.Identifier.Allocator
import NestedSelection.Relations

/-! # Catalogues of typed tables

A catalogue names every table and column of a schema by an identifier. All tables of a schema get
theirs first, then in a second round each table gets one for the type of its fields, so that a
table never has to give way to the fields of another.
-/

namespace NestedSelection

/-- A column and the identifier of its variant. -/
structure TypedColumn where
  name : String
  variant : String
deriving DecidableEq, Repr

/-- A table with its identifiers, and those of the tables that may be nested under it. -/
structure TypedTable where
  name : String
  marker : String
  fieldType : String
  columns : List TypedColumn
  relations : List String
deriving DecidableEq, Repr

structure Catalog where
  tables : List TypedTable
deriving DecidableEq, Repr

namespace TypedTable

def column? (t : TypedTable) (name : String) : Option TypedColumn :=
  t.columns.find? fun c => c.name == name

/-- The column that a variant stands for: the arm of the match over the variants. -/
def columnName? (t : TypedTable) (variant : String) : Option String :=
  (t.columns.find? fun c => c.variant == variant).map (·.name)

end TypedTable

namespace Catalog

open Identifier

def table? (c : Catalog) (name : String) : Option TypedTable :=
  c.tables.find? fun t => t.name == name

/-- The columns of a table, with identifiers of a scope of their own. -/
def columnsOf (t : Table) : List TypedColumn :=
  List.zipWith TypedColumn.mk t.fieldNames (({} : Allocator).allocateAll t.fieldNames).1

/-- The markers of the tables of a schema, by name, and the scope after them. -/
def markersOf (s : Schema) : List (String × String) × Allocator :=
  let (markers, scope) := ({} : Allocator).allocateAll s.tableNames
  (s.tableNames.zip markers, scope)

def typedTable (s : Schema) (markers : List (String × String)) (name : String) (t : Table)
    (marker fieldType : String) : TypedTable where
  name := name
  marker := marker
  fieldType := fieldType
  columns := columnsOf t
  relations := (s.available name).names.filterMap fun related => List.lookup related markers

/-- The typed tables of a schema, in document order. -/
def ofSchema (s : Schema) : Catalog :=
  let (markers, scope) := markersOf s
  let (fieldTypes, _) := scope.allocateAll (markers.map fun e => e.2 ++ "Field")
  ⟨(s.tables.entries.zip (markers.zip fieldTypes)).map fun (e, m, fieldType) =>
    typedTable s markers e.1 e.2 m.2 fieldType⟩

end Catalog

end NestedSelection
