import NestedSelection.Relations
import NestedSelection.Selection.Query

/-! # Checking selections against a schema

A selection fits a table of a schema if every wanted field is a field of its table and every
nested table is related to the one it is nested under. The check goes through the selection depth
first, in order, and stops at the first violation.
-/

namespace NestedSelection

/-- A way in which a selection does not fit a schema. The names of a path have dots between them. -/
inductive Violation where
  | unknownTable (table : String)
  | unknownField (path : String) (table field : String)
  | invalidRelation (path : String) (table relation : String) (available : NameSet)
deriving DecidableEq

namespace Violation

def pathText (path : List String) : String := ".".intercalate path

def message : Violation → String
  | .unknownTable table => "Unknown table '" ++ table ++ "'"
  | .unknownField path table field =>
    "Unknown field '" ++ field ++ "' on table '" ++ table ++ "' (at '" ++ path ++ "')"
  | .invalidRelation path table relation available =>
    "'" ++ relation ++ "' is not a relation of '" ++ table ++ "' (at '" ++ path ++
      "'); available: [" ++ ", ".intercalate available.names ++ "]"

end Violation

namespace Selection

mutual

/--
Checks the selection of a table at the end of a path. One path is used throughout: a relation is
put on it before its table is checked and taken off again afterwards.
-/
def checkAt (schema : Schema) (path : List String) (table : String) :
    Selection → Except Violation (List String)
  | .node select nested =>
    match schema.table? table with
    | none => .error (.unknownTable table)
    | some t =>
      match (node select none).selectedFields.find? fun name => !t.hasField name with
      | some name => .error (.unknownField (Violation.pathText path) table name)
      | none => checkNested schema path table (schema.available table) nested

def checkNested (schema : Schema) (path : List String) (table : String) (available : NameSet) :
    Option (List (String × Selection)) → Except Violation (List String)
  | none => .ok path
  | some children => checkChildren schema path table available children

def checkChildren (schema : Schema) (path : List String) (table : String) (available : NameSet) :
    List (String × Selection) → Except Violation (List String)
  | [] => .ok path
  | (relation, child) :: rest =>
    if available.contains relation then
      match checkAt schema (path ++ [relation]) relation child with
      | .error v => .error v
      | .ok path => checkChildren schema path.dropLast table available rest
    else .error (.invalidRelation (Violation.pathText path) table relation available)

end

def check (schema : Schema) (table : String) (s : Selection) : Except Violation Unit :=
  if schema.contains table then (s.checkAt schema [table] table).map fun _ => ()
  else .error (.unknownTable table)

end Selection

/-- What is done about selections that do not fit the schema. -/
inductive Policy where
  | permissive
  | strict
deriving DecidableEq, Repr

namespace Policy

def name : Policy → String
  | .permissive => "permissive"
  | .strict => "strict"

def values : List Policy := [.permissive, .strict]

def ofName? (s : String) : Option Policy := values.find? fun p => p.name = s

instance : Inhabited Policy := ⟨.permissive⟩

end Policy

namespace Selection

/-- The query expression, which a strict policy gives only for selections that fit the schema. -/
def compile (policy : Policy) (schema : Schema) (table : String) (s : Selection) :
    Except Violation String :=
  match policy with
  | .permissive => .ok s.query
  | .strict => (s.check schema table).map fun _ => s.query

end Selection

end NestedSelection
