import NestedSelection.Document
import NestedSelection.Schema.Basic

/-! # Schemas as documents

The layouts in which a document may describe a schema. A record is a mapping from field names to
values or a sequence of the values in the order of its fields; fields may be left out. A document
describes a schema itself or holds it under the name `public`.
-/

namespace NestedSelection

namespace Document

/-- The spellings of a record's fields, in the order of the fields. -/
abbrev FieldNames := List (List String)

/-- The field that a key names: by one of its spellings or by its place. -/
def FieldNames.index? (fields : FieldNames) : Key → Option Nat
  | .name s => fields.findIdx? (·.contains s)
  | .position n => if n < fields.length then some n else none
  | .other => none

/--
Takes in one entry of a record. A field may be given once; keys that name no field are passed
over, but a key must be able to name something.
-/
def assign? (fields : FieldNames) (slots : List (Option Document)) (entry : Key × Document) :
    Option (List (Option Document)) :=
  if entry.1 = .other then none
  else
    match fields.index? entry.1 with
    | none => some slots
    | some i =>
      match slots[i]? with
      | some none => some (slots.set i (some entry.2))
      | _ => none

/-- The values of a record's fields, as far as they are given. -/
def record? (fields : FieldNames) : Document → Option (List (Option Document))
  | .mapping entries => entries.foldlM (assign? fields) (fields.map fun _ => none)
  | .sequence items =>
    if items.length ≤ fields.length then
      some (items.map some ++ List.replicate (fields.length - items.length) none)
    else none
  | _ => none

def orDefault? {α : Type} (read : Document → Option α) (default : α) :
    Option Document → Option α
  | none => some default
  | some d => read d

end Document

open Document

namespace Relationship

def fieldNames : FieldNames :=
  [["foreignKeyName", "foreign_key_name"],
    ["columns"],
    ["referencedTable", "referencedRelation", "referenced_table"],
    ["referencedColumns", "referenced_columns"],
    ["isOneToOne", "is_one_to_one"]]

def ofDocument? (d : Document) : Option Relationship := do
  match ← record? fieldNames d with
  | [name, columns, table, referencedColumns, oneToOne] =>
    return {
      foreignKeyName := ← orDefault? (optional? text?) none name
      columns := ← orDefault? (list? text?) [] columns
      referencedTable := ← orDefault? (optional? text?) none table
      referencedColumns := ← orDefault? (list? text?) [] referencedColumns
      isOneToOne := ← orDefault? (optional? bool?) none oneToOne }
  | _ => none

/-- Absent values and empty lists are left out. -/
def toJson (r : Relationship) : Json :=
  .object <|
    (r.foreignKeyName.toList.map fun s => ("foreignKeyName", .text s)) ++
    (if r.columns.isEmpty then [] else [("columns", .array (r.columns.map .text))]) ++
    (r.referencedTable.toList.map fun s => ("referencedTable", .text s)) ++
    (if r.referencedColumns.isEmpty then []
      else [("referencedColumns", .array (r.referencedColumns.map .text))]) ++
    (r.isOneToOne.toList.map fun b => ("isOneToOne", .bool b))

end Relationship

namespace Table

def recordNames : FieldNames := [["row", "Row"], ["relationships", "Relationships"]]

def ofDocument? (d : Document) : Option Table := do
  match ← record? recordNames d with
  | [row, relationships] =>
    return {
      row := ← orDefault? (map? Document.toJson?) ∅ row
      relationships := ← orDefault? (list? Relationship.ofDocument?) [] relationships }
  | _ => none

def toJson (t : Table) : Json :=
  .object [("row", .object t.row.entries),
    ("relationships", .array (t.relationships.map Relationship.toJson))]

end Table

namespace Schema

def recordNames : FieldNames := [["tables", "Tables"]]

def ofFlat? (d : Document) : Option Schema := do
  match ← record? recordNames d with
  | [tables] => return { tables := ← orDefault? (map? Table.ofDocument?) ∅ tables }
  | _ => none

/-- A schema held under the name `public`. -/
def ofNamespaced? : Document → Option Schema
  | .mapping entries => do
    match ← record? [["public"]] (.mapping entries) with
    | [some d] => ofFlat? d
    | _ => none
  | _ => none

/-- The schema that a document describes, under its namespace before all else. -/
def ofDocument? (d : Document) : Option Schema := ofNamespaced? d <|> ofFlat? d

def toJson (s : Schema) : Json :=
  .object [("tables", .object (s.tables.entries.mapValues Table.toJson))]

end Schema

end NestedSelection
