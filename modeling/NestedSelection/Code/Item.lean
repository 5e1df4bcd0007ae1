import NestedSelection.Catalog.Basic
import NestedSelection.Code.Token

/-! # Items of a generated module

What source code says about a catalogue. Per table there are a marker type, an enumeration of its
fields, the names of these fields, the name of the table, and one item for each table that may be
nested under it.
-/

namespace NestedSelection

namespace Code

inductive Item where
  /-- The marker type of a table. -/
  | unitStruct (name type : String)
  /-- The type of a table's fields, with its variants. -/
  | fieldEnum (name type : String) (variants : List String)
  /-- The column of each variant of a field type. -/
  | fieldImpl (type : String) (columns : List TypedColumn)
  /-- The name and the field type of a marker's table. -/
  | tableImpl (marker name fieldType : String)
  /-- The second marker's table may hold the first one's in a selection. -/
  | includableImpl (related marker : String)
deriving DecidableEq, Repr

end Code

open Code

def TypedTable.items (t : TypedTable) : List Item :=
  [.unitStruct t.name t.marker,
    .fieldEnum t.name t.fieldType (t.columns.map (·.variant)),
    .fieldImpl t.fieldType t.columns,
    .tableImpl t.marker t.name t.fieldType] ++
  t.relations.map fun related => .includableImpl related t.marker

def Catalog.items (c : Catalog) : List Item := c.tables.flatMap TypedTable.items

namespace Code

open Token

def words (l : List String) : List Token := l.map .word

def parens (l : List Token) : Token := .group .parentheses l

def braces (l : List Token) : Token := .group .braces l

def brackets (l : List Token) : Token := .group .brackets l

/-- A path from the root of all names to one of the typed layer. -/
def layerPath (name : String) : List Token :=
  words ["::", "relselect", "::", "typed", "::", name]

def doc (text : String) : List Token :=
  [.word "#", brackets [.word "doc", .word "=", .literal text]]

def derive : List Token :=
  [.word "#", brackets [.word "derive", parens (words
    ["Debug", ",", "Clone", ",", "Copy", ",", "PartialEq", ",", "Eq", ",", "Hash"])]]

def staticText : List Token := words ["&", "'static", "str"]

def arm (type : String) (c : TypedColumn) : List Token :=
  words [type, "::", c.variant, "=>"] ++ [.literal c.name, .word ","]

namespace Item

def tokens : Item → List Token
  | .unitStruct name type =>
    doc (" `" ++ name ++ "` table") ++ derive ++ words ["pub", "struct", type, ";"]
  | .fieldEnum name type variants =>
    doc (" Row fields of `" ++ name ++ "`") ++ derive ++ words ["pub", "enum", type] ++
      [braces (variants.flatMap fun v => words [v, ","])]
  | .fieldImpl type columns =>
    .word "impl" :: layerPath "Field" ++ words ["for", type] ++
      [braces (words ["fn", "name"] ++ [parens [.word "self"], .word "->"] ++ staticText ++
        [braces (words ["match", "self"] ++ [braces (columns.flatMap (arm type))])])]
  | .tableImpl marker name fieldType =>
    .word "impl" :: layerPath "Table" ++ words ["for", marker] ++
      [braces (words ["const", "NAME", ":"] ++ staticText ++
        [.word "=", .literal name, .word ";"] ++ words ["type", "Field", "=", fieldType, ";"])]
  | .includableImpl related marker =>
    .word "impl" :: layerPath "Includable" ++ words ["<", related, ">", "for", marker] ++
      [braces []]

end Item

/-- The comment that opens a generated module. -/
def header : String := "// @generated by relselect-codegen. Do not edit by hand.\n\n"

def render (items : List Item) : String :=
  header ++ String.ofList (spaced (items.flatMap Item.tokens))

end Code

/-- The module that describes a schema to the typed layer. -/
def Schema.code (s : Schema) : String := render (Catalog.ofSchema s).items

end NestedSelection
