import NestedSelection.Binary64.Text
import NestedSelection.OrderedMap

/-! # Values of settings

Scalars, lists and tables, and how a value is laid over an earlier one: tables are merged entry by
entry, anything else is replaced. Names in tables do not tell upper from lower case.
-/

namespace NestedSelection

inductive Setting where
  | nil
  | bool (b : Bool)
  | integer (n : Int)
  | real (x : Binary64.Extended)
  | text (s : String)
  | list (items : List Setting)
  | table (entries : List (String × Setting))

namespace Setting

/-- The entries of a table. Anything else has none. -/
def entries : Setting → Entries Setting
  | .table l => l
  | _ => []

/-- The items of a list. Anything else has none. -/
def items : Setting → List Setting
  | .list l => l
  | _ => []

def get? (x : Setting) (name : String) : Option Setting := x.entries.get? name

/-- Enters a value into a table. Anything else gives way to a table. -/
def enter (x : Setting) (name : String) (value : Setting) : Setting :=
  .table (x.entries.insert name.toLower value)

mutual

/-- Lays a value over the one that was there, if there was one. -/
def overlay (base : Option Setting) : Setting → Setting
  | .table l => overlayEntries (base.getD (.table [])) l
  | .nil => .nil
  | .bool b => .bool b
  | .integer n => .integer n
  | .real x => .real x
  | .text s => .text s
  | .list l => .list l

def overlayEntries (base : Setting) : List (String × Setting) → Setting
  | [] => base
  | (name, x) :: rest =>
    overlayEntries (base.enter name (overlay (base.get? name.toLower) x)) rest

end

/-- How a number is written. Whole numbers have no point. -/
def realText : Binary64.Extended → String
  | .finite x => Layout.plain.render x
  | .infinite negative => if negative then "-inf" else "inf"
  | .notANumber => "NaN"

def text? : Setting → Option String
  | .bool b => some (if b then "true" else "false")
  | .integer n => some (toString n)
  | .real x => some (realText x)
  | .text s => some s
  | _ => none

end Setting

end NestedSelection
