import NestedSelection.Document
import NestedSelection.Toml.Token

/-! # Trees of TOML tables

The tables of a text grow statement by statement. How a table came about decides what may still be
added to it: a table with a header of its own, one that a header led through, and one that a
dotted key led through are told apart.
-/

namespace NestedSelection

namespace Toml

inductive TableKind where
  /-- Opened by a header of its own. -/
  | opened
  /-- Led through by the header of another table. -/
  | implied
  /-- Led through by a key with dots. -/
  | dotted
deriving DecidableEq, Repr

inductive Node where
  | value (d : Document)
  | table (kind : TableKind) (entries : List (String × Node))
  /-- An array of tables: those closed, and the one that later headers lead into. -/
  | tables (closed : List (List (String × Node))) (last : List (String × Node))

structure Line where
  key : Key
  value : Document

/-- A header with the lines below it. -/
structure Block where
  key : Key
  /-- Whether each such header adds a table to an array. -/
  repeated : Bool
  lines : List Line

namespace Node

/--
Gives a name a value in a table. A key leads through tables that have no header of their own, and
must end in one that a dotted key made.
-/
def assign (name : String) (d : Document) :
    List String → List (String × Node) → Option (List (String × Node))
  | [], entries =>
    if Entries.contains entries name then none else some (entries ++ [(name, .value d)])
  | parent :: path, entries =>
    match Entries.get? entries parent with
    | none => (assign name d path []).map fun inner =>
        Entries.insert entries parent (.table .dotted inner)
    | some (.table kind inner) =>
      if kind = .opened ∨ (path = [] ∧ kind ≠ .dotted) then none
      else (assign name d path inner).map fun inner =>
        Entries.insert entries parent (.table kind inner)
    | some (.tables closed last) =>
      if path = [] then none
      else (assign name d path last).map fun last =>
        Entries.insert entries parent (.tables closed last)
    | some (.value _) => none

def assignLines (entries : List (String × Node)) (lines : List Line) :
    Option (List (String × Node)) :=
  lines.foldlM (fun entries l => assign l.key.name l.value l.key.parents entries) entries

/-- Changes the table to which the parents of a header lead. -/
def within (change : List (String × Node) → Option (List (String × Node))) :
    List String → List (String × Node) → Option (List (String × Node))
  | [], entries => change entries
  | parent :: path, entries =>
    match Entries.get? entries parent with
    | none => (within change path []).map fun inner =>
        Entries.insert entries parent (.table .implied inner)
    | some (.table kind inner) => (within change path inner).map fun inner =>
        Entries.insert entries parent (.table kind inner)
    | some (.tables closed last) => (within change path last).map fun last =>
        Entries.insert entries parent (.tables closed last)
    | some (.value _) => none

/-- Opens a table. One that other headers led through moves to the end and keeps its entries. -/
def openTable (name : String) (lines : List Line) (entries : List (String × Node)) :
    Option (List (String × Node)) := do
  let before ← match Entries.get? entries name with
    | none => some []
    | some (.table .implied inner) => some inner
    | some _ => none
  let inner ← assignLines before lines
  return entries.filter (fun e => e.1 ≠ name) ++ [(name, .table .opened inner)]

/-- Adds a table to an array of tables. -/
def addTable (name : String) (lines : List Line) (entries : List (String × Node)) :
    Option (List (String × Node)) := do
  let closed ← match Entries.get? entries name with
    | none => some []
    | some (.tables closed last) => some (closed ++ [last])
    | some _ => none
  let inner ← assignLines [] lines
  return Entries.insert entries name (.tables closed inner)

def addBlock (entries : List (String × Node)) (b : Block) : Option (List (String × Node)) :=
  within ((if b.repeated then addTable else openTable) b.key.name b.lines) b.key.parents entries

mutual

def document : Node → Document
  | .value d => d
  | .table _ entries => .mapping (documents entries)
  | .tables closed last => .sequence (closedDocuments closed ++ [.mapping (documents last)])

def documents : List (String × Node) → List (Document.Key × Document)
  | [] => []
  | (name, node) :: rest => (.name name, document node) :: documents rest

def closedDocuments : List (List (String × Node)) → List Document
  | [] => []
  | entries :: rest => .mapping (documents entries) :: closedDocuments rest

end

end Node

/-- The document that lines and blocks make up. -/
def assemble (top : List Line) (blocks : List Block) : Option Document := do
  let entries ← Node.assignLines [] top
  let entries ← blocks.foldlM Node.addBlock entries
  return .mapping (Node.documents entries)

end Toml

end NestedSelection
