import NestedSelection.Code.Item
import NestedSelection.Command.Line
import NestedSelection.Schema.Load
import NestedSelection.Selection.Reader
import NestedSelection.Settings.Basic

/-! # Running commands

A command reads the schema and prints what it finds out, or writes code to a file. What it prints
before it fails stays printed.
-/

namespace NestedSelection

/-- What a command line comes to. -/
structure Report where
  code : Nat
  printed : String := ""
  error : Option String := none
  files : FileTree

namespace Report

def success (files : FileTree) (printed : String) : Report := { code := 0, printed, files }

def failure (files : FileTree) (message : String) (printed : String := "") : Report :=
  { code := 1, printed, error := some message, files }

end Report

namespace Command

/-- Lines of text, each with its end. -/
def lines (l : List String) : String := String.join (l.map (· ++ "\n"))

def countText (n : Nat) : String := toString n ++ (if n = 1 then " table" else " tables")

def writeCode (files : FileTree) (schema : Schema) (input output : String) : Report :=
  let heading := lines ["🔧 relselect Codegen", "📥 Schema: " ++ input, "📤 Output: " ++ output]
  if schema.isEmpty then .failure files "No tables found in schema" heading
  else
    match files.writeWithDirectories (.ofText output) schema.code.toUTF8 with
    | .error e => .failure files e.message heading
    | .ok files => .success files (heading ++ lines ["✨ Generated " ++ countText schema.size])

def joined (s : NameSet) : String := String.intercalate ", " s.names

def printRelations (files : FileTree) (schema : Schema) (table : String) : Report :=
  if schema.contains table then
    .success files (lines ["forward:   " ++ joined (schema.forward table),
      "inverse:   " ++ joined (schema.inverse table),
      "available: " ++ joined (schema.available table)])
  else .failure files ("Unknown table '" ++ table ++ "'")

/-- The text of a selection, which is given itself or by the path of a file. -/
def selectionText (files : FileTree) (selection : String) : Except FileError String :=
  if (trimBlank selection.toList).head? = some '\x7b' then .ok selection
  else files.readText (.ofText selection)

def printQuery (files : FileTree) (schema : Schema) (policy : Policy) (table selection : String) :
    Report :=
  match selectionText files selection with
  | .error _ => .failure files ("Failed to read selection '" ++ selection ++ "'")
  | .ok text =>
    match Selection.ofJsonText text with
    | .error _ => .failure files "Invalid selection JSON"
    | .ok s =>
      match s.compile policy schema table with
      | .error v => .failure files v.message
      | .ok query => .success files (lines [query])

def run (files : FileTree) (schema : Schema) (path : String) (policy : Policy) :
    Command → Report
  | .generate output => writeCode files schema path output
  | .relations table => printRelations files schema table
  | .compile table selection strict =>
    printQuery files schema (if strict then .strict else policy) table selection

end Command

namespace CommandLine

def run (files : FileTree) (env : Settings.Environment) (line : CommandLine) : Report :=
  match Settings.load files env with
  | .error _ => .failure files "Failed to load configuration"
  | .ok settings =>
    match line.schema <|> settings.schemaPath with
    | none => .failure files "No schema given. Use --schema or set select.schema_path"
    | some path =>
      match Schema.load files path with
      | .error e => .failure files e.message
      | .ok schema => line.command.run files schema path settings.policy

/-- Reads and runs the words of a command line. -/
def runWords (files : FileTree) (env : Settings.Environment) (words : List String) : Report :=
  match read words with
  | .error .help => .success files ""
  | .error .misuse => { code := 2, files }
  | .ok line => line.run files env

end CommandLine

end NestedSelection
