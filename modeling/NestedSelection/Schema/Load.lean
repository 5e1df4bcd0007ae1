import NestedSelection.Files.Tree
import NestedSelection.Schema.Text
import NestedSelection.Text.Blank

/-! # Schemas in files

The extension of a file tells the format of the schema in it. Where it does not, the text does.
-/

namespace NestedSelection

/-- The format that a text seems to have. -/
def Format.ofText? (text : List Char) : Option Format :=
  let first := (trimBlank text).head?
  if first = some '\x7b' then some .json
  else if first = some '[' || text.contains '=' then some .toml
  else if text.contains ':' then some .yaml
  else none

inductive LoadError where
  | file (path : String) (e : FileError)
  | unknownFormat (path : String)
  | text (format : Format) (e : TextError)
deriving DecidableEq, Repr

def LoadError.message : LoadError → String
  | .file path e => "Failed to read schema '" ++ path ++ "': " ++ e.message
  | .unknownFormat path =>
    "Unknown schema format for '" ++ path ++ "'. Supported: .json, .toml, .yaml"
  | .text format _ => format.invalid

def Schema.load (files : FileTree) (path : String) : Except LoadError Schema :=
  match files.readText (.ofText path) with
  | .error e => .error (.file path e)
  | .ok text =>
    match (Path.ofText path).extension?.bind Format.ofExtension? <|> Format.ofText? text.toList with
    | none => .error (.unknownFormat path)
    | some format => (Schema.ofText format text).mapError (.text format)

end NestedSelection
