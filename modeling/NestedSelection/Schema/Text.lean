import NestedSelection.Files.Format
import NestedSelection.Json.Reader
import NestedSelection.Schema.Document
import NestedSelection.Toml.Reader
import NestedSelection.Yaml.Reader

/-! # Schemas as text

A schema is read from JSON, TOML or YAML text. The text is read as a document, and the document as
a schema; a document in none of the layouts of a schema has a shape of its own.
-/

namespace NestedSelection

/-- Why a text holds no document of the wanted kind. -/
inductive TextError where
  | endOfText
  | malformed
  | shape
deriving DecidableEq, Repr

/-- The message for a text of this format that holds no schema. -/
def Format.invalid (f : Format) : String := "Invalid " ++ f.name ++ " schema"

namespace Schema

/-- What a document says when it is in none of the layouts of a schema. -/
def noLayout : Json.Mismatch := .noLayout "SchemaDocument"

def shapeMessage (f : Format) : String := f.invalid ++ ": " ++ noLayout.message

/-- A schema at the start of a JSON text. -/
def jsonReader : Json.Reader Schema := fun s =>
  match Json.document Json.maxDepth s with
  | .error e => .error e
  | .ok p =>
    match ofDocument? p.value with
    | some schema => .ok (p.map fun _ => schema)
    | none => .error (.mismatch noLayout)

def jsonError : Json.ReadError → TextError
  | .endOfText => .endOfText
  | .malformed => .malformed
  | .mismatch _ => .shape

def ofJsonText (text : String) : Except TextError Schema :=
  (Json.readText jsonReader text).mapError jsonError

def ofShaped (d : Document) : Except TextError Schema :=
  match ofDocument? d with
  | some schema => .ok schema
  | none => .error .shape

def ofRead (d : Option Document) : Except TextError Schema :=
  match d with
  | none => .error .malformed
  | some d => ofShaped d

def ofText : Format → String → Except TextError Schema
  | .json, text => ofJsonText text
  | .toml, text => ofRead (Toml.ofText? text)
  | .yaml, text => ofRead (Yaml.ofText? text)

end Schema

end NestedSelection
