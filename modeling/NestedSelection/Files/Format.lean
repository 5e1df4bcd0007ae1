/-! # Formats

The formats in which schemas and settings are written, and the extensions that tell them.
-/

namespace NestedSelection

inductive Format where
  | json
  | toml
  | yaml
deriving DecidableEq, Repr

namespace Format

def name : Format → String
  | .json => "JSON"
  | .toml => "TOML"
  | .yaml => "YAML"

def extensions : Format → List String
  | .json => ["json"]
  | .toml => ["toml"]
  | .yaml => ["yaml", "yml"]

def values : List Format := [.json, .toml, .yaml]

def ofExtension? (extension : String) : Option Format :=
  values.find? fun f => f.extensions.contains extension

end Format

end NestedSelection
