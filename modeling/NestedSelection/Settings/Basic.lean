import NestedSelection.Selection.Check
import NestedSelection.Settings.Address
import NestedSelection.Settings.File

/-! # Settings

The path of the schema and the policy, as the section `select` of a settings file and of the
environment gives them. The environment is laid over the file.
-/

namespace NestedSelection

structure Settings where
  schemaPath : Option String := none
  policy : Policy := default
deriving DecidableEq, Repr

inductive SettingsError where
  /-- A file that was asked for is missing or cannot be read. -/
  | file
  /-- The section does not have the form of settings. -/
  | unfit
deriving DecidableEq, Repr

def SettingsError.unfitMessage : String :=
  "Select configuration could not be loaded from file or environment"

namespace Settings

abbrev Environment := List (String × String)

def variableStart : List Char := "relselect__".toList

/-- Two underscores part the names of an address. -/
def dotted : List Char → List Char
  | '_' :: '_' :: rest => '.' :: dotted rest
  | c :: rest => c :: dotted rest
  | [] => []

/-- The name that a variable gives a value to, if it is one for settings. -/
def settingName? (name : String) : Option String :=
  let s := name.toLower.toList
  if variableStart.isPrefixOf s then
    some (String.ofList (dotted (s.drop variableStart.length)))
  else none

def ofEnvironment (env : Environment) : List (String × Setting) :=
  env.filterMap fun (name, value) => (settingName? name).map (·, .text value)

/-- The path of the schema; without one there is none. -/
def schemaPath? : Setting → Option (Option String)
  | .nil => some none
  | x => x.text?.map some

/-- A policy by its name, or as a table that has only that name. -/
def policy? : Setting → Option Policy
  | .text s => Policy.ofName? s.toLower
  | .table [(name, _)] => Policy.ofName? name.toLower
  | _ => none

def orDefault? {α : Type} (read : Setting → Option α) (default : α) : Option Setting → Option α
  | none => some default
  | some x => read x

def ofParts? (schemaPath policy : Option Setting) : Option Settings := do
  let schemaPath ← orDefault? schemaPath? none schemaPath
  let policy ← orDefault? policy? default policy
  return { schemaPath, policy }

/-- The settings that a section gives: by name, or as a list in order. -/
def ofSection? : Setting → Option Settings
  | .table l => ofParts? (Entries.get? l "schema_path") (Entries.get? l "relation_policy")
  | .list l => ofParts? l[0]? l[1]?
  | _ => none

/-- The settings of files and environment together. Without the section all have their defaults. -/
def ofLayers (file : Entries Setting) (env : Environment) : Except SettingsError Settings :=
  match (Setting.layer (Setting.layer (.table []) file) (ofEnvironment env)).get? "select" with
  | none => .ok {}
  | some x =>
    match ofSection? x with
    | some s => .ok s
    | none => .error .unfit

def standardPath : String := "config/relselect.toml"

/-- The settings in the standard place. A file that cannot be read counts as missing. -/
def load (files : FileTree) (env : Environment) : Except SettingsError Settings :=
  ofLayers ((Setting.ofFile? files standardPath).getD []) env

/-- The settings in a file, which must be there. -/
def loadFrom (files : FileTree) (env : Environment) (path : String) :
    Except SettingsError Settings :=
  match Setting.ofFile? files path with
  | none => .error .file
  | some file => ofLayers file env

end Settings

end NestedSelection
