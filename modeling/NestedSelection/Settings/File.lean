import NestedSelection.Files.Format
import NestedSelection.Files.Tree
import NestedSelection.Json.Reader
import NestedSelection.Powers
import NestedSelection.Settings.Scalar
import NestedSelection.Settings.Setting
import NestedSelection.Toml.Reader
import NestedSelection.Yaml.Reader

/-! # Files of settings

The extension of a file tells its format. A name without the extension finds the file as well.
-/

namespace NestedSelection

namespace Setting

/-- An integer, which beyond 64 bits is a number like any other. -/
def ofInteger (n : Int) : Setting :=
  if -(twoTo 63 : Int) ≤ n ∧ n < twoTo 63 then .integer n
  else
    .real ((Binary64.nearest? (n < 0) n.natAbs 1).elim (.infinite (n < 0)) .finite)

def nameOfKey? : Document.Key → Option String
  | .name s => some s
  | .position n => some (toString n)
  | .other => none

/-- A table of entries. In YAML no name may be given twice. -/
def tableOf? (format : Format) (l : List (String × Setting)) : Option Setting :=
  if format = .yaml && !decide (l.map Prod.fst).Nodup then none
  else some (.table (Entries.ofList l))

mutual

/-- The value that a document of a format holds. A moment in TOML is its text. -/
def ofDocument? (format : Format) : Document → Option Setting
  | .null => some .nil
  | .bool b => some (.bool b)
  | .integer n => some (ofInteger n)
  | .real x => some (.real x)
  | .text s => some (.text s)
  | .sequence items => (ofItems? format items).map .list
  | .mapping entries =>
    match format, entries with
    | .toml, [(.name name, .text s)] =>
      some (if name = Toml.momentName then .text s else .table [(name, .text s)])
    | _, _ => (ofEntries? format entries).bind (tableOf? format)

def ofItems? (format : Format) : List Document → Option (List Setting)
  | [] => some []
  | d :: rest => do return (← ofDocument? format d) :: (← ofItems? format rest)

def ofEntries? (format : Format) :
    List (Document.Key × Document) → Option (List (String × Setting))
  | [] => some []
  | (key, d) :: rest => do
    return (← nameOfKey? key, ← ofDocument? format d) :: (← ofEntries? format rest)

end

def ofTable? (format : Format) (d : Document) : Option (Entries Setting) :=
  match ofDocument? format d with
  | some (.table l) => some l
  | _ => none

/-- The settings that a text of a format holds. A YAML text without a document holds none. -/
def ofText? (format : Format) (text : String) : Option (Entries Setting) :=
  match format with
  | .json => (Json.readText (Json.document Json.maxDepth ·) text).toOption.bind (ofTable? .json)
  | .toml => (Toml.ofText? text).bind (ofTable? .toml)
  | .yaml =>
    match Yaml.root? text with
    | none => none
    | some none => some []
    | some (some n) => (n.document rules).bind (ofTable? .yaml)

/-- A mark of the byte order at the start of a file is no part of its text. -/
def textOf (b : ByteArray) : String :=
  Utf8.lenient (if b.data.toList.take 3 = [0xef, 0xbb, 0xbf] then b.extract 3 b.size else b)

def atPath? (files : FileTree) (p : Path) : Option (Format × ByteArray) := do
  let b ← (files.readBytes p).toOption
  let extension ← p.extension?
  let format ← Format.ofExtension? extension
  return (format, b)

/-- The first of the files that extensions make of a path. -/
def withExtension? (files : FileTree) (p : Path) : Option (Format × ByteArray) :=
  Format.values.findSome? fun format => format.extensions.findSome? fun extension => do
    let q ← p.withExtension extension
    let b ← (files.readBytes q).toOption
    return (format, b)

def ofFile? (files : FileTree) (path : String) : Option (Entries Setting) := do
  let p := Path.ofText path
  let (format, b) ← if files.isFile p then atPath? files p else withExtension? files p
  ofText? format (textOf b)

end Setting

end NestedSelection
