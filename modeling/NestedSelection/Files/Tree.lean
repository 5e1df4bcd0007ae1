import NestedSelection.Files.Path
import NestedSelection.Text.Utf8

/-! # File trees

Files and directories as a program sees them from its working directory, and why they may not be
read or written.
-/

namespace NestedSelection

inductive FileError where
  | notFound
  | exists
  | notDirectory
  | isDirectory
  | notText
deriving DecidableEq, Repr

def FileError.message : FileError → String
  | .notFound => "No such file or directory (os error 2)"
  | .exists => "File exists (os error 17)"
  | .notDirectory => "Not a directory (os error 20)"
  | .isDirectory => "Is a directory (os error 21)"
  | .notText => "stream did not contain valid UTF-8"

/-- What may be found at a place. -/
inductive Entry where
  | file (bytes : ByteArray)
  | directory

/-- A place: the names on the way to it from the root. -/
abbrev Place := List String

structure FileTree where
  entries : List (Place × Entry) := []
  workingDirectory : Place := []

namespace FileTree

/-- What is at a place. The directories on the way to a place are there with it. -/
def at? (t : FileTree) (place : Place) : Option Entry :=
  match List.lookup place t.entries with
  | some e => some e
  | none =>
    if place.isPrefixOf t.workingDirectory || t.entries.any fun e => place.isPrefixOf e.1 then
      some .directory
    else none

/-- Follows names from a place. Only from a directory a step can be taken. -/
def follow (t : FileTree) (place : Place) : List String → Except FileError Place
  | [] => .ok place
  | name :: rest =>
    match t.at? place with
    | none => .error .notFound
    | some (.file _) => .error .notDirectory
    | some .directory =>
      if name = "." then t.follow place rest
      else if name = ".." then t.follow place.dropLast rest
      else t.follow (place ++ [name]) rest

/-- Where a path starts. -/
def start (t : FileTree) (p : Path) : Place := if p.isAbsolute then [] else t.workingDirectory

/-- The place to which a path leads. Its last name need not be there. -/
def locate (t : FileTree) (p : Path) : Except FileError Place :=
  if p.isEmpty then .error .notFound else t.follow (t.start p) p.parts

def readBytes (t : FileTree) (p : Path) : Except FileError ByteArray :=
  match t.locate p with
  | .error e => .error e
  | .ok place =>
    match t.at? place with
    | none => .error .notFound
    | some .directory => .error .isDirectory
    | some (.file b) => if p.endsInSlash then .error .notDirectory else .ok b

def readText (t : FileTree) (p : Path) : Except FileError String :=
  match t.readBytes p with
  | .error e => .error e
  | .ok b =>
    match Utf8.strict? b with
    | some s => .ok s
    | none => .error .notText

def isFile (t : FileTree) (p : Path) : Bool := (t.readBytes p).isOk

def put (t : FileTree) (place : Place) (e : Entry) : FileTree :=
  { t with entries := (place, e) :: t.entries.filter fun x => x.1 ≠ place }

/-- Makes the directories that names lead through, as far as they are missing. -/
def makeDirectories (t : FileTree) (place : Place) : List String → Except FileError FileTree
  | [] =>
    match t.at? place with
    | some (.file _) => .error .exists
    | _ => .ok t
  | name :: rest =>
    match t.at? place with
    | some (.file _) => .error .notDirectory
    | _ =>
      if name = "." then t.makeDirectories place rest
      else if name = ".." then t.makeDirectories place.dropLast rest
      else
        let next := place ++ [name]
        let t := if (t.at? next).isNone then t.put next .directory else t
        t.makeDirectories next rest

def write (t : FileTree) (p : Path) (b : ByteArray) : Except FileError FileTree :=
  match t.locate p with
  | .error e => .error e
  | .ok place =>
    match t.at? place with
    | some .directory => .error .isDirectory
    | _ => if p.endsInSlash then .error .isDirectory else .ok (t.put place (.file b))

def writeWithDirectories (t : FileTree) (p : Path) (b : ByteArray) : Except FileError FileTree :=
  match t.makeDirectories (t.start p) p.parentNames with
  | .error e => .error e
  | .ok t => t.write p b

/-- Files by their paths in a working directory. -/
def ofFiles (workingDirectory : Place) (files : List (String × ByteArray)) : FileTree :=
  files.foldl (fun t (name, b) =>
    match t.writeWithDirectories (.ofText name) b with
    | .ok t => t
    | .error _ => t) { workingDirectory }

end FileTree

end NestedSelection
