import NestedSelection.Text.Piece

/-! # Paths

Paths as text: names with slashes between them.
-/

namespace NestedSelection

structure Path where
  isAbsolute : Bool
  /-- The names between the slashes, steps in place and to the parent included. -/
  parts : List String
  /-- Whether the path ends in a slash. -/
  endsInSlash : Bool
deriving DecidableEq, Repr

namespace Path

def split : List Char → List (List Char)
  | [] => [[]]
  | '/' :: rest => [] :: split rest
  | c :: rest =>
    match split rest with
    | [] => [[c]]
    | part :: parts => (c :: part) :: parts

def ofText (s : String) : Path where
  isAbsolute := s.toList.head? == some '/'
  parts := ((split s.toList).filter (!·.isEmpty)).map String.ofList
  endsInSlash := s.toList.getLast? == some '/'

def isEmpty (p : Path) : Bool := p.parts.isEmpty && !p.isAbsolute

/-- The names on the path, without steps in place. -/
def names (p : Path) : List String := p.parts.filter (· ≠ ".")

def fileName? (p : Path) : Option String := p.names.getLast?.filter (· ≠ "..")

/-- What follows the last dot of the file's name, unless that is its first character. -/
def extension? (p : Path) : Option String := do
  let name ← p.fileName?
  let after := name.toList.reverse.takeWhile (· ≠ '.')
  if after.length + 1 < name.toList.length then some (String.ofList after.reverse) else none

def parentNames (p : Path) : List String := p.names.dropLast

def withExtension (p : Path) (extension : String) : Option Path := do
  let name ← p.fileName?
  return { p with parts := p.names.dropLast ++ [name ++ "." ++ extension], endsInSlash := false }

end Path

end NestedSelection
