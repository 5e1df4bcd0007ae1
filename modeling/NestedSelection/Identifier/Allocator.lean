import NestedSelection.Identifier.Basic

/-! # Allocating identifiers

Within one scope no identifier is given out twice: a name whose identifier is taken gets the same
one with the least number from two on that makes it new. Of `n + 1` candidates at most `n` can be
taken, so the search ends.
-/

namespace NestedSelection

namespace Identifier

/-- The identifiers taken in one scope, the last one first. -/
structure Allocator where
  taken : List String := []

namespace Allocator

/-- The candidates for an identifier, from the plain one on. -/
def candidate (base : String) : Nat → String
  | 0 => base
  | n + 1 => base ++ toString (n + 2)

/-- The first candidate from the `n`-th on that is not taken, among so many. -/
def seek (taken : List String) (base : String) (n : Nat) : Nat → Option String
  | 0 => none
  | count + 1 =>
    if taken.contains (candidate base n) then seek taken base (n + 1) count
    else some (candidate base n)

/-- The identifier that a name gets in this scope. -/
def next (a : Allocator) (name : String) : String :=
  (seek a.taken (ofName name) 0 (a.taken.length + 1)).getD (ofName name)

def allocate (a : Allocator) (name : String) : String × Allocator :=
  (a.next name, ⟨a.next name :: a.taken⟩)

def allocateAll (a : Allocator) : List String → List String × Allocator
  | [] => ([], a)
  | name :: rest =>
    let (identifier, a) := a.allocate name
    let (identifiers, a) := a.allocateAll rest
    (identifier :: identifiers, a)

end Allocator

end Identifier

end NestedSelection
