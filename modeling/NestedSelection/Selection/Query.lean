import NestedSelection.Selection.Basic

/-! # Query expressions

A selection as the text that a client sends: the wanted fields separated by commas, or `*`, and
then each related table with its own expression in parentheses. Names are written as they are.
-/

namespace NestedSelection

namespace Selection

/-- The fields clause: `*` stands for all fields. -/
def fieldsClause (names : List String) : List Char :=
  match names with
  | [] => ['*']
  | name :: rest => name.toList ++ rest.flatMap fun n => ',' :: n.toList

mutual

def queryChars : Selection → List Char
  | .node select nested => fieldsClause (node select none).selectedFields ++ nestedChars nested

def nestedChars : Option (List (String × Selection)) → List Char
  | none => []
  | some children => relationClauses children

def relationClauses : List (String × Selection) → List Char
  | [] => []
  | (relation, child) :: rest =>
    ',' :: relation.toList ++ '(' :: queryChars child ++ ')' :: relationClauses rest

end

def query (s : Selection) : String := String.ofList s.queryChars

end Selection

end NestedSelection
