/-! # Identifiers

Names of tables and columns may be any text. In source code they become identifiers in Pascal
case: each run of letters and digits starts with an upper-case letter, and all else is dropped.
-/

namespace NestedSelection

namespace Identifier

/--
The letters and digits of a text, each run of them with its first letter in upper case. The flag
says whether a run may start.
-/
def pascalChars (atStart : Bool) : List Char → List Char
  | [] => []
  | c :: rest =>
    if c.isAlphanum then (if atStart then c.toUpper else c) :: pascalChars false rest
    else pascalChars true rest

def pascalCase (name : String) : String := String.ofList (pascalChars true name.toList)

/-- The identifier for a name without letters and digits. -/
def unnamed : List Char := ['U', 'n', 'n', 'a', 'm', 'e', 'd']

/-- The only keyword that Pascal case can give. -/
def selfKeyword : List Char := ['S', 'e', 'l', 'f']

/-- Pascal case made legal: never empty, not started by a digit, and not a keyword. -/
def legalize : List Char → List Char
  | [] => unnamed
  | c :: rest =>
    if c.isDigit then '_' :: c :: rest
    else if c :: rest = selfKeyword then selfKeyword ++ ['_']
    else c :: rest

/-- The identifier for a name, before it is told apart from others. -/
def ofName (name : String) : String := String.ofList (legalize (pascalCase name).toList)

end Identifier

end NestedSelection
