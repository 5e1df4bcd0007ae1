import NestedSelection.Text.Quoted

/-! # Source tokens

Source text as a tree of tokens, and its text: one space between each two tokens, none within
parentheses and brackets, one within braces.
-/

namespace NestedSelection

namespace Code

inductive Delimiter where
  | parentheses
  | brackets
  | braces
deriving DecidableEq, Repr

inductive Token where
  /-- An identifier, a keyword or an operator. -/
  | word (s : String)
  | literal (s : String)
  | group (d : Delimiter) (inner : List Token)

namespace Token

def enclose (d : Delimiter) (inner : List Char) : List Char :=
  match d with
  | .parentheses => '(' :: inner ++ [')']
  | .brackets => '[' :: inner ++ [']']
  | .braces =>
    '\x7b' :: ' ' :: (if inner.isEmpty then ['\x7d'] else inner ++ [' ', '\x7d'])

mutual

def chars : Token → List Char
  | .word s => s.toList
  | .literal s => (quoteLiteral s).toList
  | .group d inner => enclose d (spaced inner)

def spaced : List Token → List Char
  | [] => []
  | [t] => chars t
  | t :: u :: rest => chars t ++ ' ' :: spaced (u :: rest)

end

end Token

end Code

end NestedSelection
