import NestedSelection.Text.Visible

/-! # Quoted text

Text between double quotes, with escapes for the quote, the backslash and every character that
cannot be shown. Two styles differ in one point: a source literal must not let a digit run into
the escape of the NUL character.
-/

namespace NestedSelection

namespace Quoted

def hexDigits (n : Nat) : List Char := Nat.toDigits 16 n

/-- The text of one character between quotes, other than NUL. -/
def escape (c : Char) : List Char :=
  if c = '"' then ['\\', '"']
  else if c = '\\' then ['\\', '\\']
  else if c = '\n' then ['\\', 'n']
  else if c = '\r' then ['\\', 'r']
  else if c = '\t' then ['\\', 't']
  else if isVisible c then [c]
  else '\\' :: 'u' :: '\x7b' :: hexDigits c.toNat ++ ['\x7d']

def isOctalDigit (c : Char) : Bool := '0' ≤ c && c ≤ '7'

/-- A NUL is written `\0`, and `\x00` where an octal digit follows. -/
def literalBody : List Char → List Char
  | [] => []
  | c :: rest =>
    (if c = '\x00' then
      if rest.head?.any isOctalDigit then ['\\', 'x', '0', '0'] else ['\\', '0']
    else escape c) ++ literalBody rest

def displayBody : List Char → List Char
  | [] => []
  | c :: rest => (if c = '\x00' then ['\\', '0'] else escape c) ++ displayBody rest

end Quoted

/-- A string literal of source text. -/
def quoteLiteral (s : String) : String :=
  String.ofList ('"' :: Quoted.literalBody s.toList ++ ['"'])

def quoteDisplay (s : String) : String :=
  String.ofList ('"' :: Quoted.displayBody s.toList ++ ['"'])

end NestedSelection
