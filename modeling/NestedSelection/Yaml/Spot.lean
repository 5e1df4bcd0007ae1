import NestedSelection.Text.Piece

/-! # YAML text by place

In YAML it matters where a character stands. A text is a list of spots: characters with their line
and column. Line ends of the common kinds are one and the same character.
-/

namespace NestedSelection

namespace Yaml

structure Spot where
  char : Char
  line : Nat
  column : Nat

/-- The characters that may occur in a text. -/
def isAllowed (c : Char) : Bool :=
  let n := c.toNat
  n = 0x09 || n = 0x0a || n = 0x0d || (0x20 ≤ n && n ≤ 0x7e) || n = 0x85 ||
    (0xa0 ≤ n && n ≤ 0xd7ff) || (0xe000 ≤ n && n ≤ 0xfffd) || 0x10000 ≤ n

/-- Line ends of one or two characters become one newline. The two separators stay. -/
def joinBreaks : List Char → List Char
  | [] => []
  | '\r' :: '\n' :: rest => '\n' :: joinBreaks rest
  | c :: rest => (if c = '\r' || c = '\u0085' then '\n' else c) :: joinBreaks rest

def isBreak (c : Char) : Bool := c = '\n' || c = '\u2028' || c = '\u2029'

def isGap (c : Char) : Bool := c = ' ' || c = '\t'

def place (line column : Nat) : List Char → List Spot
  | [] => []
  | c :: rest =>
    ⟨c, line, column⟩ :: if isBreak c then place (line + 1) 0 rest else place line (column + 1) rest

/-- The spots of a text, unless it holds a character that may not occur. -/
def spots? (text : List Char) : Option (List Spot) :=
  if text.all isAllowed then some (place 0 0 (joinBreaks text)) else none

abbrev Reader (α : Type) := (s : List Spot) → Option (Piece α s)

/-- Whether nothing but a gap, a line end or the end of the text comes next. -/
def endsWord : List Spot → Bool
  | [] => true
  | p :: _ => isGap p.char || isBreak p.char

def startsWith (c : Char) : List Spot → Bool
  | [] => false
  | p :: _ => p.char = c

/-- Whether a line starts that consists of three marks, or starts with them and a gap. -/
def isThreeMarks (c : Char) : List Spot → Bool
  | p :: q :: r :: rest =>
    p.column = 0 && p.char = c && q.char = c && r.char = c && endsWord rest
  | _ => false

/-- Whether a line starts that parts documents. -/
def isDocumentMark (s : List Spot) : Bool := isThreeMarks '-' s || isThreeMarks '.' s

def skipGap (s : List Spot) : Tail s := ⟨s.dropWhile fun p => isGap p.char, length_dropWhile_le _ s⟩

/-- What is left after the rest of a line. -/
def skipLine (s : List Spot) : Tail s :=
  ⟨s.dropWhile fun p => !isBreak p.char, length_dropWhile_le _ s⟩

/-- The rest of a line with nothing but a gap and a comment on it, with its end. -/
def blankLineEnd (s : List Spot) : Option (Tail s) :=
  let t := skipGap s
  let u := if startsWith '#' t.rest then t.trans (skipLine t.rest) else t
  match u.rest, u.noLonger with
  | [], h => some ⟨[], h⟩
  | p :: rest, h => if isBreak p.char then some ⟨rest, Nat.le_of_succ_le h⟩ else none

/-- The characters at the front of a text that are in a class. -/
def takeChars (p : Char → Bool) (s : List Spot) : List Char :=
  (s.takeWhile fun q => p q.char).map Spot.char

def dropChars (p : Char → Bool) (s : List Spot) : Tail s :=
  ⟨s.dropWhile fun q => p q.char, length_dropWhile_le _ s⟩

def mark (c : Char) : Reader Unit := fun s =>
  match s with
  | p :: rest => if p.char = c then some ((Tail.whole rest).behind () p) else none
  | [] => none

/-- The characters of names: ASCII letters and digits, hyphen and underscore. -/
def isNameChar (c : Char) : Bool := c.isAlphanum || c = '-' || c = '_'

end Yaml

end NestedSelection
