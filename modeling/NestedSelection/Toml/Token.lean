import NestedSelection.Text.Hex

/-! # The smallest parts of TOML text

Gaps, comments and line ends, strings in their four styles, and keys. A text that cannot be read
has no value; why it cannot is not told.
-/

namespace NestedSelection

namespace Toml

abbrev Reader (α : Type) := (s : List Char) → Option (Piece α s)

def isGap (c : Char) : Bool := c = ' ' || c = '\t'

def isPlain (c : Char) : Bool := c = '\t' || (0x20 ≤ c.toNat && c.toNat ≠ 0x7f)

def skipGap (s : List Char) : List Char := s.dropWhile isGap

theorem length_skipGap_le (s : List Char) : (skipGap s).length ≤ s.length :=
  length_dropWhile_le _ s

def mark (c : Char) : Reader Unit := fun s =>
  match s with
  | d :: rest => if d = c then some ((Tail.whole rest).behind () d) else none
  | [] => none

def afterLetters : (letters : List Char) → (s : List Char) → Option (Tail s)
  | [], s => some (.whole s)
  | _ :: _, [] => none
  | l :: letters, c :: rest =>
    if c = l then (afterLetters letters rest).map fun t => (t.behind () c).tail else none

def word {α : Type} (value : α) (first : Char) (letters : List Char) : Reader α := fun s =>
  match s with
  | [] => none
  | c :: rest =>
    if c = first then (afterLetters letters rest).map (·.behind value c) else none

def newline : Reader Unit := fun s =>
  match s with
  | '\n' :: rest => some ((Tail.whole rest).behind () '\n')
  | '\r' :: '\n' :: rest => some (((Tail.whole rest).behind () '\n').behind '\r')
  | _ => none

def afterGap (s : List Char) : Tail s := .skip isGap s

/-- What is left after a gap and a comment, either of which may be missing. -/
def skipComment (s : List Char) : Tail s :=
  let t := afterGap s
  match mark '#' t.rest with
  | some p => t.trans (p.shorten (.skip isPlain p.rest)).tail
  | none => t

def lineEnd (s : List Char) : Option (Tail s) :=
  let t := skipComment s
  match t.rest with
  | [] => some t
  | _ :: _ => (newline t.rest).map fun p => t.trans p.tail

/-- What is left after gaps, comments and line ends. -/
def skipLines (s : List Char) : Tail s :=
  match newline (skipComment s).rest with
  | some p =>
    let line := p.widen (skipComment s).noLonger
    line.tail.trans (skipLines line.rest)
  | none => afterGap s
termination_by s.length
decreasing_by exact line.shorter

/-- The character that an escape stands for, read after the backslash. -/
def escape : Reader Char := fun s =>
  match s with
  | [] => none
  | c :: rest =>
    let short (x : Char) : Option (Piece Char (c :: rest)) := some ((Tail.whole rest).behind x c)
    let long (count : Nat) : Option (Piece Char (c :: rest)) := do
      let (n, t) ← hexNumber count rest
      let x ← charOfNumber? n
      return t.behind x c
    if c = 'b' then short '\x08'
    else if c = 't' then short '\t'
    else if c = 'n' then short '\n'
    else if c = 'f' then short '\x0c'
    else if c = 'r' then short '\r'
    else if c = '"' then short '"'
    else if c = '\\' then short '\\'
    else if c = 'u' then long 4
    else if c = 'U' then long 8
    else none

/-- Whether the strings between such quotes have escapes. -/
def hasEscapes (quote : Char) : Bool := quote = '"'

/-- A string on one line, read after its opening quote. -/
def lineBody {s₀ : List Char} (quote : Char) (before : List Char) (s : List Char)
    (h : s.length ≤ s₀.length) : Option (Piece String s₀) :=
  match s with
  | [] => none
  | c :: rest =>
    if c = quote then some ⟨String.ofList before.reverse, rest, h⟩
    else if c = '\\' && hasEscapes quote then
      match escape rest with
      | none => none
      | some p => lineBody quote (p.value :: before) p.rest
          (Nat.le_trans (Nat.le_succ_of_le (Nat.le_of_lt p.shorter)) h)
    else if isPlain c then lineBody quote (c :: before) rest (Nat.le_of_succ_le h)
    else none
termination_by s.length
decreasing_by
  · exact Nat.lt_succ_of_lt p.shorter
  · exact Nat.lt_succ_self _

def skipBreaks : (s : List Char) → Tail s
  | '\r' :: '\n' :: rest => (((skipBreaks rest).behind () '\n').behind '\r').tail
  | c :: rest =>
    if isGap c || c = '\n' then ((skipBreaks rest).behind () c).tail else .whole (c :: rest)
  | [] => .whole []

/-- The end of a line that a backslash joins to the next text, with the blank lines after it. -/
def joinedLines (s : List Char) : Option (Tail s) :=
  (newline (skipGap s)).map fun p =>
    ((p.shorten (skipBreaks p.rest)).widen (length_skipGap_le s)).tail

/--
A string on several lines, read after its opening quotes and the line end that may follow them.
Up to two quotes may stand anywhere, also right before the three that close the string.
-/
def linesBody {s₀ : List Char} (quote : Char) (before : List Char) (s : List Char)
    (h : s.length ≤ s₀.length) : Option (Piece String s₀) :=
  match s with
  | [] => none
  | c :: rest =>
    match newline (c :: rest) with
    | some p => linesBody quote ('\n' :: before) p.rest (Nat.le_trans (Nat.le_of_lt p.shorter) h)
    | none =>
      if c = quote then
        let more := (rest.takeWhile (· = quote)).length
        if more < 2 then linesBody quote (c :: before) rest (Nat.le_of_succ_le h)
        else
          let extra := min (more - 2) 2
          let body := String.ofList (List.replicate extra quote ++ before).reverse
          some (((Tail.drop (2 + extra) rest).behind body c).widen h)
      else if c = '\\' && hasEscapes quote then
        match joinedLines rest with
        | some t => linesBody quote before t.rest (Nat.le_trans (Nat.le_succ_of_le t.noLonger) h)
        | none =>
          match escape rest with
          | none => none
          | some p => linesBody quote (p.value :: before) p.rest
              (Nat.le_trans (Nat.le_succ_of_le (Nat.le_of_lt p.shorter)) h)
      else if isPlain c then linesBody quote (c :: before) rest (Nat.le_of_succ_le h)
      else none
termination_by s.length
decreasing_by
  · exact p.shorter
  · exact Nat.lt_succ_self _
  · exact Nat.lt_succ_of_le t.noLonger
  · exact Nat.lt_succ_of_lt p.shorter
  · exact Nat.lt_succ_self _

/-- The line end right after the quotes that open a string is no part of it. -/
def firstLineEnd (s : List Char) : Tail s :=
  match newline s with
  | some p => p.tail
  | none => .whole s

/-- A string on one line, read with the quote that opens it. -/
def quotedLine (quote : Char) (rest : List Char) : Option (Piece String (quote :: rest)) :=
  (lineBody quote [] rest (length_le_self rest)).map (·.behind quote)

def quotedLines (quote : Char) (rest : List Char) :
    Option (Piece String (quote :: quote :: quote :: rest)) :=
  let t := firstLineEnd rest
  (linesBody quote [] t.rest t.noLonger).map fun p =>
    ((p.behind quote).behind quote).behind quote

def string : Reader String := fun s =>
  match s with
  | '"' :: '"' :: '"' :: rest => quotedLines '"' rest
  | '\x27' :: '\x27' :: '\x27' :: rest => quotedLines '\x27' rest
  | '"' :: rest => quotedLine '"' rest
  | '\x27' :: rest => quotedLine '\x27' rest
  | _ => none

def isBare (c : Char) : Bool := c.isAlphanum || c = '-' || c = '_'

def keyPart : Reader String := fun s =>
  match s with
  | '"' :: rest => quotedLine '"' rest
  | '\x27' :: rest => quotedLine '\x27' rest
  | c :: rest =>
    if isBare c then
      some ((Tail.skip isBare rest).behind (String.ofList (c :: rest.takeWhile isBare)) c)
    else none
  | [] => none

def keyParts {s₀ : List Char} (before : List String) (s : List Char) (h : s.length ≤ s₀.length) :
    Option (Piece (List String) s₀) :=
  match keyPart (skipGap s) with
  | none => none
  | some part =>
    let p := (part.shorten (afterGap part.rest)).widen (length_skipGap_le s)
    match mark '.' p.rest with
    | some dot =>
      let q := p.followedBy dot
      keyParts (p.value :: before) q.rest (Nat.le_trans (Nat.le_of_lt q.shorter) h)
    | none => some ((p.map fun name => (name :: before).reverse).widen h)
termination_by s.length
decreasing_by exact q.shorter

/-- A key: the names of the tables it leads through, and its own. -/
structure Key where
  parents : List String
  name : String

/-- Nothing may nest as deep as this. -/
def depthLimit : Nat := 80

def key : Reader Key := fun s => do
  let p ← keyParts [] s (length_le_self s)
  let name ← p.value.getLast?
  if p.value.length < depthLimit then return p.map fun parts => ⟨parts.dropLast, name⟩ else none

end Toml

end NestedSelection
