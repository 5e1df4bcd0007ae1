import NestedSelection.Json.Numeral
import NestedSelection.Text.Hex

/-! # The smallest parts of JSON text

Space, the words of the language and quoted strings, each read from the front of a text. Strings
can also be passed over without being decoded, which accepts more of them.
-/

namespace NestedSelection

namespace Json

def isSpace (c : Char) : Bool := c = ' ' || c = '\t' || c = '\n' || c = '\r'

def skipSpace (s : List Char) : List Char := s.dropWhile isSpace

theorem length_skipSpace_le (s : List Char) : (skipSpace s).length ≤ s.length :=
  length_dropWhile_le _ s

/-- What is left after space. -/
def afterSpace (s : List Char) : Tail s := .skip isSpace s

/-- The first character that is no space. -/
def nextChar (s : List Char) : Option (Piece Char s) :=
  match skipSpace s, length_skipSpace_le s with
  | [], _ => none
  | c :: rest, h => some ⟨c, rest, h⟩

def word (letters : List Char) (s : List Char) : Except ReadError (Tail s) :=
  match letters, s with
  | [], s => .ok (.whole s)
  | _ :: _, [] => .error .endOfText
  | l :: letters, c :: rest =>
    if c = l then (word letters rest).map fun t => (t.behind () c).tail
    else .error .malformed

def utf8Size (s : List Char) : Nat := s.foldl (fun n c => n + c.utf8Size) 0

/-- Four hexadecimal digits. A text with fewer than four bytes left has ended too early. -/
def hexFour (s : List Char) : Except ReadError (Piece Nat s) :=
  match s with
  | a :: b :: c :: d :: rest =>
    match hexValue? a, hexValue? b, hexValue? c, hexValue? d with
    | some i, some j, some k, some l =>
      let n := ((i * 16 + j) * 16 + k) * 16 + l
      .ok (((((Tail.whole rest).behind n d).behind c).behind b).behind a)
    | _, _, _, _ => .error .malformed
  | t => .error (if utf8Size t < 4 then .endOfText else .malformed)

def isLeading (n : Nat) : Bool := 0xd800 ≤ n && n ≤ 0xdbff

def isTrailing (n : Nat) : Bool := 0xdc00 ≤ n && n ≤ 0xdfff

/-- The second half of a character beyond the basic plane. -/
def trailingHalf (s : List Char) : Except ReadError (Piece Nat s) :=
  match s with
  | '\\' :: 'u' :: rest => do
    let p ← (hexFour rest).map fun p => (p.behind 'u').behind '\\'
    if isTrailing p.value then return p else throw .malformed
  | ['\\'] => .error .endOfText
  | t => .error (missing t)

def unicodeEscape (s : List Char) : Except ReadError (Piece Char s) := do
  let first ← hexFour s
  if isTrailing first.value then throw .malformed
  else if isLeading first.value then
    let second ← trailingHalf first.rest
    let n := 0x10000 + (first.value - 0xd800) * 0x400 + (second.value - 0xdc00)
    return (first.followedBy second).map fun _ => Char.ofNat n
  else return first.map Char.ofNat

def shortEscape? (c : Char) : Option Char :=
  if c = '"' ∨ c = '\\' ∨ c = '/' then some c
  else if c = 'b' then some '\x08'
  else if c = 'f' then some '\x0c'
  else if c = 'n' then some '\n'
  else if c = 'r' then some '\r'
  else if c = 't' then some '\t'
  else none

def escape (s : List Char) : Except ReadError (Piece Char s) :=
  match s with
  | [] => .error .endOfText
  | c :: rest =>
    match shortEscape? c with
    | some x => .ok ((Tail.whole rest).behind x c)
    | none =>
      if c = 'u' then (unicodeEscape rest).map (·.behind c)
      else .error .malformed

def isControl (c : Char) : Bool := c.toNat < 0x20

/-- The characters of a string up to its closing quote, added to those read before. -/
def stringBody {s₀ : List Char} (before : List Char) (s : List Char)
    (h : s.length ≤ s₀.length) : Except ReadError (Piece String s₀) :=
  match s with
  | [] => .error .endOfText
  | c :: rest =>
    if c = '"' then .ok ⟨String.ofList before.reverse, rest, h⟩
    else if c = '\\' then
      match escape rest with
      | .error e => .error e
      | .ok p =>
        stringBody (p.value :: before) p.rest
          (Nat.le_trans (Nat.le_succ_of_le (Nat.le_of_lt p.shorter)) h)
    else if isControl c then .error .malformed
    else stringBody (c :: before) rest (Nat.le_trans (Nat.le_succ _) h)
termination_by s.length
decreasing_by
  · exact Nat.lt_succ_of_lt p.shorter
  · exact Nat.lt_succ_self _

def string (s : List Char) : Except ReadError (Piece String s) :=
  stringBody [] s (length_le_self s)

/-- Passes over an escape without asking whether it stands for a character. -/
def skipEscape (s : List Char) : Except ReadError (Tail s) :=
  match s with
  | [] => .error .endOfText
  | c :: rest =>
    if (shortEscape? c).isSome then .ok (.after c rest)
    else if c = 'u' then
      (hexFour rest).map fun p => (p.behind c).tail
    else .error .malformed

def skipString {s₀ : List Char} (s : List Char) (h : s.length ≤ s₀.length) :
    Except ReadError (Tail s₀) :=
  match s with
  | [] => .error .endOfText
  | c :: rest =>
    if c = '"' then .ok ⟨rest, Nat.le_of_succ_le h⟩
    else if c = '\\' then
      match skipEscape rest with
      | .error e => .error e
      | .ok t => skipString t.rest (Nat.le_trans (Nat.le_succ_of_le t.noLonger) h)
    else if isControl c then .error .malformed
    else skipString rest (Nat.le_of_succ_le h)
termination_by s.length
decreasing_by
  · exact Nat.lt_succ_of_le t.noLonger
  · exact Nat.lt_succ_self _

end Json

end NestedSelection
