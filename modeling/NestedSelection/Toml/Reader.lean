import NestedSelection.Toml.Moment
import NestedSelection.Toml.Number
import NestedSelection.Toml.Tree

/-! # Reading TOML text

A text is a sequence of statements, each on a line: headers of tables, and keys with their values.
-/

namespace NestedSelection

namespace Toml

/-- The items of an array up to its closing bracket; a comma may follow the last one. -/
def arrayItems {α : Type} {s₀ : List Char} (item : Reader α) (before : List α) (s : List Char)
    (h : s.length ≤ s₀.length) : Option (Piece (List α) s₀) :=
  let t := skipLines s
  match mark ']' t.rest with
  | some e => some ⟨before.reverse, e.rest,
      Nat.lt_of_lt_of_le e.shorter (Nat.le_trans t.noLonger h)⟩
  | none =>
    match item t.rest with
    | none => none
    | some p =>
      have hp : (skipLines p.rest).rest.length < s.length :=
        Nat.lt_of_le_of_lt (skipLines p.rest).noLonger (Nat.lt_of_lt_of_le p.shorter t.noLonger)
      match mark ',' (skipLines p.rest).rest with
      | some c =>
        have hc : c.rest.length < s.length := Nat.lt_trans c.shorter hp
        arrayItems item (p.value :: before) c.rest (Nat.le_trans (Nat.le_of_lt hc) h)
      | none =>
        match mark ']' (skipLines p.rest).rest with
        | some e => some ⟨(p.value :: before).reverse, e.rest,
            Nat.lt_of_lt_of_le (Nat.lt_trans e.shorter hp) h⟩
        | none => none
termination_by s.length

def line (value : Reader Document) : Reader Line := fun s => do
  let k ← key s
  let e ← mark '=' k.rest
  let p ← value (skipGap e.rest)
  return k.followedBy (e.followedBy
    ((p.map fun d => ⟨k.value, d⟩).widen (length_skipGap_le e.rest)))

/-- The lines of an inline table up to its closing brace, parted by commas. -/
def inlineLines {s₀ : List Char} (value : Reader Document) (before : List Line) (s : List Char)
    (h : s.length ≤ s₀.length) : Option (Piece (List Line) s₀) :=
  match line value s with
  | none => none
  | some p =>
    have hp : (skipGap p.rest).length < s.length :=
      Nat.lt_of_le_of_lt (length_skipGap_le p.rest) p.shorter
    match mark ',' (skipGap p.rest) with
    | some c =>
      have hc : c.rest.length < s.length := Nat.lt_trans c.shorter hp
      inlineLines value (p.value :: before) c.rest (Nat.le_trans (Nat.le_of_lt hc) h)
    | none =>
      match mark '\x7d' (skipGap p.rest) with
      | some e => some ⟨(p.value :: before).reverse, e.rest,
          Nat.lt_of_lt_of_le (Nat.lt_trans e.shorter hp) h⟩
      | none => none
termination_by s.length

/-- An inline table, read after its opening brace. -/
def inlineTable (value : Reader Document) : Reader Document := fun s =>
  match mark '\x7d' (skipGap s) with
  | some e => some ((e.map fun _ => .mapping []).widen (length_skipGap_le s))
  | none => do
    let p ← inlineLines value [] s (length_le_self s)
    let entries ← Node.assignLines [] p.value
    return p.map fun _ => .mapping (Node.documents entries)

/-- A name that no one else uses. -/
def momentName : String := "$__toml_private_datetime"

/-- A moment stands for a mapping, in which its text has a name of its own. -/
def momentDocument (m : Moment) : Document := .mapping [(.name momentName, .text m.render)]

def scalar : Reader Document := fun s =>
  word (.bool true) 't' ['r', 'u', 'e'] s <|> word (.bool false) 'f' ['a', 'l', 's', 'e'] s <|>
    (string s).map (·.map .text) <|> (moment s).map (·.map momentDocument) <|> number s

def value : Nat → Reader Document
  | 0 => scalar
  | depth + 1 => fun s =>
    match s with
    | '[' :: rest =>
      (arrayItems (value depth) [] rest (length_le_self rest)).map fun p =>
        (p.map .sequence).behind '['
    | '\x7b' :: rest => (inlineTable (value depth) rest).map (·.behind '\x7b')
    | t => scalar t

inductive Statement where
  | header (key : Key) (repeated : Bool)
  | line (l : Line)

/-- A header, read after its first opening bracket. -/
def header : Reader Statement := fun s =>
  match mark '[' s with
  | some o => do
    let k ← key o.rest
    let e ← mark ']' k.rest
    let e₂ ← mark ']' e.rest
    return o.followedBy (k.followedBy (e.followedBy (e₂.map fun _ => .header k.value true)))
  | none => do
    let k ← key s
    let e ← mark ']' k.rest
    return k.followedBy (e.map fun _ => .header k.value false)

def statement : Reader Statement := fun s =>
  match s with
  | '[' :: rest => (header rest).map (·.behind '[')
  | t => (line (value (depthLimit - 1)) t).map (·.map .line)

/-- All statements of a text. Its last line may be a comment. -/
def statements (before : List Statement) (s : List Char) : Option (List Statement) :=
  let t := skipLines s
  if (skipComment t.rest).rest.isEmpty then some before.reverse
  else
    match statement t.rest with
    | none => none
    | some p =>
      match lineEnd p.rest with
      | none => none
      | some e =>
        have : e.rest.length < s.length :=
          Nat.lt_of_le_of_lt e.noLonger (Nat.lt_of_lt_of_le p.shorter t.noLonger)
        statements (p.value :: before) e.rest
termination_by s.length

/-- The lines before the first header, and each header with the lines below it. -/
def blocks : List Statement → List Line × List Block
  | [] => ([], [])
  | .line l :: rest =>
    let (lines, blocks) := blocks rest
    (l :: lines, blocks)
  | .header key repeated :: rest =>
    let (lines, blocks) := blocks rest
    ([], ⟨key, repeated, lines⟩ :: blocks)

/-- A mark of the byte order at the start of a text is no part of it. -/
def withoutMark : List Char → List Char
  | '\ufeff' :: rest => rest
  | s => s

def ofText? (text : String) : Option Document := do
  let l ← statements [] (withoutMark text.toList)
  let (top, blocks) := blocks l
  assemble top blocks

end Toml

end NestedSelection
