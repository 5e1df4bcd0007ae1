import NestedSelection.Text.Hex
import NestedSelection.Yaml.Fold

/-! # Quoted scalars

Between single quotes a quote is written twice; between double quotes there are escapes, also for
line ends.
-/

namespace NestedSelection

namespace Yaml

/-- The characters with an escape of one letter. -/
def shortEscape? (c : Char) : Option Char :=
  if c = '0' then some '\x00'
  else if c = 'a' then some '\x07'
  else if c = 'b' then some '\x08'
  else if c = 't' || c = '\t' then some '\t'
  else if c = 'n' then some '\n'
  else if c = 'v' then some '\x0b'
  else if c = 'f' then some '\x0c'
  else if c = 'r' then some '\r'
  else if c = 'e' then some '\x1b'
  else if c = ' ' || c = '"' || c = '/' || c = '\\' then some c
  else if c = 'N' then some '\u0085'
  else if c = '_' then some '\u00a0'
  else if c = 'L' then some '\u2028'
  else if c = 'P' then some '\u2029'
  else none

/-- The count of digits in an escape by number. -/
def longEscape? (c : Char) : Option Nat :=
  if c = 'x' then some 2 else if c = 'u' then some 4 else if c = 'U' then some 8 else none

def hexCode (count : Nat) (s : List Spot) : Option (Nat × Tail s) := do
  let digits ← (s.take count).mapM fun p => hexValue? p.char
  if digits.length = count then
    return (ofDigits 16 digits, .drop count s)
  else none

def escape : Reader Char := fun s =>
  match s with
  | [] => none
  | p :: rest =>
    match shortEscape? p.char with
    | some c => some ((Tail.whole rest).behind c p)
    | none => do
      let count ← longEscape? p.char
      let (n, t) ← hexCode count rest
      let c ← charOfNumber? n
      return t.behind c p

/-- A scalar between quotes, read after the opening one. The text read before is in reverse. -/
def quotedRest {s₀ : List Spot} (quote : Char) (before : List Char) (s : List Spot)
    (h : s.length ≤ s₀.length) : Option (Piece (List Char) s₀) :=
  match s with
  | [] => none
  | p :: rest =>
    if isDocumentMark (p :: rest) then none
    else if p.char = quote then
      match rest with
      | [] => some ⟨before.reverse, [], h⟩
      | q :: next =>
        if quote = '\x27' && q.char = quote then
          quotedRest quote (quote :: before) next (Nat.le_of_succ_le (Nat.le_of_succ_le h))
        else some ⟨before.reverse, q :: next, h⟩
    else if quote = '"' && p.char = '\\' then
      match rest with
      | [] => none
      | q :: next =>
        if isBreak q.char then
          match gapBreaks 0 next with
          | none => none
          | some (more, t) =>
            quotedRest quote ((Gap.across none more).chars.reverse ++ before) t.rest
              (Nat.le_trans t.noLonger (Nat.le_of_succ_le (Nat.le_of_succ_le h)))
        else
          match escape (q :: next) with
          | none => none
          | some e => quotedRest quote (e.value :: before) e.rest
              (Nat.le_trans (Nat.le_of_lt e.shorter) (Nat.le_of_succ_le h))
    else if isGap p.char then
      match gap 0 rest with
      | none => none
      | some (g, t) =>
        let text := match g with
          | .within spaces => p.char :: spaces
          | .across first more => (Gap.across first more).chars
        quotedRest quote (text.reverse ++ before) t.rest
          (Nat.le_trans t.noLonger (Nat.le_of_succ_le h))
    else if isBreak p.char then
      match gapBreaks 0 rest with
      | none => none
      | some (more, t) =>
        quotedRest quote ((Gap.across (some p.char) more).chars.reverse ++ before) t.rest
          (Nat.le_trans t.noLonger (Nat.le_of_succ_le h))
    else quotedRest quote (p.char :: before) rest (Nat.le_of_succ_le h)
termination_by s.length
decreasing_by
  · simp only [List.length_cons]; omega
  · exact Nat.lt_succ_of_le (Nat.le_succ_of_le t.noLonger)
  · exact Nat.lt_succ_of_lt e.shorter
  · exact Nat.lt_succ_of_le t.noLonger
  · exact Nat.lt_succ_of_le t.noLonger
  · exact Nat.lt_succ_self _

/-- A scalar between quotes, which are told by the character. -/
def quoted (quote : Char) : Reader (List Char) := fun s =>
  match s with
  | [] => none
  | p :: rest => (quotedRest quote [] rest (length_le_self rest)).map (·.behind p)

end Yaml

end NestedSelection
