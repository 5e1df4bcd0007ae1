import NestedSelection.Json.Token

/-! # Passing over JSON values

A value that nobody asks for is passed over, not read. It may nest to any depth and its numbers
may have any size, but it must be well-formed. The containers still open are kept in a list.
-/

namespace NestedSelection

namespace Json

inductive Container where
  | array
  | object
deriving DecidableEq

def Container.close : Container → Char
  | .array => ']'
  | .object => '\x7d'

/-- A number that is passed over is malformed even if the text ends inside it. -/
def skipNumber (s : List Char) : Except ReadError (Piece Unit s) :=
  match numeralText s with
  | .ok p => .ok (p.map fun _ => ())
  | .error _ => .error .malformed

def skipScalar (s : List Char) : Except ReadError (Piece Unit s) :=
  match s with
  | [] => .error .endOfText
  | c :: rest =>
    let after (t : Tail rest) : Piece Unit (c :: rest) := t.behind () c
    if c = 'n' then (word ['u', 'l', 'l'] rest).map after
    else if c = 't' then (word ['r', 'u', 'e'] rest).map after
    else if c = 'f' then (word ['a', 'l', 's', 'e'] rest).map after
    else if c = '-' || c.isDigit then skipNumber (c :: rest)
    else if c = '"' then (skipString rest (length_le_self rest)).map after
    else .error .malformed

def skipName (s : List Char) : Except ReadError (Piece Unit s) :=
  match s with
  | [] => .error .endOfText
  | c :: rest =>
    if c ≠ '"' then .error .malformed
    else
      match skipString rest (length_le_self rest) with
      | .error e => .error e
      | .ok name =>
        match nextChar name.rest with
        | none => .error .endOfText
        | some d =>
          if d.value = ':' then .ok (((d.widen name.noLonger).behind c).map fun _ => ())
          else .error .malformed

mutual

/-- Passes over a value and then over what the open containers still hold. -/
def skipValue {s₀ : List Char} (opened : List Container) (s : List Char)
    (h : s.length ≤ s₀.length) : Except ReadError (Tail s₀) :=
  match hs : skipSpace s with
  | [] => .error .endOfText
  | c :: rest =>
    have hr : rest.length < s.length := by
      have := length_skipSpace_le s
      simp only [hs, List.length_cons] at this
      exact this
    have hr₀ : rest.length ≤ s₀.length := Nat.le_of_lt (Nat.lt_of_lt_of_le hr h)
    if c = '[' then skipOpened .array opened rest hr₀
    else if c = '\x7b' then skipOpened .object opened rest hr₀
    else
      match skipScalar (c :: rest) with
      | .error e => .error e
      | .ok p =>
        have hp : p.rest.length < s.length :=
          Nat.lt_of_lt_of_le p.shorter (Nat.succ_le_of_lt hr)
        skipAfter opened p.rest (Nat.le_of_lt (Nat.lt_of_lt_of_le hp h))
termination_by (s.length, 1)

/-- From just after an opening bracket on: the container may be empty. -/
def skipOpened {s₀ : List Char} (container : Container) (opened : List Container) (s : List Char)
    (h : s.length ≤ s₀.length) : Except ReadError (Tail s₀) :=
  match hs : skipSpace s with
  | [] => .error .endOfText
  | c :: rest =>
    have hl : rest.length < s.length := by
      have := length_skipSpace_le s
      simp only [hs, List.length_cons] at this
      exact this
    if c = container.close then skipAfter opened rest (Nat.le_of_lt (Nat.lt_of_lt_of_le hl h))
    else skipItem container opened s h
termination_by (s.length, 3)

/-- An item of a container: a value, in an object with its name. -/
def skipItem {s₀ : List Char} (container : Container) (opened : List Container) (s : List Char)
    (h : s.length ≤ s₀.length) : Except ReadError (Tail s₀) :=
  match container with
  | .array => skipValue (.array :: opened) s h
  | .object =>
    match skipName (skipSpace s) with
    | .error e => .error e
    | .ok p =>
      have hp : p.rest.length < s.length := Nat.lt_of_lt_of_le p.shorter (length_skipSpace_le s)
      skipValue (.object :: opened) p.rest (Nat.le_of_lt (Nat.lt_of_lt_of_le hp h))
termination_by (s.length, 2)

/-- From just after a value on. -/
def skipAfter {s₀ : List Char} (opened : List Container) (s : List Char)
    (h : s.length ≤ s₀.length) : Except ReadError (Tail s₀) :=
  match opened with
  | [] => .ok ⟨s, h⟩
  | container :: outer =>
    match hs : skipSpace s with
    | [] => .error .endOfText
    | c :: rest =>
      have hr : rest.length < s.length := by
        have := length_skipSpace_le s
        simp only [hs, List.length_cons] at this
        exact this
      have hr₀ : rest.length ≤ s₀.length := Nat.le_of_lt (Nat.lt_of_lt_of_le hr h)
      if c = container.close then skipAfter outer rest hr₀
      else if c = ',' then skipItem container outer rest hr₀
      else .error .malformed
termination_by (s.length, 0)

end

end Json

end NestedSelection
