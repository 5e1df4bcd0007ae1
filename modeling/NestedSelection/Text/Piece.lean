/-! # Pieces of text

A reader takes a piece from the front of a text and says what is left. `Piece` keeps the fact that
something was taken, `Tail` the fact that nothing was added; loops over a text end by them. A text
is a list of characters, or of whatever was made of them.
-/

namespace NestedSelection

/-- A value read from the front of `s`, and the shorter text left. -/
structure Piece {τ : Type} (α : Type) (s : List τ) where
  value : α
  rest : List τ
  shorter : rest.length < s.length

/-- A text left after at most some of `s` was taken. -/
structure Tail {τ : Type} (s : List τ) where
  rest : List τ
  noLonger : rest.length ≤ s.length

namespace Piece

variable {τ α β : Type} {s t : List τ}

def map (f : α → β) (p : Piece α s) : Piece β s := ⟨f p.value, p.rest, p.shorter⟩

/-- A piece of an end of `t` is a piece of `t`. -/
def widen (p : Piece α s) (h : s.length ≤ t.length) : Piece α t :=
  ⟨p.value, p.rest, Nat.lt_of_lt_of_le p.shorter h⟩

def shorten (p : Piece α s) (t : Tail p.rest) : Piece α s :=
  ⟨p.value, t.rest, Nat.lt_of_le_of_lt t.noLonger p.shorter⟩

/-- A second piece, taken after the first. -/
def followedBy (p : Piece α s) (q : Piece β p.rest) : Piece β s :=
  ⟨q.value, q.rest, Nat.lt_trans q.shorter p.shorter⟩

def behind (c : τ) (p : Piece α s) : Piece α (c :: s) := p.widen (Nat.le_succ _)

def tail (p : Piece α s) : Tail s := ⟨p.rest, Nat.le_of_lt p.shorter⟩

end Piece

namespace Tail

variable {τ : Type} {s t : List τ}

def whole (s : List τ) : Tail s := ⟨s, Nat.le_refl _⟩

/-- What is left of what is left. -/
def trans (t : Tail s) (u : Tail t.rest) : Tail s :=
  ⟨u.rest, Nat.le_trans u.noLonger t.noLonger⟩

def after (c : τ) (rest : List τ) : Tail (c :: rest) := ⟨rest, Nat.le_succ _⟩

/-- A first element and what was taken after it, as a piece. -/
def behind {α : Type} (value : α) (c : τ) (t : Tail s) : Piece α (c :: s) :=
  ⟨value, t.rest, Nat.lt_succ_of_le t.noLonger⟩

end Tail

theorem length_le_self {τ : Type} (s : List τ) : s.length ≤ s.length := Nat.le_refl _

theorem length_dropWhile_le {τ : Type} (p : τ → Bool) (s : List τ) :
    (s.dropWhile p).length ≤ s.length :=
  (List.dropWhile_sublist p).length_le

theorem length_drop_le {τ : Type} (n : Nat) (s : List τ) : (s.drop n).length ≤ s.length :=
  (List.drop_sublist n s).length_le

def Tail.drop {τ : Type} (n : Nat) (s : List τ) : Tail s := ⟨s.drop n, length_drop_le n s⟩

/-- What is left after the elements at the front that have a property. -/
def Tail.skip {τ : Type} (p : τ → Bool) (s : List τ) : Tail s :=
  ⟨s.dropWhile p, length_dropWhile_le p s⟩

end NestedSelection
