import Mathlib.Algebra.Group.Int.Defs
import Mathlib.Algebra.Group.Nat.Defs
import Mathlib.Tactic.SplitIfs
import NestedSelection.Json.Token
import NestedSelection.Json.Value

/-! # How strings are spelled in JSON

What it means that a value is read from a text, whatever else may follow, the space between the
parts of a text, and the strings in it. A character of a string is written as it is, by one of the
short escapes, or by the number of one or two units of 16 bits.
-/

namespace NestedSelection

namespace Json

def Blank (w : List Char) : Prop := ∀ c ∈ w, c = ' ' ∨ c = '\t' ∨ c = '\n' ∨ c = '\r'

/-- The escapes of one letter, each with the character that it stands for. -/
def shortEscapes : List (Char × Char) :=
  [('"', '"'), ('\\', '\\'), ('/', '/'), ('b', '\x08'), ('f', '\x0c'), ('n', '\n'), ('r', '\r'),
    ('t', '\t')]

/-- Four hexadecimal digits behind `\u`. -/
inductive SpellsUnit : List Char → Nat → Prop
  | intro {a b c d : Char} {i j k l : Nat} : hexValue? a = some i → hexValue? b = some j →
      hexValue? c = some k → hexValue? d = some l →
      SpellsUnit ['\\', 'u', a, b, c, d] (i * 0x1000 + j * 0x100 + k * 0x10 + l)

inductive SpellsChar : List Char → Char → Prop
  | plain {c : Char} : c ≠ '"' → c ≠ '\\' → 0x20 ≤ c.toNat → SpellsChar [c] c
  | short {e c : Char} : (e, c) ∈ shortEscapes → SpellsChar ['\\', e] c
  | unit {w : List Char} {n : Nat} : SpellsUnit w n → n < 0xd800 ∨ 0xdfff < n →
      SpellsChar w (Char.ofNat n)
  | pair {v w : List Char} {m n : Nat} : SpellsUnit v m → SpellsUnit w n →
      0xd800 ≤ m → m ≤ 0xdbff → 0xdc00 ≤ n → n ≤ 0xdfff →
      SpellsChar (v ++ w) (Char.ofNat (0x10000 + (m - 0xd800) * 0x400 + (n - 0xdc00)))

inductive SpellsString : List Char → String → Prop
  | intro {parts : List (List Char × Char)} : (∀ p ∈ parts, SpellsChar p.1 p.2) →
      SpellsString ('"' :: parts.flatMap Prod.fst ++ ['"']) (String.ofList (parts.map Prod.snd))

/-- The reading took a value and left the rest. -/
def Yields {α : Type} {s : List Char} (r : Except ReadError (Piece α s)) (v : α)
    (rest : List Char) : Prop := ∃ p, r = .ok p ∧ p.value = v ∧ p.rest = rest

theorem Yields.ok {α : Type} {s rest : List Char} {v : α} (h : rest.length < s.length) :
    Yields (.ok (⟨v, rest, h⟩ : Piece α s)) v rest := ⟨_, rfl, rfl, rfl⟩

theorem Yields.eq_ok {α : Type} {s rest : List Char} {r : Except ReadError (Piece α s)} {v : α}
    (h : Yields r v rest) : ∃ hs, r = .ok ⟨v, rest, hs⟩ := by
  obtain ⟨⟨v, rest, hs⟩, rfl, rfl, rfl⟩ := h
  exact ⟨hs, rfl⟩

theorem Yields.map {α β : Type} {s t : List Char} {r : Except ReadError (Piece α s)} {v : α}
    {u : β} {rest : List Char} (h : Yields r v rest) (f : Piece α s → Piece β t)
    (hf : ∀ p, p.value = v → (f p).value = u ∧ (f p).rest = p.rest) : Yields (r.map f) u rest := by
  obtain ⟨p, rfl, hv, rfl⟩ := h
  exact ⟨f p, rfl, hf p hv⟩

section Space

variable {c : Char} {w s rest : List Char}

theorem isSpace_iff : isSpace c = true ↔ c = ' ' ∨ c = '\t' ∨ c = '\n' ∨ c = '\r' := by
  simp [isSpace, or_assoc]

theorem Blank.skipSpace_append (h : Blank w) : skipSpace (w ++ s) = skipSpace s :=
  List.dropWhile_append_of_pos fun c hc => isSpace_iff.2 (h c hc)

theorem skipSpace_cons (h : isSpace c = false) : skipSpace (c :: s) = c :: s := by
  rw [skipSpace, List.dropWhile_cons_of_neg (by simp [h])]

theorem Blank.skipSpace_append_cons (h : Blank w) (hc : isSpace c = false) :
    skipSpace (w ++ c :: s) = c :: s := by
  rw [h.skipSpace_append, skipSpace_cons hc]

theorem nextChar_eq (h : skipSpace s = c :: rest) : ∃ hl, nextChar s = some ⟨c, rest, hl⟩ := by
  unfold nextChar
  generalize length_skipSpace_le s = hl
  revert hl
  rw [h]
  exact fun hl => ⟨hl, rfl⟩

/-- What may stand behind a value: nothing, space, or what goes on with the container around it. -/
def Follows (rest : List Char) : Prop :=
  ∀ c ∈ rest.head?, isSpace c = true ∨ c = ',' ∨ c = ']' ∨ c = '\x7d'

theorem Blank.follows_append (hw : Blank w) (h : Follows rest) : Follows (w ++ rest) := by
  cases w with
  | nil => exact h
  | cons c w =>
    intro d hd
    cases hd
    exact .inl (isSpace_iff.2 (hw c List.mem_cons_self))

end Space

section Strings

variable {w s rest : List Char} {c : Char} {n : Nat}

theorem SpellsUnit.yields_hexFour (h : SpellsUnit w n) :
    ∃ v, w = '\\' :: 'u' :: v ∧ ∀ rest, Yields (hexFour (v ++ rest)) n rest := by
  obtain ⟨ha, hb, hc, hd⟩ := h
  rename_i a b c d i j k l
  refine ⟨[a, b, c, d], rfl, fun rest => ?_⟩
  simp only [List.cons_append, List.nil_append, hexFour, ha, hb, hc, hd]
  refine ⟨_, rfl, ?_, rfl⟩
  change ((i * 16 + j) * 16 + k) * 16 + l = _
  omega

theorem isTrailing_iff : isTrailing n = true ↔ 0xdc00 ≤ n ∧ n ≤ 0xdfff := by
  simp [isTrailing]

theorem isLeading_iff : isLeading n = true ↔ 0xd800 ≤ n ∧ n ≤ 0xdbff := by
  simp [isLeading]

theorem yields_unicodeEscape_unit (h : SpellsUnit w n) (hn : n < 0xd800 ∨ 0xdfff < n) :
    ∃ v, w = '\\' :: 'u' :: v ∧ ∀ rest, Yields (unicodeEscape (v ++ rest)) (Char.ofNat n) rest := by
  obtain ⟨v, hw, hv⟩ := h.yields_hexFour
  refine ⟨v, hw, fun rest => ?_⟩
  obtain ⟨_, hx⟩ := (hv rest).eq_ok
  have htr : isTrailing n = false := by
    rw [Bool.eq_false_iff, ne_eq, isTrailing_iff]
    omega
  have hle : isLeading n = false := by
    rw [Bool.eq_false_iff, ne_eq, isLeading_iff]
    omega
  simp only [unicodeEscape, hx, bind, Except.bind, htr, hle]
  exact ⟨_, rfl, rfl, rfl⟩

theorem SpellsUnit.yields_trailingHalf (h : SpellsUnit w n) (hn : 0xdc00 ≤ n ∧ n ≤ 0xdfff)
    (rest : List Char) : Yields (trailingHalf (w ++ rest)) n rest := by
  obtain ⟨v, rfl, hv⟩ := h.yields_hexFour
  obtain ⟨_, hx⟩ := (hv rest).eq_ok
  simp only [trailingHalf, List.cons_append, hx, Except.map, Piece.behind, Piece.widen, bind,
    Except.bind, isTrailing_iff.2 hn, if_true]
  exact ⟨_, rfl, rfl, rfl⟩

theorem yields_unicodeEscape_pair {m : Nat} {u : List Char} (hu : SpellsUnit u m)
    (hw : SpellsUnit w n) (hm : 0xd800 ≤ m ∧ m ≤ 0xdbff) (hn : 0xdc00 ≤ n ∧ n ≤ 0xdfff) :
    ∃ v, u ++ w = '\\' :: 'u' :: v ∧ ∀ rest, Yields (unicodeEscape (v ++ rest))
      (Char.ofNat (0x10000 + (m - 0xd800) * 0x400 + (n - 0xdc00))) rest := by
  obtain ⟨u, rfl, hx⟩ := hu.yields_hexFour
  refine ⟨u ++ w, rfl, fun rest => ?_⟩
  rw [List.append_assoc]
  obtain ⟨_, hx⟩ := (hx (w ++ rest)).eq_ok
  obtain ⟨_, hy⟩ := (hw.yields_trailingHalf hn rest).eq_ok
  have htr : isTrailing m = false := by
    rw [Bool.eq_false_iff, ne_eq, isTrailing_iff]
    omega
  simp only [unicodeEscape, hx, bind, Except.bind, htr, isLeading_iff.2 hm, hy, Bool.false_eq_true,
    if_false, if_true, pure, Except.pure, Piece.map, Piece.followedBy]
  exact .ok _

theorem yields_escape_short {e : Char} (h : (e, c) ∈ shortEscapes) (rest : List Char) :
    Yields (escape (e :: rest)) c rest := by
  have hs : shortEscape? e = some c := by
    have : ∀ p ∈ shortEscapes, shortEscape? p.1 = some p.2 := by decide
    exact this _ h
  rw [escape, hs]
  exact ⟨_, rfl, rfl, rfl⟩

theorem yields_escape_unicode {v : List Char}
    (h : ∀ rest, Yields (unicodeEscape (v ++ rest)) c rest) (rest : List Char) :
    Yields (escape ('u' :: v ++ rest)) c rest := by
  have hu : shortEscape? 'u' = none := by decide
  rw [List.cons_append, escape, hu]
  exact (h rest).map _ fun p hp => ⟨hp, rfl⟩

theorem SpellsChar.stringBody_append (h : SpellsChar w c) {s₀ before : List Char}
    (hl : (w ++ s).length ≤ s₀.length) :
    ∃ hs, stringBody before (w ++ s) hl = stringBody (c :: before) s hs := by
  have hs : s.length ≤ s₀.length := by
    rw [List.length_append] at hl
    omega
  refine ⟨hs, ?_⟩
  have escaped : ∀ v (hl : ('\\' :: v ++ s).length ≤ s₀.length), Yields (escape (v ++ s)) c s →
      stringBody before ('\\' :: v ++ s) hl = stringBody (c :: before) s hs := by
    intro v hl hv
    obtain ⟨_, hx⟩ := hv.eq_ok
    simp only [List.cons_append]
    rw [stringBody, if_neg (by decide), if_pos rfl, hx]
  cases h with
  | plain hq hb hc =>
    have hn : isControl c = false := by simpa [isControl] using hc
    simp only [List.singleton_append]
    rw [stringBody, if_neg hq, if_neg hb, if_neg (by simp [hn])]
  | short h => exact escaped _ _ (yields_escape_short h s)
  | unit h hn =>
    obtain ⟨v, rfl, hv⟩ := yields_unicodeEscape_unit h hn
    exact escaped _ _ (yields_escape_unicode hv s)
  | pair hu hw hm hm' hn hn' =>
    obtain ⟨v, he, hv⟩ := yields_unicodeEscape_pair hu hw ⟨hm, hm'⟩ ⟨hn, hn'⟩
    simp only [he]
    exact escaped _ _ (yields_escape_unicode hv s)

theorem yields_stringBody {parts : List (List Char × Char)} (h : ∀ p ∈ parts, SpellsChar p.1 p.2)
    {s₀ before : List Char} (hs : s = parts.flatMap Prod.fst ++ '"' :: rest)
    (hl : s.length ≤ s₀.length) :
    Yields (stringBody before s hl) (String.ofList (before.reverse ++ parts.map Prod.snd))
      rest := by
  -- The characters read so far stand in `before`, the last one first.
  induction parts generalizing before s with
  | nil =>
    subst hs
    simp only [List.flatMap_nil, List.nil_append]
    rw [stringBody, if_pos rfl]
    exact ⟨_, rfl, by simp, rfl⟩
  | cons p parts ih =>
    obtain ⟨hp, hr⟩ := List.forall_mem_cons.1 h
    rw [List.flatMap_cons, List.append_assoc] at hs
    subst hs
    obtain ⟨hl', he⟩ := hp.stringBody_append hl
    rw [he]
    have hi : Yields (stringBody (p.2 :: before) _ hl') _ rest := ih hr rfl hl'
    rwa [List.reverse_cons, List.append_assoc] at hi

theorem SpellsString.yields_string {x : String} (h : SpellsString w x) :
    ∃ v, w = '"' :: v ∧ ∀ rest, Yields (string (v ++ rest)) x rest := by
  obtain ⟨hp⟩ := h
  refine ⟨_, rfl, fun rest => ?_⟩
  exact yields_stringBody hp (by simp) _

theorem hexValue?_hexDigit (h : n < 16) : hexValue? (hexDigit n) = some n := by
  have : ∀ n < 16, hexValue? (hexDigit n) = some n := by decide
  exact this n h

theorem spellsChar_escapeChar (c : Char) : SpellsChar (escapeChar c) c := by
  unfold escapeChar
  split_ifs with hq hb hbs hff hn hr ht hc
  · exact .short (by subst hq; decide)
  · exact .short (by subst hb; decide)
  · exact .short (by subst hbs; decide)
  · exact .short (by subst hff; decide)
  · exact .short (by subst hn; decide)
  · exact .short (by subst hr; decide)
  · exact .short (by subst ht; decide)
  · have hz : hexValue? '0' = some 0 := by decide
    have hs := SpellsUnit.intro hz hz (hexValue?_hexDigit (n := c.toNat / 16) (by omega))
      (hexValue?_hexDigit (n := c.toNat % 16) (by omega))
    have he : 0 * 0x1000 + 0 * 0x100 + c.toNat / 16 * 0x10 + c.toNat % 16 = c.toNat := by omega
    rw [he] at hs
    have hu := SpellsChar.unit hs (by omega)
    rwa [Char.ofNat_toNat] at hu
  · exact .plain hq hb (by omega)

/-- A string is spelled by its text with the fewest escapes. -/
theorem spellsString_quote (x : String) : SpellsString (quote x) x := by
  have hp : ∀ p ∈ x.toList.map fun c => (escapeChar c, c), SpellsChar p.1 p.2 := by
    simpa using fun c _ => spellsChar_escapeChar c
  simpa [List.flatMap_map, quote, Function.comp_def] using SpellsString.intro hp

end Strings

end Json

end NestedSelection
