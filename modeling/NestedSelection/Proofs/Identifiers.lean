import Mathlib
import NestedSelection.Proofs.Allocation

/-! # Legal identifiers

Every name gives an identifier of one of three shapes: a word that starts with an upper-case letter,
an underscore before a number, or the word for the type at hand with an underscore behind it. A
number put behind one of these keeps it legal, so all that is given out can stand in source code.
-/

namespace NestedSelection

namespace Identifier

/-- The words of the language of generated code that are no identifiers. -/
def keywords : List String :=
  ["as", "break", "const", "continue", "crate", "else", "enum", "extern", "false", "fn", "for",
    "if", "impl", "in", "let", "loop", "match", "mod", "move", "mut", "pub", "ref", "return",
    "self", "Self", "static", "struct", "super", "trait", "true", "type", "unsafe", "use",
    "where", "while", "async", "await", "dyn", "abstract", "become", "box", "do", "final", "gen",
    "macro", "override", "priv", "try", "typeof", "unsized", "virtual", "yield"]

def continues (c : Char) : Bool := c.isAlphanum || c == '_'

/--
A letter, or an underscore with something behind it, and then letters, digits and underscores; but
no word of the language.
-/
structure IsLegal (identifier : String) : Prop where
  shape : ∃ c rest, identifier.toList = c :: rest ∧ (c.isAlpha = true ∨ c = '_' ∧ rest ≠ []) ∧
    ∀ d ∈ rest, continues d = true
  no_keyword : identifier ∉ keywords

/-- The shapes of identifiers before they are told apart. -/
inductive Shape : List Char → Prop
  | word {c : Char} {rest : List Char} : c.isUpper = true → (∀ d ∈ rest, d.isAlphanum = true) →
      c :: rest ≠ selfKeyword → Shape (c :: rest)
  | number {c : Char} {rest : List Char} : c.isDigit = true → (∀ d ∈ rest, d.isAlphanum = true) →
      Shape ('_' :: c :: rest)
  | ofSelf : Shape (selfKeyword ++ ['_'])

section Letters

variable {c : Char}

theorem isUpper_or_isDigit_toUpper (h : c.isAlphanum = true) :
    c.toUpper.isUpper = true ∨ c.toUpper.isDigit = true := by
  cases ha : c.isAlpha with
  | true => exact .inl (c.isUpper_toUpper_eq_isAlpha.trans ha)
  | false =>
    rw [Char.isAlpha, Bool.or_eq_false_iff] at ha
    rw [Char.toUpper_eq_of_not_isLower (by simp [ha.2])]
    simpa [Char.isAlphanum, Char.isAlpha, ha] using h

theorem isAlpha_of_isUpper (h : c.isUpper = true) : c.isAlpha = true := by
  rw [Char.isAlpha, h, Bool.true_or]

theorem continues_of_isAlphanum (h : c.isAlphanum = true) : continues c = true := by
  rw [continues, h, Bool.true_or]

theorem isAlphanum_of_isDigit (h : c.isDigit = true) : c.isAlphanum = true := by
  rw [Char.isAlphanum, h, Bool.or_true]

theorem isAlphanum_of_isUpper_or_isDigit (h : c.isUpper = true ∨ c.isDigit = true) :
    c.isAlphanum = true := by
  rcases h with h | h
  · rw [Char.isAlphanum, isAlpha_of_isUpper h, Bool.true_or]
  · exact isAlphanum_of_isDigit h

theorem isAlphanum_toUpper (h : c.isAlphanum = true) : c.toUpper.isAlphanum = true :=
  isAlphanum_of_isUpper_or_isDigit (isUpper_or_isDigit_toUpper h)

end Letters

theorem isAlphanum_of_mem_pascalChars {l : List Char} {atStart : Bool} {c : Char}
    (h : c ∈ pascalChars atStart l) : c.isAlphanum = true := by
  induction l generalizing atStart with
  | nil => cases h
  | cons d l ih =>
    rw [pascalChars] at h
    split at h
    · rename_i hd
      rcases List.mem_cons.1 h with rfl | h
      · split
        · exact isAlphanum_toUpper hd
        · exact hd
      · exact ih h
    · exact ih h

theorem head_pascalChars {l rest : List Char} {c : Char} (h : pascalChars true l = c :: rest) :
    c.isUpper = true ∨ c.isDigit = true := by
  induction l with
  | nil => cases h
  | cons d l ih =>
    rw [pascalChars] at h
    split at h
    · rename_i hd
      rw [if_pos rfl] at h
      cases h
      exact isUpper_or_isDigit_toUpper hd
    · exact ih h

theorem shape_ofName (name : String) : Shape (ofName name).toList := by
  rw [ofName, String.toList_ofList, pascalCase, String.toList_ofList]
  cases hp : pascalChars true name.toList with
  | nil => exact .word (by decide) (List.all_eq_true.1 rfl) (by decide)
  | cons c rest =>
    have hr : ∀ d ∈ rest, d.isAlphanum = true := fun d hd =>
      isAlphanum_of_mem_pascalChars (hp ▸ List.mem_cons_of_mem c hd)
    rw [legalize]
    split
    · rename_i hd
      exact .number hd hr
    · rename_i hd
      split
      · exact .ofSelf
      · rename_i hs
        exact .word ((head_pascalChars hp).resolve_right hd) hr hs

/-- Only one word of the language starts with an upper-case letter, and none with an underscore. -/
theorem isLegal_of_start {x : String} {c : Char} {rest : List Char} (hx : x.toList = c :: rest)
    (hc : c.isUpper = true ∨ c = '_' ∧ rest ≠ []) (hr : ∀ d ∈ rest, continues d = true)
    (hs : x.toList ≠ selfKeyword) : IsLegal x := by
  refine ⟨⟨c, rest, hx, hc.imp_left isAlpha_of_isUpper, hr⟩, fun hk => ?_⟩
  have hkeywords : ∀ k ∈ keywords, k.toList = selfKeyword ∨ k.toList.head?.any Char.isLower := by
    decide
  have hl := (hkeywords x hk).resolve_left hs
  rw [hx, List.head?_cons, Option.any_some] at hl
  rcases hc with hc | ⟨rfl, -⟩
  · exact Char.not_isLower_of_isUpper hc hl
  · cases hl

theorem Shape.start {l : List Char} (h : Shape l) : l ≠ selfKeyword ∧ ∃ c rest, l = c :: rest ∧
    (c.isUpper = true ∨ c = '_' ∧ rest ≠ []) ∧ ∀ d ∈ rest, continues d = true := by
  cases h with
  | @word c rest hc hr hs =>
    exact ⟨hs, c, rest, rfl, .inl hc, fun d hd => continues_of_isAlphanum (hr d hd)⟩
  | @number c rest hc hr =>
    refine ⟨by simp [selfKeyword], _, _, rfl, .inr ⟨rfl, List.cons_ne_nil _ _⟩, ?_⟩
    refine List.forall_mem_cons.2 ⟨continues_of_isAlphanum (isAlphanum_of_isDigit hc), ?_⟩
    exact fun d hd => continues_of_isAlphanum (hr d hd)
  | ofSelf => exact ⟨by decide, _, _, rfl, .inl (by decide), List.all_eq_true.1 rfl⟩

namespace Allocator

/-- All candidates for an identifier are legal: the number behind it has digits only. -/
theorem isLegal_candidate (name : String) (k : Nat) : IsLegal (candidate (ofName name) k) := by
  obtain ⟨hs, c, rest, hl, hc, hr⟩ := (shape_ofName name).start
  cases k with
  | zero => exact isLegal_of_start hl hc hr hs
  | succ k =>
    have hd : ∀ d ∈ Nat.toDigits 10 (k + 2), d.isDigit = true := fun d hd =>
      Nat.isDigit_of_mem_toDigits (by decide) (by decide) hd
    have hx : (candidate (ofName name) (k + 1)).toList =
        c :: (rest ++ Nat.toDigits 10 (k + 2)) := by
      rw [candidate, String.toList_append, hl, Nat.toString_eq_ofList_toDigits,
        String.toList_ofList, List.cons_append]
    refine isLegal_of_start hx (hc.imp_right fun h => ⟨h.1, by simp [h.2]⟩) ?_ fun hself => ?_
    · intro d hm
      rcases List.mem_append.1 hm with hm | hm
      · exact hr d hm
      · exact continues_of_isAlphanum (isAlphanum_of_isDigit (hd d hm))
    · obtain ⟨d, hm⟩ := List.exists_mem_of_ne_nil _ (Nat.toDigits_ne_nil (n := k + 2) (b := 10))
      have hn : ∀ d ∈ selfKeyword, d.isDigit = false := by simp [selfKeyword]
      have hf := hn d (hself ▸ hx ▸ List.mem_cons_of_mem _ (List.mem_append_right _ hm))
      rw [hd d hm] at hf
      cases hf

theorem isLegal_next (a : Allocator) (name : String) : IsLegal (a.next name) := by
  obtain ⟨k, -, hk, -⟩ := a.next_spec name
  rw [hk]
  exact isLegal_candidate name k

theorem isLegal_of_mem_allocateAll {a : Allocator} {names : List String} {x : String}
    (h : x ∈ (a.allocateAll names).1) : IsLegal x := by
  induction names generalizing a with
  | nil => cases h
  | cons name names ih =>
    rw [allocateAll_cons] at h
    rcases List.mem_cons.1 h with rfl | h
    · exact a.isLegal_next name
    · exact ih h

end Allocator

end Identifier

end NestedSelection
