import NestedSelection.Proofs.SpelledTokens

/-! # How numbers are spelled in JSON

A number is written as digits without a needless leading zero, perhaps behind a sign and before a
fraction and an exponent. All parts of it are found in any text that goes on as a text may behind a
number. An integer has one spelling only, and its value is the integer as long as that has 64 bits.
-/

namespace NestedSelection

namespace Json

def Digits (w : List Char) : Prop := w ≠ [] ∧ ∀ c ∈ w, c.isDigit = true

/-- Digits of which the first one is no zero, or a zero alone. -/
def WholeDigits (w : List Char) : Prop := Digits w ∧ (w.head? = some '0' → w = ['0'])

inductive SpellsFraction : List Char → Option (List Char) → Prop
  | absent : SpellsFraction [] none
  | present {w : List Char} : Digits w → SpellsFraction ('.' :: w) (some w)

inductive SpellsExponent : List Char → Option (Bool × List Char) → Prop
  | absent : SpellsExponent [] none
  | unsigned {c : Char} {w : List Char} : c = 'e' ∨ c = 'E' → Digits w →
      SpellsExponent (c :: w) (some (false, w))
  | plus {c : Char} {w : List Char} : c = 'e' ∨ c = 'E' → Digits w →
      SpellsExponent (c :: '+' :: w) (some (false, w))
  | minus {c : Char} {w : List Char} : c = 'e' ∨ c = 'E' → Digits w →
      SpellsExponent (c :: '-' :: w) (some (true, w))

inductive SpellsNumber : List Char → NumeralText → Prop
  | unsigned {w f e : List Char} {x : Option (List Char)} {y : Option (Bool × List Char)} :
      WholeDigits w → SpellsFraction f x → SpellsExponent e y →
      SpellsNumber (w ++ (f ++ e)) ⟨false, w, x, y⟩
  | negative {w f e : List Char} {x : Option (List Char)} {y : Option (Bool × List Char)} :
      WholeDigits w → SpellsFraction f x → SpellsExponent e y →
      SpellsNumber ('-' :: (w ++ (f ++ e))) ⟨true, w, x, y⟩

section Numbers

variable {w rest : List Char} {c : Char} {negative : Bool} {x : Option (List Char)}
  {y : Option (Bool × List Char)}

theorem Follows.ends_number (h : Follows rest) :
    ∀ c ∈ rest.head?, c.isDigit = false ∧ c ≠ '.' ∧ c ≠ 'e' ∧ c ≠ 'E' := by
  intro c hc
  rcases h c hc with hs | rfl | rfl | rfl
  · rcases isSpace_iff.1 hs with rfl | rfl | rfl | rfl <;> decide
  · decide
  · decide
  · decide

theorem Digits.eq_cons (h : Digits w) : ∃ c t, w = c :: t ∧ c.isDigit = true := by
  obtain ⟨hn, hd⟩ := h
  obtain ⟨c, t, rfl⟩ := List.exists_cons_of_ne_nil hn
  exact ⟨c, t, rfl, hd c List.mem_cons_self⟩

theorem takeWhile_isDigit {t : List Char} (ht : ∀ c ∈ t, c.isDigit = true)
    (h : ∀ c ∈ rest.head?, c.isDigit = false) :
    (t ++ rest).takeWhile Char.isDigit = t ∧ (t ++ rest).dropWhile Char.isDigit = rest := by
  rw [List.takeWhile_append_of_pos ht, List.dropWhile_append_of_pos ht]
  cases rest with
  | nil => simp
  | cons c rest => simp [h c rfl]

theorem Digits.yields_someDigits (hw : Digits w) (h : ∀ c ∈ rest.head?, c.isDigit = false) :
    Yields (someDigits (w ++ rest)) w rest := by
  obtain ⟨c, t, rfl, hc⟩ := hw.eq_cons
  obtain ⟨htake, hdrop⟩ := takeWhile_isDigit (List.forall_mem_cons.1 hw.2).2 h
  rw [List.cons_append, someDigits, if_pos hc]
  exact ⟨_, rfl, congrArg (c :: ·) htake, hdrop⟩

theorem WholeDigits.yields_wholePart (hw : WholeDigits w)
    (h : ∀ c ∈ rest.head?, c.isDigit = false) : Yields (wholePart (w ++ rest)) w rest := by
  obtain ⟨hd, hz⟩ := hw
  obtain ⟨c, t, rfl, hc⟩ := hd.eq_cons
  rw [List.cons_append, wholePart]
  by_cases h0 : c = '0'
  · subst h0
    obtain rfl : t = [] := by simpa using hz rfl
    have hr : rest.head?.any Char.isDigit = false := by
      cases rest with
      | nil => rfl
      | cons c rest => exact h c rfl
    rw [if_pos rfl, List.nil_append, hr, if_neg Bool.false_ne_true]
    exact .ok _
  · obtain ⟨htake, hdrop⟩ := takeWhile_isDigit (List.forall_mem_cons.1 hd.2).2 h
    rw [if_neg h0, if_pos hc]
    exact ⟨_, rfl, congrArg (c :: ·) htake, hdrop⟩

theorem SpellsFraction.fractionPart_eq (hw : SpellsFraction w x)
    (h : ∀ c ∈ rest.head?, c.isDigit = false ∧ c ≠ '.') :
    ∃ hs, fractionPart (w ++ rest) = .ok (x, ⟨rest, hs⟩) := by
  cases hw with
  | absent =>
    rw [List.nil_append]
    unfold fractionPart
    split
    · exact absurd rfl (h '.' rfl).2
    · exact ⟨Nat.le_refl _, rfl⟩
  | present hd =>
    obtain ⟨_, hp⟩ := (hd.yields_someDigits fun c hc => (h c hc).1).eq_ok
    rw [List.cons_append, fractionPart, hp]
    exact ⟨_, rfl⟩

theorem exponentSign_eq (hc : c.isDigit = true) :
    exponentSign (c :: rest) = (false, .whole (c :: rest)) := by
  have hp : c ≠ '+' := by rintro rfl; cases hc
  have hm : c ≠ '-' := by rintro rfl; cases hc
  simp [exponentSign, hp, hm]

theorem exponentPart_eq (hc : c = 'e' ∨ c = 'E') {s : List Char}
    {hl : (w ++ rest).length ≤ s.length} (hs : exponentSign s = (negative, ⟨w ++ rest, hl⟩))
    (hw : Digits w) (h : ∀ c ∈ rest.head?, c.isDigit = false) :
    ∃ hu, exponentPart (c :: s) = .ok (some (negative, w), ⟨rest, hu⟩) := by
  obtain ⟨hp, he⟩ := (hw.yields_someDigits h).eq_ok
  rw [exponentPart, if_pos hc, hs]
  simp only [he]
  exact ⟨Nat.le_succ_of_le (Nat.le_trans (Nat.le_of_lt hp) hl), rfl⟩

theorem SpellsExponent.exponentPart_eq (hw : SpellsExponent w y) (h : Follows rest) :
    ∃ hs, exponentPart (w ++ rest) = .ok (y, ⟨rest, hs⟩) := by
  have hr : ∀ c ∈ rest.head?, c.isDigit = false := fun c hc => (h.ends_number c hc).1
  cases hw with
  | absent =>
    rw [List.nil_append]
    unfold exponentPart
    split
    · rename_i c rest
      obtain ⟨-, -, he, hE⟩ := h.ends_number c rfl
      rw [if_neg (by simp [he, hE])]
      exact ⟨Nat.le_refl _, rfl⟩
    · exact ⟨Nat.le_refl _, rfl⟩
  | @unsigned c w hc hd =>
    obtain ⟨d, t, rfl, hdig⟩ := hd.eq_cons
    exact Json.exponentPart_eq hc (exponentSign_eq hdig) hd hr
  | plus hc hd => exact Json.exponentPart_eq hc rfl hd hr
  | minus hc hd => exact Json.exponentPart_eq hc rfl hd hr

/-- The parts of a number end where the next one begins. -/
theorem yields_unsignedText {f e : List Char} (hw : WholeDigits w) (hf : SpellsFraction f x)
    (he : SpellsExponent e y) (h : Follows rest) :
    Yields (unsignedText negative (w ++ (f ++ (e ++ rest)))) ⟨negative, w, x, y⟩ rest := by
  have hr := h.ends_number
  have hne : ∀ c ∈ (e ++ rest).head?, c.isDigit = false ∧ c ≠ '.' := by
    cases he with
    | absent => exact fun c hc => ⟨(hr c hc).1, (hr c hc).2.1⟩
    | unsigned hc _ => rcases hc with rfl | rfl <;> simp
    | plus hc _ => rcases hc with rfl | rfl <;> simp
    | minus hc _ => rcases hc with rfl | rfl <;> simp
  have hnf : ∀ c ∈ (f ++ (e ++ rest)).head?, c.isDigit = false := by
    cases hf with
    | absent => exact fun c hc => (hne c hc).1
    | present _ => simp
  obtain ⟨_, hx⟩ := (hw.yields_wholePart hnf).eq_ok
  obtain ⟨_, hy⟩ := hf.fractionPart_eq hne
  obtain ⟨_, hz⟩ := he.exponentPart_eq h
  simp only [unsignedText, hx, bind, Except.bind, hy, hz]
  exact ⟨_, rfl, rfl, rfl⟩

theorem numeralText_eq {s : List Char} (h : s.head? ≠ some '-') :
    numeralText s = unsignedText false s := by
  unfold numeralText
  split
  · exact absurd rfl h
  · rfl

theorem SpellsNumber.yields_numeralText {t : NumeralText} (hw : SpellsNumber w t)
    (h : Follows rest) : Yields (numeralText (w ++ rest)) t rest := by
  cases hw with
  | @unsigned w f e x y hw hf he =>
    have hn : (w ++ (f ++ (e ++ rest))).head? ≠ some '-' := by
      obtain ⟨c, t, rfl, hc⟩ := hw.1.eq_cons
      rintro hs
      cases hs
      cases hc
    rw [List.append_assoc, List.append_assoc, numeralText_eq hn]
    exact yields_unsignedText hw hf he h
  | negative hw hf he =>
    rw [List.cons_append, List.append_assoc, List.append_assoc, numeralText]
    exact (yields_unsignedText hw hf he h).map _ fun p hp => ⟨hp, rfl⟩

theorem SpellsNumber.eq_cons {t : NumeralText} (hw : SpellsNumber w t) :
    ∃ c v, w = c :: v ∧ (c = '-' ∨ c.isDigit = true) := by
  cases hw with
  | unsigned hw hf he =>
    obtain ⟨c, t, rfl, hc⟩ := hw.1.eq_cons
    exact ⟨c, _, rfl, .inr hc⟩
  | negative => exact ⟨'-', _, rfl, .inl rfl⟩

theorem ne_of_startsNumber {d : Char} (hc : c = '-' ∨ c.isDigit = true)
    (hd : ¬ (d = '-' ∨ d.isDigit = true)) : c ≠ d := by
  rintro rfl
  exact hd hc

end Numbers

section Integers

variable {rest : List Char} {i : Int}

/-- Only the number zero starts with the digit zero. -/
theorem toDigits_leading_zero {m : Nat} {t : List Char} (h : Nat.toDigits 10 m = '0' :: t) :
    t = [] := by
  induction m using Nat.strongRecOn generalizing t with
  | ind m ih =>
    by_cases hm : m < 10
    · rw [Nat.toDigits_of_lt_base hm] at h
      exact (List.cons.inj h).2.symm
    · rw [Nat.toDigits_of_base_le (by decide) (by omega)] at h
      cases hd : Nat.toDigits 10 (m / 10) with
      | nil => exact absurd hd Nat.toDigits_ne_nil
      | cons c u =>
        rw [hd, List.cons_append] at h
        obtain ⟨rfl, -⟩ := List.cons.inj h
        have hz : m / 10 = 0 := by
          rw [← Nat.ofDigitChars_ten_toDigits (n := m / 10), hd, ih (m / 10) (by omega) hd]
          rfl
        omega

theorem wholeDigits_toDigits (m : Nat) : WholeDigits (Nat.toDigits 10 m) := by
  refine ⟨⟨Nat.toDigits_ne_nil, fun c hc => ?_⟩, fun hz => ?_⟩
  · exact Nat.isDigit_of_mem_toDigits (by decide) (by decide) hc
  · obtain ⟨t, ht⟩ := List.head?_eq_some_iff.1 hz
    rw [ht, toDigits_leading_zero ht]

theorem spellsNumber_integerChars (i : Int) : SpellsNumber (integerChars i)
    ⟨decide (i < 0), Nat.toDigits 10 i.natAbs, none, none⟩ := by
  have hd := wholeDigits_toDigits i.natAbs
  by_cases hi : i < 0
  · simpa [integerChars, hi] using SpellsNumber.negative hd .absent .absent
  · simpa [integerChars, hi] using SpellsNumber.unsigned hd .absent .absent

theorem le_ofDigitChars (t : List Char) (k : Nat) : k ≤ Nat.ofDigitChars 10 t k := by
  induction t generalizing k with
  | nil => exact Nat.le_refl k
  | cons c t ih =>
    rw [Nat.ofDigitChars_cons]
    exact Nat.le_trans (by omega) (ih _)

/-- As long as the number fits, all of its digits go into the significand. -/
theorem ofWhole_eq {t : List Char} {k : Nat} (h : Nat.ofDigitChars 10 t k < 2 ^ 64) :
    NumeralText.Lead.ofWhole ⟨k, 0⟩ t = ⟨Nat.ofDigitChars 10 t k, 0⟩ := by
  induction t generalizing k with
  | nil => rfl
  | cons c t ih =>
    rw [Nat.ofDigitChars_cons, Nat.mul_comm] at h ⊢
    have hk := le_ofDigitChars t (k * 10 + (c.toNat - '0'.toNat))
    have hf : NumeralText.Lead.isFull ⟨k, 0⟩ c = false := by
      rw [NumeralText.Lead.isFull, decide_eq_false_iff_not]
      change ¬ 2 ^ 64 ≤ k * 10 + (c.toNat - '0'.toNat)
      omega
    rw [NumeralText.Lead.ofWhole, hf, if_neg Bool.false_ne_true]
    exact ih h

theorem value?_integer (hl : -2 ^ 63 ≤ i) (hh : i < 2 ^ 64) :
    NumeralText.value? ⟨decide (i < 0), Nat.toDigits 10 i.natAbs, none, none⟩ =
      some (.integer i) := by
  have hw : NumeralText.Lead.ofWhole ⟨0, 0⟩ (Nat.toDigits 10 i.natAbs) = ⟨i.natAbs, 0⟩ := by
    have he : Nat.ofDigitChars 10 (Nat.toDigits 10 i.natAbs) 0 = i.natAbs :=
      Nat.ofDigitChars_ten_toDigits
    rw [ofWhole_eq (by omega), he]
  have hf : ¬ ((none : Option (List Char)).isSome = true ∨ (0 : Int) ≠ 0) := by decide
  have ht : twoTo 63 = 2 ^ 63 := rfl
  simp only [NumeralText.value?, hw]
  rw [if_neg hf]
  by_cases hi : i < 0
  · have hr : 0 < i.natAbs ∧ i.natAbs ≤ twoTo 63 := by omega
    have hn : -(i.natAbs : Int) = i := by omega
    rw [decide_eq_true hi, if_neg (by decide), if_pos hr, hn]
  · have hn : (i.natAbs : Int) = i := by omega
    rw [decide_eq_false hi, if_pos (by decide), hn]

theorem yields_numeral (hl : -2 ^ 63 ≤ i) (hh : i < 2 ^ 64) (h : Follows rest) :
    Yields (numeral (integerChars i ++ rest)) (.integer i) rest := by
  obtain ⟨_, ht⟩ := ((spellsNumber_integerChars i).yields_numeralText h).eq_ok
  simp only [numeral, ht, bind, Except.bind, value?_integer hl hh]
  exact .ok _

end Integers

end Json

end NestedSelection
