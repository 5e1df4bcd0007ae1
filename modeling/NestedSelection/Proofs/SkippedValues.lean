import NestedSelection.Json.Typed
import NestedSelection.Proofs.SpelledDocuments

/-! # Values that nobody asks for

A text of the JSON grammar is passed over up to its end, at whatever depth it stands. No container
is too deep here, no number is too large, and a string may hold half of a surrogate pair. The
containers around a value are a list, so that passing over a value is a step from one list to the
same list; a container is opened, gone through item by item, and closed.
-/

namespace NestedSelection

namespace Json

/-- One character of a string, of which nobody asks what it stands for. -/
inductive IsCharacter : List Char → Prop
  | plain {c : Char} : c ≠ '"' → c ≠ '\\' → 0x20 ≤ c.toNat → IsCharacter [c]
  | short {e c : Char} : (e, c) ∈ shortEscapes → IsCharacter ['\\', e]
  | unit {w : List Char} {n : Nat} : SpellsUnit w n → IsCharacter w

inductive IsString : List Char → Prop
  | intro {parts : List (List Char)} : (∀ p ∈ parts, IsCharacter p) →
      IsString ('"' :: parts.flatten ++ ['"'])

/-- The texts of the JSON grammar, space around them apart. -/
inductive IsValue : List Char → Prop
  | null : IsValue ['n', 'u', 'l', 'l']
  | bool (b : Bool) : IsValue (boolChars b)
  | number {w : List Char} {t : NumeralText} : SpellsNumber w t → IsValue w
  | text {w : List Char} : IsString w → IsValue w
  | array {w : List Char} {items : List Padded} : Blank w → (∀ p ∈ items, IsValue p.text) →
      IsValue ('[' :: w ++ commaSeparated (items.map Padded.chars) ++ [']'])
  | object {w : List Char} {members : List (Padded × Padded)} : Blank w →
      (∀ m ∈ members, IsString m.1.text) → (∀ m ∈ members, IsValue m.2.text) →
      IsValue ('\x7b' :: w ++ commaSeparated (members.map fun m => m.1.chars ++ ':' :: m.2.chars) ++
        ['\x7d'])

section Strings

variable {s₀ w s rest : List Char}

theorem IsCharacter.skipString_append (h : IsCharacter w) (hl : (w ++ s).length ≤ s₀.length) :
    ∃ hs, skipString (w ++ s) hl = skipString s hs := by
  have hs : s.length ≤ s₀.length := by
    rw [List.length_append] at hl
    omega
  refine ⟨hs, ?_⟩
  cases h with
  | @plain c hq hb hc =>
    have hn : isControl c = false := by simpa [isControl] using hc
    simp only [List.singleton_append]
    rw [skipString, if_neg hq, if_neg hb, if_neg (by simp [hn])]
  | @short e c h =>
    have he : (shortEscape? e).isSome = true := by
      have : ∀ p ∈ shortEscapes, (shortEscape? p.1).isSome = true := by decide
      exact this _ h
    simp only [List.cons_append, List.nil_append]
    rw [skipString, if_neg (by decide), if_pos rfl, skipEscape, if_pos he]
    rfl
  | unit h =>
    obtain ⟨v, rfl, hv⟩ := h.yields_hexFour
    obtain ⟨_, hx⟩ := (hv s).eq_ok
    simp only [List.cons_append]
    rw [skipString, if_neg (by decide), if_pos rfl, skipEscape, if_neg (by decide), if_pos rfl, hx]
    rfl

theorem skipString_flatten {parts : List (List Char)} (h : ∀ p ∈ parts, IsCharacter p)
    (hl : s.length ≤ s₀.length) (hs : s = parts.flatten ++ '"' :: rest) :
    ∃ hr, skipString s hl = .ok ⟨rest, hr⟩ := by
  induction parts generalizing s with
  | nil =>
    subst hs
    simp only [List.flatten_nil, List.nil_append] at hl ⊢
    rw [skipString, if_pos rfl]
    exact ⟨Nat.le_of_succ_le hl, rfl⟩
  | cons p parts ih =>
    obtain ⟨hp, hr⟩ := List.forall_mem_cons.1 h
    rw [List.flatten_cons, List.append_assoc] at hs
    subst hs
    obtain ⟨ht, he⟩ := hp.skipString_append hl
    rw [he]
    exact ih hr ht rfl

theorem IsString.skipString_eq (h : IsString w) : ∃ v, w = '"' :: v ∧
    ∀ {s₀ : List Char} (rest : List Char) (hl : (v ++ rest).length ≤ s₀.length),
      ∃ hr, skipString (v ++ rest) hl = .ok ⟨rest, hr⟩ := by
  obtain ⟨hp⟩ := h
  refine ⟨_, rfl, fun rest hl => ?_⟩
  exact skipString_flatten hp hl (by simp)

end Strings

section Steps

variable {container : Container} {opened : List Container} {c : Char} {s₀ s t rest : List Char}

theorem le_of_skipSpace (h : skipSpace s = c :: t) (hl : s.length ≤ s₀.length) :
    t.length ≤ s₀.length := by
  have := length_skipSpace_le s
  rw [h, List.length_cons] at this
  omega

theorem skipValue_eq (h : skipSpace s = c :: t) (hl : s.length ≤ s₀.length) :
    skipValue opened s hl =
      if c = '[' then skipOpened .array opened t (le_of_skipSpace h hl)
      else if c = '\x7b' then skipOpened .object opened t (le_of_skipSpace h hl)
      else
        match skipScalar (c :: t) with
        | .error e => .error e
        | .ok p => skipAfter opened p.rest
            (Nat.le_trans (Nat.le_of_lt_succ p.shorter) (le_of_skipSpace h hl)) := by
  rw [skipValue]
  split
  · rename_i hs
    cases hs.symm.trans h
  · rename_i d u hs
    obtain ⟨rfl, rfl⟩ := List.cons.inj (hs.symm.trans h)
    rfl

theorem skipValue_scalar (h : skipSpace s = c :: t) (hl : s.length ≤ s₀.length) (ha : c ≠ '[')
    (ho : c ≠ '\x7b') (hy : Yields (skipScalar (c :: t)) () rest) :
    ∃ hr, skipValue opened s hl = skipAfter opened rest hr := by
  obtain ⟨hr, hp⟩ := hy.eq_ok
  rw [skipValue_eq h hl, if_neg ha, if_neg ho, hp]
  exact ⟨Nat.le_trans (Nat.le_of_lt_succ hr) (le_of_skipSpace h hl), rfl⟩

theorem skipOpened_eq (h : skipSpace s = c :: t) (hl : s.length ≤ s₀.length) :
    skipOpened container opened s hl =
      if c = container.close then skipAfter opened t (le_of_skipSpace h hl)
      else skipItem container opened s hl := by
  rw [skipOpened]
  split
  · rename_i hs
    cases hs.symm.trans h
  · rename_i d u hs
    obtain ⟨rfl, rfl⟩ := List.cons.inj (hs.symm.trans h)
    rfl

theorem skipAfter_eq (h : skipSpace s = c :: t) (hl : s.length ≤ s₀.length) :
    skipAfter (container :: opened) s hl =
      if c = container.close then skipAfter opened t (le_of_skipSpace h hl)
      else if c = ',' then skipItem container opened t (le_of_skipSpace h hl)
      else .error .malformed := by
  rw [skipAfter]
  split
  · rename_i hs
    cases hs.symm.trans h
  · rename_i d u hs
    obtain ⟨rfl, rfl⟩ := List.cons.inj (hs.symm.trans h)
    rfl

end Steps

section Containers

variable {container : Container} {opened : List Container} {s₀ w x s rest : List Char}

structure Skips (container : Container) (x : List Char) : Prop where
  starts : ∃ c v, c ≠ container.close ∧ ∀ rest, skipSpace (x ++ rest) = c :: (v ++ rest)
  skipItem_eq : ∀ (opened : List Container) {s₀ s rest : List Char} (hl : s.length ≤ s₀.length),
    skipSpace s = skipSpace (x ++ rest) → Follows rest →
      ∃ hr, skipItem container opened s hl = skipAfter (container :: opened) rest hr

theorem close_eq (container : Container) : container.close = ']' ∨ container.close = '\x7d' := by
  cases container
  · exact .inl rfl
  · exact .inr rfl

theorem isSpace_close (container : Container) : isSpace container.close = false := by
  cases container <;> decide

theorem skipSpace_goingOn (container : Container) (l : List (List Char)) :
    skipSpace (goingOn container.close rest l) = goingOn container.close rest l := by
  cases l with
  | nil => exact skipSpace_cons (isSpace_close container)
  | cons x l => exact skipSpace_cons (by decide)

theorem skipAfter_goingOn {l : List (List Char)} (h : ∀ x ∈ l, Skips container x)
    (hl : s.length ≤ s₀.length) (hs : skipSpace s = goingOn container.close rest l) :
    ∃ hr, skipAfter (container :: opened) s hl = skipAfter opened rest hr := by
  induction l generalizing s with
  | nil =>
    rw [skipAfter_eq hs hl, if_pos rfl]
    exact ⟨_, rfl⟩
  | cons x l ih =>
    obtain ⟨hx, hr⟩ := List.forall_mem_cons.1 h
    have hf : Follows (goingOn container.close rest l) := follows_goingOn (close_eq container) l
    obtain ⟨ht, he⟩ := hx.skipItem_eq opened (le_of_skipSpace hs hl) rfl hf
    rw [skipAfter_eq hs hl, if_neg (by cases container <;> decide), if_pos rfl, he]
    exact ih hr ht (skipSpace_goingOn container l)

/-- A container is passed over with all of its items. -/
theorem skipOpened_append {l : List (List Char)} (hw : Blank w) (h : ∀ x ∈ l, Skips container x)
    (hl : s.length ≤ s₀.length) (hs : s = w ++ (commaSeparated l ++ container.close :: rest)) :
    ∃ hr, skipOpened container opened s hl = skipAfter opened rest hr := by
  cases l with
  | nil =>
    have hc : skipSpace s = container.close :: rest :=
      hs ▸ hw.skipSpace_append_cons (isSpace_close container)
    rw [skipOpened_eq hc hl, if_pos rfl]
    exact ⟨_, rfl⟩
  | cons x l =>
    -- The space before the first item is left to the item, which skips it as it starts.
    obtain ⟨hx, hr⟩ := List.forall_mem_cons.1 h
    obtain ⟨c, v, hc, hv⟩ := hx.starts
    have hx' : skipSpace s = skipSpace (x ++ goingOn container.close rest l) := by
      rw [hs, hw.skipSpace_append, commaSeparated_append]
    have hf : Follows (goingOn container.close rest l) := follows_goingOn (close_eq container) l
    obtain ⟨ht, he⟩ := hx.skipItem_eq opened hl hx' hf
    rw [skipOpened_eq (hx'.trans (hv _)) hl, if_neg hc, he]
    exact skipAfter_goingOn hr ht (skipSpace_goingOn container l)

theorem skipAfter_congr (h : skipSpace s = skipSpace w) (hs : s.length ≤ s₀.length)
    (hw : w.length ≤ s₀.length) :
    skipAfter (container :: opened) s hs = skipAfter (container :: opened) w hw := by
  cases hc : skipSpace w with
  | nil =>
    rw [skipAfter, skipAfter]
    split <;> split <;> simp_all
  | cons c t => rw [skipAfter_eq (h.trans hc) hs, skipAfter_eq hc hw]

end Containers

section Scalars

variable {w v rest : List Char}

theorem yields_skipScalar_null (rest : List Char) :
    Yields (skipScalar (['n', 'u', 'l', 'l'] ++ rest)) () rest := by
  obtain ⟨t, ht, hr⟩ := word_append ['u', 'l', 'l'] rest
  change Yields (skipScalar ('n' :: (['u', 'l', 'l'] ++ rest))) () rest
  rw [skipScalar, if_pos rfl, ht]
  exact ⟨_, rfl, rfl, hr⟩

theorem yields_skipScalar_bool (b : Bool) (rest : List Char) :
    Yields (skipScalar (boolChars b ++ rest)) () rest := by
  cases b with
  | false =>
    obtain ⟨t, ht, hr⟩ := word_append ['a', 'l', 's', 'e'] rest
    change Yields (skipScalar ('f' :: (['a', 'l', 's', 'e'] ++ rest))) () rest
    rw [skipScalar, if_neg (by decide), if_neg (by decide), if_pos rfl, ht]
    exact ⟨_, rfl, rfl, hr⟩
  | true =>
    obtain ⟨t, ht, hr⟩ := word_append ['r', 'u', 'e'] rest
    change Yields (skipScalar ('t' :: (['r', 'u', 'e'] ++ rest))) () rest
    rw [skipScalar, if_neg (by decide), if_pos rfl, ht]
    exact ⟨_, rfl, rfl, hr⟩

theorem SpellsNumber.yields_skipScalar {t : NumeralText} (h : SpellsNumber w t)
    (hr : Follows rest) : Yields (skipScalar (w ++ rest)) () rest := by
  obtain ⟨_, hp⟩ := (h.yields_numeralText hr).eq_ok
  obtain ⟨c, v, rfl, hc⟩ := h.eq_cons
  have hn : c ≠ 'n' := ne_of_startsNumber hc (by decide)
  have ht : c ≠ 't' := ne_of_startsNumber hc (by decide)
  have hf : c ≠ 'f' := ne_of_startsNumber hc (by decide)
  have hd : (c = '-' || c.isDigit) = true := by simpa using hc
  simp only [List.cons_append] at hp ⊢
  rw [skipScalar, if_neg hn, if_neg ht, if_neg hf, if_pos hd, skipNumber, hp]
  exact ⟨_, rfl, rfl, rfl⟩

theorem IsString.yields_skipScalar (h : IsString w) (rest : List Char) :
    Yields (skipScalar (w ++ rest)) () rest := by
  obtain ⟨v, rfl, hv⟩ := h.skipString_eq
  obtain ⟨_, he⟩ := hv rest (length_le_self _)
  rw [List.cons_append, skipScalar, if_neg (by decide), if_neg (by decide), if_neg (by decide),
    if_neg (by decide), if_pos rfl, he]
  exact ⟨_, rfl, rfl, rfl⟩

end Scalars

section Values

variable {opened : List Container} {s₀ w s rest : List Char}

theorem IsString.starts (h : IsString w) : Starts w := by
  obtain ⟨v, rfl, -⟩ := h.skipString_eq
  exact ⟨'"', v, rfl, by decide, by decide⟩

theorem IsValue.starts (h : IsValue w) : Starts w := by
  cases h with
  | null => exact ⟨'n', _, rfl, by decide, by decide⟩
  | bool b =>
    cases b
    · exact ⟨'f', _, rfl, by decide, by decide⟩
    · exact ⟨'t', _, rfl, by decide, by decide⟩
  | number h => exact h.starts
  | text h => exact h.starts
  | array => exact ⟨'[', _, rfl, by decide, by decide⟩
  | object => exact ⟨'\x7b', _, rfl, by decide, by decide⟩

def SkipsValue (w : List Char) : Prop :=
  ∀ (opened : List Container) {s₀ s rest : List Char} (hl : s.length ≤ s₀.length),
    skipSpace s = w ++ rest → Follows rest →
      ∃ hr, skipValue opened s hl = skipAfter opened rest hr

theorem SkipsValue.padded {p : Padded} (hv : SkipsValue p.text) (hs : Starts p.text)
    (hl : s.length ≤ s₀.length) (he : skipSpace s = skipSpace (p.chars ++ rest))
    (hr : Follows rest) (container : Container) : ∃ hr,
      skipValue (container :: opened) s hl = skipAfter (container :: opened) rest hr := by
  rw [Padded.skipSpace_append hs] at he
  obtain ⟨ht, hv⟩ := hv (container :: opened) hl he (p.blank_after.follows_append hr)
  have hle : rest.length ≤ s₀.length := by
    rw [List.length_append] at ht
    omega
  rw [hv]
  exact ⟨hle, skipAfter_congr p.blank_after.skipSpace_append ht hle⟩

theorem skips_item {p : Padded} (hs : Starts p.text) (hv : SkipsValue p.text) :
    Skips .array p.chars := by
  constructor
  · have hp := Padded.skipSpace_append hs
    obtain ⟨c, v, hc, -, hn⟩ := hs
    refine ⟨c, v ++ p.after, hn, fun rest => ?_⟩
    rw [hp, hc, List.cons_append, List.append_assoc]
  · intro opened s₀ s rest hl he hr
    rw [skipItem]
    exact hv.padded hs hl he hr .array

theorem yields_skipName {p : Padded} (hp : IsString p.text) :
    Yields (skipName (p.text ++ (p.after ++ ':' :: rest))) () rest := by
  obtain ⟨v, hv, hx⟩ := hp.skipString_eq
  obtain ⟨_, he⟩ := hx (p.after ++ ':' :: rest) (length_le_self _)
  obtain ⟨_, hn⟩ := nextChar_eq
    (p.blank_after.skipSpace_append_cons (s := rest) (c := ':') (by decide))
  rw [hv, List.cons_append, skipName, if_neg (by simp), he]
  simp only [hn, if_true]
  exact ⟨_, rfl, rfl, rfl⟩

theorem skips_member {p q : Padded} (hp : IsString p.text) (hs : Starts q.text)
    (hv : SkipsValue q.text) : Skips .object (p.chars ++ ':' :: q.chars) := by
  have ha : ∀ rest, skipSpace (p.chars ++ ':' :: q.chars ++ rest) =
      p.text ++ (p.after ++ ':' :: (q.chars ++ rest)) := by
    intro rest
    rw [List.append_assoc, Padded.skipSpace_append hp.starts, List.cons_append]
  constructor
  · obtain ⟨v, hc, -⟩ := hp.skipString_eq
    refine ⟨'"', v ++ (p.after ++ ':' :: q.chars), by decide, fun rest => ?_⟩
    rw [ha, hc]
    simp
  · intro opened s₀ s rest hl he hr
    have hn : Yields (skipName (skipSpace s)) () (q.chars ++ rest) := by
      rw [he, ha]
      exact yields_skipName hp
    obtain ⟨_, hn⟩ := hn.eq_ok
    rw [skipItem]
    simp only [hn]
    exact hv.padded hs _ rfl hr .object

theorem IsValue.skipsValue (h : IsValue w) : SkipsValue w := by
  induction h with
  | null =>
    intro opened s₀ s rest hl hs hr
    exact skipValue_scalar hs hl (by decide) (by decide) (yields_skipScalar_null rest)
  | bool b =>
    intro opened s₀ s rest hl hs hr
    have hy := yields_skipScalar_bool b rest
    cases b
    · exact skipValue_scalar hs hl (by decide) (by decide) hy
    · exact skipValue_scalar hs hl (by decide) (by decide) hy
  | number h =>
    intro opened s₀ s rest hl hs hr
    have hy := h.yields_skipScalar hr
    obtain ⟨c, v, rfl, hc⟩ := h.eq_cons
    have ha : c ≠ '[' := ne_of_startsNumber hc (by decide)
    have ho : c ≠ '\x7b' := ne_of_startsNumber hc (by decide)
    exact skipValue_scalar hs hl ha ho hy
  | text h =>
    intro opened s₀ s rest hl hs hr
    have hy := h.yields_skipScalar rest
    obtain ⟨v, rfl, -⟩ := h.skipString_eq
    exact skipValue_scalar hs hl (by decide) (by decide) hy
  | @array w items hw h ih =>
    intro opened s₀ s rest hl hs hr
    have hi : ∀ x ∈ items.map Padded.chars, Skips .array x := by
      rintro x hx
      obtain ⟨p, hp, rfl⟩ := List.mem_map.1 hx
      exact skips_item (h p hp).starts (ih p hp)
    simp only [List.cons_append] at hs
    rw [skipValue_eq hs hl, if_pos rfl]
    exact skipOpened_append hw hi _ (by simp [Container.close])
  | @object w members hw hn h ih =>
    intro opened s₀ s rest hl hs hr
    have hi : ∀ x ∈ members.map fun m => m.1.chars ++ ':' :: m.2.chars, Skips .object x := by
      rintro x hx
      obtain ⟨m, hm, rfl⟩ := List.mem_map.1 hx
      exact skips_member (hn m hm) (h m hm).starts (ih m hm)
    simp only [List.cons_append] at hs
    rw [skipValue_eq hs hl, if_neg (by decide), if_pos rfl]
    exact skipOpened_append hw hi _ (by simp [Container.close])

theorem IsValue.yields_skipMember {σ : Type} {m : Member} (h : IsValue m.value.text) (state : σ)
    (hr : Follows rest) : Yields (skipMember state (m.label.after ++
      ':' :: (m.value.before ++ (m.value.text ++ rest)))) state rest := by
  obtain ⟨_, hc⟩ := m.afterColon_eq h.starts rest
  obtain ⟨ht, hv⟩ := h.skipsValue [] (length_le_self (m.value.text ++ rest))
    h.starts.skipSpace_append hr
  simp only [skipMember, hc, hv]
  rw [skipAfter]
  exact ⟨_, rfl, rfl, rfl⟩

end Values

end Json

end NestedSelection
