import NestedSelection.Json.Reader
import NestedSelection.Proofs.SpelledNumbers

/-! # How documents are spelled in JSON

A document is spelled by a text if it can be written so: with any space between the parts, and with
each character of a string in any of its spellings. All entries of an object are written, repeated
names included. What a text spells is read back from it, whatever may follow; the steps of the loops
over arrays and objects are taken one by one, with the rest of the text as it is after each step.
-/

namespace NestedSelection

namespace Json

structure Padded where
  before : List Char
  text : List Char
  after : List Char
  blank_before : Blank before
  blank_after : Blank after

def Padded.chars (p : Padded) : List Char := p.before ++ p.text ++ p.after

/-- A member of an object: a name, the string that spells it, and the text of the value. -/
structure Member where
  name : String
  label : Padded
  value : Padded
  spelled : SpellsString label.text name

def Member.chars (m : Member) : List Char := m.label.chars ++ ':' :: m.value.chars

/-- The text spells the document, in which at most so many containers are nested. -/
inductive Spells : Nat → List Char → Document → Prop
  | null {n : Nat} : Spells n ['n', 'u', 'l', 'l'] .null
  | bool {n : Nat} (b : Bool) : Spells n (boolChars b) (.bool b)
  | integer {n : Nat} {i : Int} : -2 ^ 63 ≤ i → i < 2 ^ 64 → Spells n (integerChars i) (.integer i)
  | text {n : Nat} {w : List Char} {x : String} : SpellsString w x → Spells n w (.text x)
  | sequence {n : Nat} {w : List Char} {items : List (Padded × Document)} : Blank w →
      (∀ e ∈ items, Spells n e.1.text e.2) →
      Spells (n + 1) ('[' :: w ++ commaSeparated (items.map fun e => e.1.chars) ++ [']'])
        (.sequence (items.map Prod.snd))
  | mapping {n : Nat} {w : List Char} {members : List (Member × Document)} : Blank w →
      (∀ e ∈ members, Spells n e.1.value.text e.2) →
      Spells (n + 1) ('\x7b' :: w ++ commaSeparated (members.map fun e => e.1.chars) ++ ['\x7d'])
        (.mapping (members.map fun e => (.name e.1.name, e.2)))

def SpellsText (n : Nat) (text : String) (d : Document) : Prop :=
  ∃ p : Padded, p.chars = text.toList ∧ Spells n p.text d

/-- A text that starts with no space and does not end an array. -/
def Starts (w : List Char) : Prop := ∃ c v, w = c :: v ∧ isSpace c = false ∧ c ≠ ']'

/-- The reader takes the value from its text, whatever may stand behind it. -/
structure Reads {α : Type} (value : Reader α) (w : List Char) (v : α) : Prop where
  starts : Starts w
  yields : ∀ rest, Follows rest → Yields (value (w ++ rest)) v rest

/-- What stands behind the first of several parts: the others, each behind a comma, and the end. -/
def goingOn (close : Char) (rest : List Char) : List (List Char) → List Char
  | [] => close :: rest
  | x :: l => ',' :: (x ++ goingOn close rest l)

section Space

variable {s rest : List Char} {close : Char}

theorem commaSeparated_append (x : List Char) (l : List (List Char)) :
    commaSeparated (x :: l) ++ close :: rest = x ++ goingOn close rest l := by
  induction l generalizing x with
  | nil => rfl
  | cons y l ih => rw [commaSeparated, List.append_assoc, List.cons_append, ih, goingOn]

theorem follows_goingOn (h : close = ']' ∨ close = '\x7d') (l : List (List Char)) :
    Follows (goingOn close rest l) := by
  intro c hc
  cases l with
  | nil =>
    obtain rfl : close = c := by simpa [goingOn] using hc
    exact .inr (.inr h)
  | cons x l =>
    obtain rfl : ',' = c := by simpa [goingOn] using hc
    exact .inr (.inl rfl)

theorem Starts.skipSpace_append {w : List Char} (h : Starts w) :
    skipSpace (w ++ rest) = w ++ rest := by
  obtain ⟨c, v, rfl, hc, -⟩ := h
  exact skipSpace_cons hc

theorem Padded.skipSpace_append {p : Padded} (h : Starts p.text) (rest : List Char) :
    skipSpace (p.chars ++ rest) = p.text ++ (p.after ++ rest) := by
  rw [Padded.chars, List.append_assoc, List.append_assoc, p.blank_before.skipSpace_append,
    h.skipSpace_append]

theorem afterColon_eq {t : List Char} (hs : skipSpace s = ':' :: t) (ht : skipSpace t = rest) :
    ∃ h, afterColon s = .ok ⟨(), rest, h⟩ := by
  subst ht
  unfold afterColon
  generalize length_skipSpace_le s = hl
  revert hl
  rw [hs]
  exact fun hl => ⟨Nat.lt_of_le_of_lt (length_skipSpace_le t) hl, if_pos rfl⟩

end Space

section Arrays

variable {α : Type} {item : Reader α} {v : α} {s₀ s r t rest : List Char}

theorem elements_close (before : List α) (hl : s.length ≤ s₀.length) {hr : r.length < s.length}
    (hv : item s = .ok ⟨v, r, hr⟩) (h : skipSpace r = ']' :: rest) :
    Yields (elements item before s hl) (v :: before).reverse rest := by
  obtain ⟨_, hn⟩ := nextChar_eq h
  rw [elements, hv]
  simp only [hn]
  exact ⟨_, rfl, rfl, rfl⟩

theorem elements_more (before : List α) (hl : s.length ≤ s₀.length) {hr : r.length < s.length}
    {c : Char} (hv : item s = .ok ⟨v, r, hr⟩) (h : skipSpace r = ',' :: t)
    (ht : skipSpace t = c :: rest) (hc : c ≠ ']') : ∃ hl', elements item before s hl =
      elements item (v :: before) (skipSpace t) hl' := by
  obtain ⟨htr, hn⟩ := nextChar_eq h
  have hl' : (skipSpace t).length ≤ s₀.length := by
    have := length_skipSpace_le t
    omega
  have hh : (afterSpace t).rest.head? = some c := congrArg List.head? ht
  have hd : ¬ ',' = ']' := by decide
  rw [elements, hv]
  simp only [hn, Piece.shorten, Piece.followedBy, hh, if_neg hd, if_neg hc, if_true]
  exact ⟨hl', rfl⟩

theorem arrayOf_eq (item : Reader α) {c : Char} (h : skipSpace s = c :: t) : ∃ hs, arrayOf item s =
    if c = ']' then .ok ⟨[], t, hs⟩ else elements item [] (c :: t) hs := by
  unfold arrayOf
  generalize length_skipSpace_le s = hl
  revert hl
  rw [h]
  exact fun hl => ⟨hl, rfl⟩

theorem yields_elements {before : List α} {s : List Char} {e : Padded × α} {l : List (Padded × α)}
    (h : ∀ x ∈ e :: l, Reads item x.1.text x.2) (hl : s.length ≤ s₀.length)
    (hs : s = e.1.text ++ (e.1.after ++ goingOn ']' rest (l.map fun x => x.1.chars))) :
    Yields (elements item before s hl) (before.reverse ++ (e :: l).map Prod.snd) rest := by
  -- By recursion on the items behind this one; `elements` stands at the start of an item each time.
  subst hs
  obtain ⟨he, hm⟩ := List.forall_mem_cons.1 h
  have hb := e.1.blank_after
  have hf : Follows (e.1.after ++ goingOn ']' rest (l.map fun x => x.1.chars)) :=
    hb.follows_append (follows_goingOn (.inl rfl) _)
  obtain ⟨_, hv⟩ := (he.yields _ hf).eq_ok
  cases l with
  | nil =>
    simpa using elements_close before hl hv (hb.skipSpace_append_cons (by decide))
  | cons x l =>
    have hx := (hm x List.mem_cons_self).starts
    have hp := Padded.skipSpace_append hx (goingOn ']' rest (l.map fun x => x.1.chars))
    obtain ⟨c, u, hu, -, hc⟩ := hx
    obtain ⟨hl', heq⟩ := elements_more before hl hv
      (hb.skipSpace_append_cons (by decide)) (hp.trans (by rw [hu, List.cons_append])) hc
    rw [heq]
    have hi : Yields (elements item (e.2 :: before) _ hl') _ rest := yields_elements hm hl' hp
    rwa [List.reverse_cons, List.append_assoc] at hi

theorem yields_arrayOf {w : List Char} {items : List (Padded × α)} (hw : Blank w)
    (h : ∀ e ∈ items, Reads item e.1.text e.2) (rest : List Char) :
    Yields (arrayOf item (w ++ (commaSeparated (items.map fun e => e.1.chars) ++ ']' :: rest)))
      (items.map Prod.snd) rest := by
  cases items with
  | nil =>
    have hs : skipSpace (w ++ ']' :: rest) = ']' :: rest := hw.skipSpace_append_cons (by decide)
    obtain ⟨_, he⟩ := arrayOf_eq item hs
    exact ⟨_, he, rfl, rfl⟩
  | cons e l =>
    have hx := (h e List.mem_cons_self).starts
    rw [List.map_cons, commaSeparated_append]
    have hp := hw.skipSpace_append.trans
      (Padded.skipSpace_append hx (goingOn ']' rest (l.map fun x => x.1.chars)))
    obtain ⟨c, u, hu, -, hc⟩ := hx
    rw [hu, List.cons_append] at hp
    obtain ⟨hl, he⟩ := arrayOf_eq item hp
    rw [he, if_neg hc]
    exact yields_elements h hl (by rw [hu, List.cons_append])

end Arrays

section Objects

variable {σ : Type} {member : MemberReader σ} {state state' : σ} {m : Member}
  {s₀ s n r t rest : List Char}

def Runs (member : MemberReader σ) : σ → List Member → σ → Prop
  | state, [], final => state = final
  | state, m :: l, final =>
    ∃ next, (∀ rest, Follows rest → Yields (member state m.name (m.label.after ++
      ':' :: (m.value.before ++ (m.value.text ++ rest)))) next rest) ∧ Runs member next l final

theorem members_close {name : String} (hl : ('"' :: s).length ≤ s₀.length)
    {hn : n.length < s.length} {hr : r.length < n.length} (hs : string s = .ok ⟨name, n, hn⟩)
    (hv : member state name n = .ok ⟨state', r, hr⟩) (h : skipSpace r = '\x7d' :: rest) :
    Yields (members member state ('"' :: s) hl) state' rest := by
  obtain ⟨_, hc⟩ := nextChar_eq h
  rw [members, if_neg (by decide), hs]
  simp only [hv, hc]
  exact ⟨_, rfl, rfl, rfl⟩

theorem members_more {name : String} (hl : ('"' :: s).length ≤ s₀.length)
    {hn : n.length < s.length} {hr : r.length < n.length} (hs : string s = .ok ⟨name, n, hn⟩)
    (hv : member state name n = .ok ⟨state', r, hr⟩) (h : skipSpace r = ',' :: t) :
    ∃ hl', members member state ('"' :: s) hl =
      members member state' (skipSpace t) hl' := by
  obtain ⟨htr, hc⟩ := nextChar_eq h
  have hl' : (skipSpace t).length ≤ s₀.length := by
    have := length_skipSpace_le t
    rw [List.length_cons] at hl
    omega
  have hd : ¬ ',' = '\x7d' := by decide
  rw [members, if_neg (by decide), hs]
  simp only [hv, hc, if_neg hd, if_true]
  exact ⟨hl', rfl⟩

theorem objectOf_eq (member : MemberReader σ) (state : σ) {c : Char}
    (h : skipSpace s = c :: t) : ∃ hs, objectOf member state s =
    if c = '\x7d' then .ok ⟨state, t, hs⟩ else members member state (c :: t) hs := by
  unfold objectOf
  generalize length_skipSpace_le s = hl
  revert hl
  rw [h]
  exact fun hl => ⟨hl, rfl⟩

theorem SpellsString.starts {w : List Char} {x : String} (h : SpellsString w x) : Starts w := by
  obtain ⟨v, rfl, -⟩ := h.yields_string
  exact ⟨'"', v, rfl, by decide, by decide⟩

theorem Member.skipSpace_append (m : Member) (rest : List Char) :
    skipSpace (m.chars ++ rest) =
      m.label.text ++ (m.label.after ++ ':' :: (m.value.chars ++ rest)) := by
  rw [Member.chars, List.append_assoc, Padded.skipSpace_append m.spelled.starts, List.cons_append]

theorem Member.afterColon_eq (m : Member) (h : Starts m.value.text) (rest : List Char) :
    ∃ hl, afterColon (m.label.after ++ ':' :: (m.value.before ++ (m.value.text ++ rest))) =
      .ok ⟨(), m.value.text ++ rest, hl⟩ := by
  have hs : skipSpace (m.value.before ++ (m.value.text ++ rest)) = m.value.text ++ rest := by
    rw [m.value.blank_before.skipSpace_append, h.skipSpace_append]
  exact Json.afterColon_eq (m.label.blank_after.skipSpace_append_cons (by decide)) hs

theorem yields_members {state : σ} {s : List Char} {m : Member} {l : List Member}
    (h : Runs member state (m :: l) state') (hl : s.length ≤ s₀.length)
    (hs : s = m.label.text ++ (m.label.after ++
      ':' :: (m.value.chars ++ goingOn '\x7d' rest (l.map Member.chars)))) :
    Yields (members member state s hl) state' rest := by
  -- By recursion on the members behind this one, as for the items of an array.
  obtain ⟨v, hv, hx⟩ := m.spelled.yields_string
  rw [hv, List.cons_append, Padded.chars, List.append_assoc, List.append_assoc] at hs
  subst hs
  obtain ⟨next, hm, hr⟩ := h
  have hb := m.value.blank_after
  have hf : Follows (m.value.after ++ goingOn '\x7d' rest (l.map Member.chars)) :=
    hb.follows_append (follows_goingOn (.inr rfl) _)
  obtain ⟨_, hp⟩ := (hm _ hf).eq_ok
  obtain ⟨_, hn⟩ := (hx (m.label.after ++ ':' :: (m.value.before ++ (m.value.text ++
    (m.value.after ++ goingOn '\x7d' rest (l.map Member.chars)))))).eq_ok
  cases l with
  | nil =>
    cases hr
    exact members_close hl hn hp (hb.skipSpace_append_cons (by decide))
  | cons x l =>
    obtain ⟨hl', he⟩ := members_more hl hn hp (hb.skipSpace_append_cons (by decide))
    rw [he]
    exact yields_members hr hl' (x.skipSpace_append _)

theorem yields_objectOf {w : List Char} {l : List Member} (hw : Blank w)
    (h : Runs member state l state') (rest : List Char) :
    Yields (objectOf member state
      (w ++ (commaSeparated (l.map Member.chars) ++ '\x7d' :: rest))) state' rest := by
  cases l with
  | nil =>
    cases h
    have hs : skipSpace (w ++ '\x7d' :: rest) = '\x7d' :: rest :=
      hw.skipSpace_append_cons (by decide)
    obtain ⟨_, he⟩ := objectOf_eq member state hs
    exact ⟨_, he, rfl, rfl⟩
  | cons m l =>
    rw [List.map_cons, commaSeparated_append]
    obtain ⟨v, hv, -⟩ := m.spelled.yields_string
    have hp := hw.skipSpace_append.trans
      (m.skipSpace_append (goingOn '\x7d' rest (l.map Member.chars)))
    rw [hv, List.cons_append] at hp
    obtain ⟨hl, he⟩ := objectOf_eq member state hp
    rw [he, if_neg (by decide)]
    exact yields_members h hl (by rw [hv, List.cons_append])

/-- Members whose values can be read are all kept, the last one first. -/
theorem runs_keepMember {α : Type} {value : Reader α} {l : List (Member × α)}
    (h : ∀ e ∈ l, Reads value e.1.value.text e.2) (before : List (String × α)) :
    Runs (keepMember value) before (l.map Prod.fst)
      ((l.map fun e => (e.1.name, e.2)).reverse ++ before) := by
  induction l generalizing before with
  | nil => rfl
  | cons e l ih =>
    obtain ⟨he, hl⟩ := List.forall_mem_cons.1 h
    rw [List.map_cons, List.map_cons, List.reverse_cons, List.append_assoc]
    refine ⟨_, fun rest hr => ?_, ih hl _⟩
    obtain ⟨_, hc⟩ := e.1.afterColon_eq he.starts rest
    obtain ⟨_, hp⟩ := (he.yields rest hr).eq_ok
    simp only [keepMember, hc, bind, Except.bind, hp]
    exact .ok _

end Objects

section Documents

variable {n : Nat} {w s rest : List Char} {d : Document}

theorem word_append (letters : List Char) (rest : List Char) :
    ∃ t, word letters (letters ++ rest) = .ok t ∧ t.rest = rest := by
  induction letters with
  | nil => exact ⟨_, rfl, rfl⟩
  | cons l letters ih =>
    obtain ⟨t, ht, hr⟩ := ih
    rw [List.cons_append, word, if_pos rfl, ht]
    exact ⟨_, rfl, hr⟩

theorem yields_wordValue {α : Type} (letters : List Char) (value : α) (c : Char)
    (rest : List Char) :
    Yields (wordValue letters value (c := c) (letters ++ rest)) value rest := by
  obtain ⟨t, ht, hr⟩ := word_append letters rest
  rw [wordValue, ht]
  exact ⟨_, rfl, rfl, hr⟩

theorem SpellsNumber.starts {t : NumeralText} (h : SpellsNumber w t) : Starts w := by
  obtain ⟨c, v, rfl, hc⟩ := h.eq_cons
  refine ⟨c, v, rfl, ?_, ?_⟩
  · rw [Bool.eq_false_iff, ne_eq, isSpace_iff]
    rintro (rfl | rfl | rfl | rfl) <;> simp at hc
  · exact ne_of_startsNumber hc (by decide)

theorem Spells.starts (h : Spells n w d) : Starts w := by
  cases h with
  | null => exact ⟨'n', _, rfl, by decide, by decide⟩
  | bool b =>
    cases b
    · exact ⟨'f', _, rfl, by decide, by decide⟩
    · exact ⟨'t', _, rfl, by decide, by decide⟩
  | @integer _ i => exact (spellsNumber_integerChars i).starts
  | text h => exact h.starts
  | sequence => exact ⟨'[', _, rfl, by decide, by decide⟩
  | mapping => exact ⟨'\x7b', _, rfl, by decide, by decide⟩

theorem yields_document_integer {i : Int} (hl : -2 ^ 63 ≤ i) (hh : i < 2 ^ 64)
    (hr : Follows rest) : Yields (document n (integerChars i ++ rest)) (.integer i) rest := by
  have hn := yields_numeral hl hh hr
  obtain ⟨c, v, he, hc⟩ := (spellsNumber_integerChars i).eq_cons
  have hn' : c ≠ 'n' := ne_of_startsNumber hc (by decide)
  have ht : c ≠ 't' := ne_of_startsNumber hc (by decide)
  have hf : c ≠ 'f' := ne_of_startsNumber hc (by decide)
  have hd : document n (c :: (v ++ rest)) =
      (numeral (c :: (v ++ rest))).map (·.map Numeral.document) := by
    unfold document
    simp only [if_neg hn', if_neg ht, if_neg hf]
    exact if_pos (by simpa using hc)
  rw [he, List.cons_append] at hn ⊢
  rw [hd]
  exact hn.map _ fun p hp => ⟨congrArg Numeral.document hp, rfl⟩

theorem yields_document_bool (b : Bool) :
    Yields (document n (boolChars b ++ rest)) (.bool b) rest := by
  unfold document
  cases b
  · exact yields_wordValue ['a', 'l', 's', 'e'] (Document.bool false) 'f' rest
  · exact yields_wordValue ['r', 'u', 'e'] (Document.bool true) 't' rest

theorem yields_document_text {x : String} (h : Yields (string s) x rest) :
    Yields (document n ('"' :: s)) (.text x) rest := by
  unfold document
  exact h.map (fun p => (p.map Document.text).behind '"') fun p hp =>
    ⟨congrArg Document.text hp, rfl⟩

theorem yields_document_sequence {items : List Document}
    (h : Yields (arrayOf (document n) s) items rest) :
    Yields (document (n + 1) ('[' :: s)) (.sequence items) rest := by
  unfold document
  exact h.map (fun p => (p.map Document.sequence).behind '[') fun p hp =>
    ⟨congrArg Document.sequence hp, rfl⟩

theorem yields_document_mapping {l : List (String × Document)}
    (h : Yields (objectOf (keepMember (document n)) [] s) l.reverse rest) :
    Yields (document (n + 1) ('\x7b' :: s)) (.mapping (l.map fun e => (.name e.1, e.2))) rest := by
  unfold document
  refine h.map (fun p => (p.map fun l =>
    Document.mapping (l.reverse.map fun e => (.name e.1, e.2))).behind '\x7b') fun p hp => ⟨?_, rfl⟩
  simp [Piece.behind, Piece.widen, Piece.map, hp]

/-- A reader of documents takes a spelled document from any text that goes on as it may. -/
theorem Spells.reads (h : Spells n w d) : Reads (document n) w d := by
  refine ⟨h.starts, ?_⟩
  induction h with
  | null =>
    intro rest _
    unfold document
    exact yields_wordValue ['u', 'l', 'l'] Document.null 'n' rest
  | bool b => exact fun rest _ => yields_document_bool b
  | integer hl hh => exact fun rest hr => yields_document_integer hl hh hr
  | text h =>
    intro rest _
    obtain ⟨v, rfl, hx⟩ := h.yields_string
    exact yields_document_text (hx rest)
  | @sequence n w items hw h ih =>
    intro rest _
    have hy := yields_arrayOf hw (fun e he => ⟨(h e he).starts, ih e he⟩) rest
    have he : '[' :: w ++ commaSeparated (items.map fun e => e.1.chars) ++ [']'] ++ rest =
        '[' :: (w ++ (commaSeparated (items.map fun e => e.1.chars) ++ ']' :: rest)) := by simp
    rw [he]
    exact yields_document_sequence hy
  | @mapping n w members hw h ih =>
    intro rest _
    have hy := yields_objectOf hw
      (runs_keepMember (fun e he => ⟨(h e he).starts, ih e he⟩) []) rest
    have he : '\x7b' :: w ++ commaSeparated (members.map fun e => e.1.chars) ++ ['\x7d'] ++ rest =
        '\x7b' :: (w ++ (commaSeparated ((members.map Prod.fst).map Member.chars) ++
          '\x7d' :: rest)) := by simp [Function.comp_def]
    rw [List.append_nil] at hy
    rw [he]
    simpa [Function.comp_def] using yields_document_mapping hy

theorem Reads.readText_eq {α : Type} {value : Reader α} {p : Padded} {text : String} {v : α}
    (h : Reads value p.text v) (hp : p.chars = text.toList) : readText value text = .ok v := by
  have hn : skipSpace p.after = [] := by
    rw [← List.append_nil p.after, p.blank_after.skipSpace_append]
    rfl
  have hf : Follows p.after := by
    have he : Follows [] := fun c hc => by cases hc
    simpa using p.blank_after.follows_append he
  have ht : skipSpace text.toList = p.text ++ p.after := by
    simpa [hp] using Padded.skipSpace_append h.starts []
  have hy : Yields (value (skipSpace text.toList)) v p.after := by
    rw [ht]
    exact h.yields _ hf
  obtain ⟨_, he⟩ := hy.eq_ok
  simp only [readText, he, bind, Except.bind, hn]
  rfl

theorem SpellsText.readText_eq {α : Type} {value : Reader α} {text : String} {v : α}
    (h : SpellsText n text d)
    (hv : ∀ {s rest : List Char}, Yields (document n s) d rest → Yields (value s) v rest) :
    readText value text = .ok v := by
  obtain ⟨p, hp, hs⟩ := h
  have hr : Reads value p.text v := ⟨hs.starts, fun rest hf => hv (hs.reads.yields rest hf)⟩
  exact hr.readText_eq hp

end Documents

section Compact

def Padded.tight (w : List Char) : Padded := ⟨[], w, [], by simp [Blank], by simp [Blank]⟩

def Member.tight (name : String) (w : List Char) : Member :=
  ⟨name, .tight (quote name), .tight w, spellsString_quote name⟩

mutual

/-- The text of a document without space, if it nests at most so many containers, its keys are
names and its numbers are integers of 64 bits. -/
def compact? : Nat → Document → Option (List Char)
  | _, .null => some ['n', 'u', 'l', 'l']
  | _, .bool b => some (boolChars b)
  | _, .integer i => if -2 ^ 63 ≤ i ∧ i < 2 ^ 64 then some (integerChars i) else none
  | _, .real _ => none
  | _, .text x => some (quote x)
  | 0, .sequence _ | 0, .mapping _ => none
  | n + 1, .sequence items =>
    (compactItems? n items).map fun l => '[' :: commaSeparated (l.map fun e => e.1.chars) ++ [']']
  | n + 1, .mapping entries =>
    (compactEntries? n entries).map fun l =>
      '\x7b' :: commaSeparated (l.map fun e => e.1.chars) ++ ['\x7d']

def compactItems? : Nat → List Document → Option (List (Padded × Document))
  | _, [] => some []
  | n, d :: rest => do return (.tight (← compact? n d), d) :: (← compactItems? n rest)

def compactEntries? :
    Nat → List (Document.Key × Document) → Option (List (Member × Document))
  | _, [] => some []
  | n, (key, d) :: rest => do
    return (.tight (← key.name?) (← compact? n d), d) :: (← compactEntries? n rest)

end

mutual

theorem spells_of_compact? {n : Nat} {d : Document} {w : List Char} (h : compact? n d = some w) :
    Spells n w d := by
  cases d with
  | null =>
    cases h
    exact .null
  | bool b =>
    cases h
    exact .bool b
  | integer i =>
    obtain ⟨hi, rfl⟩ : (-2 ^ 63 ≤ i ∧ i < 2 ^ 64) ∧ integerChars i = w := by
      simpa [compact?] using h
    exact .integer hi.1 hi.2
  | real x => cases h
  | text x =>
    cases h
    exact .text (spellsString_quote x)
  | sequence items =>
    cases n with
    | zero => cases h
    | succ n =>
      obtain ⟨l, hl, rfl⟩ := Option.map_eq_some_iff.1 h
      obtain ⟨hs, rfl⟩ := spells_of_compactItems? hl
      exact .sequence (w := []) (by simp [Blank]) hs
  | mapping entries =>
    cases n with
    | zero => cases h
    | succ n =>
      obtain ⟨l, hl, rfl⟩ := Option.map_eq_some_iff.1 h
      obtain ⟨hs, rfl⟩ := spells_of_compactEntries? hl
      exact .mapping (w := []) (by simp [Blank]) hs

theorem spells_of_compactItems? {n : Nat} {items : List Document} {l : List (Padded × Document)}
    (h : compactItems? n items = some l) :
    (∀ e ∈ l, Spells n e.1.text e.2) ∧ l.map Prod.snd = items := by
  cases items with
  | nil =>
    cases h
    simp
  | cons d rest =>
    obtain ⟨w, hw, k, hk, rfl⟩ : ∃ w, compact? n d = some w ∧ ∃ k, compactItems? n rest = some k ∧
        (.tight w, d) :: k = l := by simpa [compactItems?, Option.bind_eq_some_iff] using h
    obtain ⟨hs, rfl⟩ := spells_of_compactItems? hk
    exact ⟨List.forall_mem_cons.2 ⟨spells_of_compact? hw, hs⟩, rfl⟩

theorem spells_of_compactEntries? {n : Nat} {entries : List (Document.Key × Document)}
    {l : List (Member × Document)} (h : compactEntries? n entries = some l) :
    (∀ e ∈ l, Spells n e.1.value.text e.2) ∧ l.map (fun e => (.name e.1.name, e.2)) = entries := by
  cases entries with
  | nil =>
    cases h
    simp
  | cons e rest =>
    obtain ⟨key, d⟩ := e
    obtain ⟨name, hn, w, hw, k, hk, rfl⟩ : ∃ name, key.name? = some name ∧
        ∃ w, compact? n d = some w ∧ ∃ k, compactEntries? n rest = some k ∧
          (.tight name w, d) :: k = l := by
      simpa [compactEntries?, Option.bind_eq_some_iff] using h
    obtain ⟨hs, rfl⟩ := spells_of_compactEntries? hk
    cases key <;> cases hn
    exact ⟨List.forall_mem_cons.2 ⟨spells_of_compact? hw, hs⟩, rfl⟩

end

theorem spellsText_of_compact? {n : Nat} {d : Document} {text : String}
    (h : (compact? n d).map String.ofList = some text) : SpellsText n text d := by
  obtain ⟨w, hw, rfl⟩ := Option.map_eq_some_iff.1 h
  exact ⟨.tight w, by simp [Padded.chars, Padded.tight], spells_of_compact? hw⟩

end Compact

end Json

end NestedSelection
