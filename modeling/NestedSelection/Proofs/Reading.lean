import NestedSelection.Proofs.Grammar
import NestedSelection.Selection.Check

/-! # Reading query expressions

A reader of the grammar. A text is split into names and signs, and these are gone through once with
a stack of the nodes around the current one. What was read so far is always the text of the stack
and the current node, so nothing but sentences is read; and a node is read back from its text
whatever follows it, so every sentence is read. Hence an expression of safe names says exactly one
thing.
-/

namespace NestedSelection

namespace Reading

inductive Lexeme where
  | comma
  | opening
  | closing
  | name (s : List Char)

def Lexeme.chars : Lexeme → List Char
  | .comma => [',']
  | .opening => ['(']
  | .closing => [')']
  | .name s => s

def sign? (c : Char) : Option Lexeme :=
  if c = ',' then some .comma
  else if c = '(' then some .opening
  else if c = ')' then some .closing
  else none

/-- Puts a character in front of lexemes; it becomes part of a name that they start with. -/
def join (c : Char) : List Lexeme → List Lexeme
  | .name s :: rest => .name (c :: s) :: rest
  | rest => .name [c] :: rest

def lexemes : List Char → List Lexeme
  | [] => []
  | c :: rest =>
    match sign? c with
    | some l => l :: lexemes rest
    | none => join c (lexemes rest)

def firstClause (s : List Char) : Outline :=
  if s = ['*'] then .node [] [] else .node [String.ofList s] []

def addRelation (o : Outline) (relation : String) (child : Outline) : Outline :=
  .node o.fields (o.relations ++ [(relation, child)])

/--
Reads on behind a clause of a node. The stack holds the nodes around it, the innermost first, each
with the name of the relation that is being read.
-/
def resume : Outline → List (Outline × String) → List Lexeme → Option Outline
  | o, [], [] => some o
  | o, (outer, relation) :: stack, .closing :: rest =>
    resume (addRelation outer relation o) stack rest
  | o, stack, .comma :: .name relation :: .opening :: rest =>
    if relation = ['*'] then none
    else
      match rest with
      | .name s :: rest => resume (firstClause s) ((o, String.ofList relation) :: stack) rest
      | _ => none
  | .node (field :: fields) [], stack, .comma :: .name s :: rest =>
    if s = ['*'] then none
    else resume (.node (field :: fields ++ [String.ofList s]) []) stack rest
  | _, _, _ => none

def start (stack : List (Outline × String)) (ls : List Lexeme) : Option Outline :=
  match ls with
  | .name s :: rest => resume (firstClause s) stack rest
  | _ => none

end Reading

/-- The outline that a query expression says, if it follows the grammar from end to end. -/
def Outline.read (text : String) : Option Outline := Reading.start [] (Reading.lexemes text.toList)

namespace Reading

open Outline Selection

section Lexemes

theorem sign?_eq_none_iff {c : Char} : sign? c = none ↔ c ≠ ',' ∧ c ≠ '(' ∧ c ≠ ')' := by
  unfold sign?
  split_ifs <;> simp_all

theorem chars_of_sign? {c : Char} {l : Lexeme} (h : sign? c = some l) :
    l.chars = [c] ∧ ∀ s, l ≠ .name s := by
  unfold sign? at h
  split_ifs at h with h₁ h₂ h₃ <;> cases h <;> simp_all [Lexeme.chars]

def Plain (s : List Char) : Prop := s ≠ [] ∧ ∀ c ∈ s, sign? c = none

theorem safeName_ofList {s : List Char} (h : Plain s) (hs : s ≠ ['*']) :
    SafeName (String.ofList s) := by
  refine ⟨fun he => h.1 ?_, fun he => hs ?_, fun c hc => ?_⟩
  · simpa using congrArg String.toList he
  · simpa using congrArg String.toList he
  · rw [String.toList_ofList] at hc
    exact sign?_eq_none_iff.1 (h.2 c hc)

theorem plain_toList {name : String} (h : SafeName name) :
    Plain name.toList ∧ name.toList ≠ ['*'] := by
  obtain ⟨hn, hw, hc⟩ := h
  refine ⟨⟨fun he => hn ?_, fun c hm => sign?_eq_none_iff.2 (hc c hm)⟩, fun he => hw ?_⟩
  · exact String.toList_injective he
  · exact String.toList_injective he

theorem flatMap_chars_join (c : Char) (ls : List Lexeme) :
    (join c ls).flatMap Lexeme.chars = c :: ls.flatMap Lexeme.chars := by
  unfold join
  split <;> simp [Lexeme.chars]

theorem flatMap_chars_lexemes (s : List Char) : (lexemes s).flatMap Lexeme.chars = s := by
  induction s with
  | nil => rfl
  | cons c s ih =>
    rw [lexemes]
    split
    · rename_i l hl
      rw [List.flatMap_cons, (chars_of_sign? hl).1, ih, List.singleton_append]
    · rw [flatMap_chars_join, ih]

theorem plain_of_mem_lexemes {t s : List Char} (h : .name s ∈ lexemes t) : Plain s := by
  induction t generalizing s with
  | nil => cases h
  | cons c t ih =>
    rw [lexemes] at h
    split at h
    · rename_i l hl
      rcases List.mem_cons.1 h with h | h
      · exact absurd h.symm ((chars_of_sign? hl).2 s)
      · exact ih h
    · rename_i hc
      unfold join at h
      split at h
      · rename_i s' rest hr
        rcases List.mem_cons.1 h with h | h
        · cases h
          have hp : Plain s' := ih (by rw [hr]; exact List.mem_cons_self)
          exact ⟨List.cons_ne_nil _ _, List.forall_mem_cons.2 ⟨hc, hp.2⟩⟩
        · exact ih (by rw [hr]; exact List.mem_cons_of_mem _ h)
      · rcases List.mem_cons.1 h with h | h
        · cases h
          exact ⟨List.cons_ne_nil _ _, by simpa using hc⟩
        · exact ih h

theorem lexemes_sign {c : Char} {l : Lexeme} (h : sign? c = some l) (rest : List Char) :
    lexemes (c :: rest) = l :: lexemes rest := by
  rw [lexemes, h]

theorem lexemes_name {s rest : List Char} (hs : Plain s)
    (hr : ∀ c ∈ rest.head?, (sign? c).isSome) : lexemes (s ++ rest) = .name s :: lexemes rest := by
  obtain ⟨hn, hc⟩ := hs
  induction s with
  | nil => exact absurd rfl hn
  | cons c s ih =>
    obtain ⟨hc, hs⟩ := List.forall_mem_cons.1 hc
    rw [List.cons_append, lexemes, hc]
    cases s with
    | nil =>
      cases rest with
      | nil => rfl
      | cons d rest =>
        obtain ⟨l, hl⟩ := Option.isSome_iff_exists.1 (hr d rfl)
        rw [List.nil_append, lexemes_sign hl]
        cases l with
        | name s => exact absurd rfl ((chars_of_sign? hl).2 s)
        | _ => rfl
    | cons d s => rw [ih (List.cons_ne_nil _ _) hs]; rfl

end Lexemes

section Soundness

/-- The text around the current node, up to where it begins. -/
def context : List (Outline × String) → List Char
  | [] => []
  | (outer, relation) :: stack => context stack ++ outer.chars ++ ',' :: relation.toList ++ ['(']

theorem chars_addRelation (o : Outline) (relation : String) (child : Outline) :
    (addRelation o relation child).chars =
      o.chars ++ ',' :: relation.toList ++ '(' :: child.chars ++ [')'] := by
  obtain ⟨fields, relations⟩ := o
  simp [addRelation, Outline.chars, Outline.fields, Outline.relations, clauseChars_append,
    clauseChars]

theorem chars_addField (field name : String) (fields : List String) :
    (Outline.node (field :: fields ++ [name]) []).chars =
      (Outline.node (field :: fields) []).chars ++ ',' :: name.toList := by
  simp [Outline.chars, clauseChars, fieldsClause]

theorem chars_firstClause (s : List Char) : (firstClause s).chars = s := by
  unfold firstClause
  split
  · rename_i h
    rw [h]
    rfl
  · simp [Outline.chars, clauseChars, fieldsClause]

theorem safe_addRelation {o child : Outline} {relation : String} (ho : o.Safe)
    (hr : SafeName relation) (hc : child.Safe) : (addRelation o relation child).Safe := by
  obtain ⟨hf, hn⟩ := ho.here
  refine ⟨⟨hf, ?_⟩, ?_⟩
  · intro r hm
    simp only [addRelation, Outline.relations, Entries.keys, List.map_append, List.map_cons,
      List.map_nil, List.mem_append, List.mem_singleton] at hm
    rcases hm with hm | rfl
    · exact hn r hm
    · exact hr
  · intro e hm
    simp only [addRelation, Outline.relations, List.mem_append, List.mem_singleton] at hm
    rcases hm with hm | rfl
    · exact ho.of_mem hm
    · exact hc

theorem safe_node {fields : List String} (h : ∀ n ∈ fields, SafeName n) :
    (Outline.node fields []).Safe :=
  ⟨⟨h, fun _ hr => by cases hr⟩, fun _ he => by cases he⟩

theorem safe_firstClause {s : List Char} (h : Plain s) : (firstClause s).Safe := by
  unfold firstClause
  split
  · exact safe_node (by simp)
  · rename_i hs
    exact safe_node (by simpa using safeName_ofList h hs)

/--
Whatever is read has the text of the stack, the current node and the lexemes to come. Along the way
all nodes stay safe.
-/
theorem resume_sound {o r : Outline} {stack : List (Outline × String)} {ls : List Lexeme}
    (hp : ∀ s, .name s ∈ ls → Plain s) (ho : o.Safe)
    (hs : ∀ f ∈ stack, f.1.Safe ∧ SafeName f.2) (h : resume o stack ls = some r) :
    r.Safe ∧ r.chars = context stack ++ o.chars ++ ls.flatMap Lexeme.chars := by
  fun_induction resume o stack ls with
  | case1 o =>
    cases h
    exact ⟨ho, by simp [context]⟩
  | case2 o outer relation stack rest ih =>
    obtain ⟨⟨hu, hn⟩, hs⟩ := List.forall_mem_cons.1 hs
    obtain ⟨hr, ht⟩ := ih (fun s hm => hp s (List.mem_cons_of_mem _ hm))
      (safe_addRelation hu hn ho) hs h
    exact ⟨hr, by simp [ht, chars_addRelation, context, Lexeme.chars]⟩
  | case4 o stack relation hn s rest ih =>
    have hrel : SafeName (String.ofList relation) := safeName_ofList (hp _ (by simp)) hn
    obtain ⟨hr, ht⟩ := ih (fun s hm => hp s (by simp [hm])) (safe_firstClause (hp _ (by simp)))
      (List.forall_mem_cons.2 ⟨⟨ho, hrel⟩, hs⟩) h
    exact ⟨hr, by simp [ht, chars_firstClause, context, Lexeme.chars]⟩
  | case7 field fields stack s rest hne hn ih =>
    have hf := List.forall_mem_append.2 ⟨ho.here.1,
      List.forall_mem_singleton.2 (safeName_ofList (hp s (by simp)) hn)⟩
    obtain ⟨hr, ht⟩ := ih (fun s hm => hp s (by simp [hm])) (safe_node hf) hs h
    rw [ht, chars_addField]
    exact ⟨hr, by simp [Lexeme.chars]⟩
  | _ => cases h

end Soundness

section Completeness

variable {o : Outline} {stack : List (Outline × String)} {rest : List Char}

def Ended (rest : List Char) : Prop := ∀ c ∈ rest.head?, c = ',' ∨ c = ')'

theorem Ended.sign (h : Ended rest) : ∀ c ∈ rest.head?, (sign? c).isSome := by
  intro c hc
  rcases h c hc with rfl | rfl <;> rfl

theorem ended_cons {c : Char} (h : c = ',' ∨ c = ')') : Ended (c :: rest) := by
  intro d hd
  cases hd
  exact h

theorem ended_append {w : List Char} (hw : Ended w) (h : Ended rest) : Ended (w ++ rest) := by
  cases w with
  | nil => exact h
  | cons c w => exact fun d hd => hw d hd

theorem ended_clauseChars (relations : List (String × Outline)) :
    Ended (clauseChars relations) := by
  rcases relations with _ | ⟨e, relations⟩
  · exact fun c hc => by cases hc
  · exact ended_cons (.inl rfl)

theorem ended_moreFields (names : List String) :
    Ended (names.flatMap fun n => ',' :: n.toList) := by
  rcases names with _ | ⟨name, names⟩
  · exact fun c hc => by cases hc
  · exact ended_cons (.inl rfl)

theorem lexemes_ended_ne (h : Ended rest) (ls : List Lexeme) : lexemes rest ≠ .opening :: ls := by
  rcases rest with _ | ⟨c, rest⟩
  · exact List.cons_ne_nil _ _ ∘ Eq.symm
  · rcases h c rfl with rfl | rfl
    · rw [lexemes_sign (l := .comma) rfl]
      exact fun he => by cases he
    · rw [lexemes_sign (l := .closing) rfl]
      exact fun he => by cases he

theorem resume_field {field : String} {fields : List String} {name : String} (hn : SafeName name)
    (hr : Ended rest) :
    resume (.node (field :: fields) []) stack (lexemes (',' :: name.toList ++ rest)) =
      resume (.node (field :: fields ++ [name]) []) stack (lexemes rest) := by
  obtain ⟨hp, hw⟩ := plain_toList hn
  rw [List.cons_append, lexemes_sign (l := .comma) rfl, lexemes_name hp hr.sign, resume, if_neg hw,
    String.ofList_toList]
  exact lexemes_ended_ne hr

theorem resume_fields {field : String} {fields names : List String}
    (hn : ∀ n ∈ names, SafeName n) (hr : Ended rest) :
    resume (.node (field :: fields) []) stack
        (lexemes ((names.flatMap fun n => ',' :: n.toList) ++ rest)) =
      resume (.node (field :: fields ++ names) []) stack (lexemes rest) := by
  induction names generalizing fields with
  | nil => simp
  | cons name names ih =>
    obtain ⟨hn, hs⟩ := List.forall_mem_cons.1 hn
    rw [List.flatMap_cons, List.append_assoc,
      resume_field hn (ended_append (ended_moreFields names) hr), List.cons_append, ih hs]
    simp

theorem resume_relation {relation : String} (hn : SafeName relation) :
    resume o stack (lexemes (',' :: relation.toList ++ '(' :: rest)) =
      start ((o, relation) :: stack) (lexemes rest) := by
  obtain ⟨hp, hw⟩ := plain_toList hn
  have hl : lexemes (relation.toList ++ '(' :: rest) =
      .name relation.toList :: .opening :: lexemes rest := by
    rw [lexemes_name hp (fun c hc => by cases hc; rfl), lexemes_sign (l := .opening) rfl]
  rw [List.cons_append, lexemes_sign (l := .comma) rfl, hl]
  cases lexemes rest with
  | nil => simp [resume, start]
  | cons l ls => cases l <;> simp [resume, start, hw]

theorem resume_closing {outer : Outline} {relation : String} :
    resume o ((outer, relation) :: stack) (lexemes (')' :: rest)) =
      resume (addRelation outer relation o) stack (lexemes rest) := by
  rw [lexemes_sign (l := .closing) rfl, resume]

/-- A node is read back from its text, whatever ends it. -/
def ReadsBack (o : Outline) : Prop :=
  ∀ stack rest, Ended rest → start stack (lexemes (o.chars ++ rest)) = resume o stack (lexemes rest)

theorem resume_clauses {relations : List (String × Outline)} {o : Outline}
    (hn : ∀ e ∈ relations, SafeName e.1) (hb : ∀ e ∈ relations, ReadsBack e.2) :
    resume o stack (lexemes (clauseChars relations ++ rest)) =
      resume (.node o.fields (o.relations ++ relations)) stack (lexemes rest) := by
  induction relations generalizing o with
  | nil =>
    obtain ⟨fields, relations⟩ := o
    rw [List.append_nil]
    rfl
  | cons e relations ih =>
    obtain ⟨relation, child⟩ := e
    obtain ⟨hn, hns⟩ := List.forall_mem_cons.1 hn
    obtain ⟨hb, hbs⟩ := List.forall_mem_cons.1 hb
    have ht : clauseChars ((relation, child) :: relations) ++ rest = ',' :: relation.toList ++
        '(' :: (child.chars ++ ')' :: (clauseChars relations ++ rest)) := by
      simp [clauseChars]
    rw [ht, resume_relation hn, hb _ _ (ended_cons (.inr rfl)), resume_closing, ih hns hbs]
    simp [addRelation, Outline.fields, Outline.relations]

theorem start_fieldsClause {fields : List String} (hn : ∀ n ∈ fields, SafeName n)
    (hr : Ended rest) :
    start stack (lexemes (fieldsClause fields ++ rest)) =
      resume (.node fields []) stack (lexemes rest) := by
  cases fields with
  | nil =>
    have hp : Plain ['*'] := ⟨List.cons_ne_nil _ _, by simp [sign?]⟩
    rw [fieldsClause, lexemes_name hp hr.sign]
    rfl
  | cons field fields =>
    obtain ⟨hn, hs⟩ := List.forall_mem_cons.1 hn
    obtain ⟨hp, hw⟩ := plain_toList hn
    have he := ended_append (ended_moreFields fields) hr
    rw [fieldsClause, List.append_assoc, lexemes_name hp he.sign, start, firstClause, if_neg hw,
      String.ofList_toList, resume_fields hs hr]
    rfl

theorem readsBack {o : Outline} (h : o.Safe) : ReadsBack o := by
  induction o with
  | node fields relations ih =>
    intro stack rest hr
    obtain ⟨hf, hn⟩ : (∀ n ∈ fields, SafeName n) ∧ ∀ r ∈ Entries.keys relations, SafeName r :=
      h.here
    rw [Outline.chars, List.append_assoc,
      start_fieldsClause hf (ended_append (ended_clauseChars relations) hr),
      resume_clauses (fun e he => hn _ (Entries.mem_keys he)) fun e he =>
        ih e he (h.of_mem he)]
    rfl

end Completeness

end Reading

namespace Outline

open Reading

/-- The reader reads the sentences of the grammar and nothing else. -/
theorem read_eq_some_iff {text : String} {o : Outline} : read text = some o ↔ Sentence text o := by
  rw [sentence_iff]
  constructor
  · intro h
    unfold read start at h
    split at h
    · rename_i s rest hl
      have hp : ∀ s', .name s' ∈ Lexeme.name s :: rest → Plain s' := by
        rw [← hl]
        exact fun _ => plain_of_mem_lexemes
      obtain ⟨hs, ht⟩ := resume_sound (fun s hm => hp s (List.mem_cons_of_mem _ hm))
        (safe_firstClause (hp s List.mem_cons_self)) (by simp) h
      refine ⟨hs, ?_⟩
      rw [ht, chars_firstClause, ← flatMap_chars_lexemes text.toList, hl]
      rfl
    · cases h
  · rintro ⟨hs, ht⟩
    have hb := readsBack hs [] [] (fun c hc => by cases hc)
    rw [List.append_nil] at hb
    rw [read, ht, hb]
    rfl

example : read "a,R(x,S(*))" =
    some (.node ["a"] [("R", .node ["x"] [("S", .node [] [])])]) := by cbv

end Outline

namespace Sentence

theorem unique {text : String} {o p : Outline} (ho : Sentence text o) (hp : Sentence text p) :
    o = p :=
  Option.some.inj ((Outline.read_eq_some_iff.2 ho).symm.trans (Outline.read_eq_some_iff.2 hp))

end Sentence

namespace Selection

/-- Selections with safe names have the same expression only if they say the same. -/
theorem query_eq_iff_outline_eq {s t : Selection} (hs : s.outline.Safe) (ht : t.outline.Safe) :
    s.query = t.query ↔ s.outline = t.outline := by
  constructor
  · intro h
    exact (sentence_query hs).unique (h ▸ sentence_query ht)
  · intro h
    exact query_eq_of_outline_eq h

/--
The grammar has a reader that gives back, from the whole of the expression of any selection with
safe names, exactly what the selection says. So two such selections have the same expression if and
only if they say the same, for whatever tables they are compiled.
-/
theorem query_uniquely_decodable :
    (∀ text o, Outline.read text = some o ↔ Sentence text o) ∧
    (∀ s : Selection, s.outline.Safe → Outline.read s.query = some s.outline) ∧
    ∀ s t : Selection, s.outline.Safe → t.outline.Safe →
      (s.query = t.query ↔ s.outline = t.outline) ∧
      ∀ schema tableS tableT, s.compile .permissive schema tableS =
        t.compile .permissive schema tableT ↔ s.outline = t.outline := by
  refine ⟨fun _ _ => Outline.read_eq_some_iff, fun s hs => ?_, fun s t hs ht => ⟨?_, ?_⟩⟩
  · exact Outline.read_eq_some_iff.2 (sentence_query hs)
  · exact query_eq_iff_outline_eq hs ht
  · intro schema tableS tableT
    rw [compile, compile, Except.ok.injEq]
    exact query_eq_iff_outline_eq hs ht

def threeDeep : Selection :=
  ((all.setField "b" false).field "a").nest "R" ((all.field "x").nest "S" (all.field "y"))

theorem query_threeDeep_decodes : threeDeep.outline.Safe ∧
    Outline.read threeDeep.query = some threeDeep.outline ∧
    (threeDeep.query = (threeDeep.setField "c" false).query ↔
      threeDeep.outline = (threeDeep.setField "c" false).outline) := by
  have h : threeDeep.outline.Safe := by decide
  have h' : (threeDeep.setField "c" false).outline.Safe := by decide
  obtain ⟨-, hread, heq⟩ := query_uniquely_decodable
  exact ⟨h, hread _ h, (heq _ _ h h').1⟩

end Selection

end NestedSelection
