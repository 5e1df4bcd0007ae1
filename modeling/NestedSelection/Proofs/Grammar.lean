import NestedSelection.Proofs.Outline

/-! # The grammar of query expressions

A selection is a fields clause and any number of relation clauses, separated by commas. A fields
clause is the wildcard or some fields separated by commas; a relation clause is the name of a
relation and a selection in parentheses. Each production comes with what is read from it. Names
stand for themselves, so a name must not be taken for one of the other signs.

A text is a sentence with a given outline exactly if it is the text of the outline and all names of
the outline are safe.
-/

namespace NestedSelection

/-- A name that can be told from all else in an expression. -/
def SafeName (name : String) : Prop :=
  name ≠ "" ∧ name ≠ "*" ∧ ∀ c ∈ name.toList, c ≠ ',' ∧ c ≠ '(' ∧ c ≠ ')'

instance (name : String) : Decidable (SafeName name) :=
  have := List.decidableBAll (fun c => c ≠ ',' ∧ c ≠ '(' ∧ c ≠ ')') name.toList
  inferInstanceAs (Decidable (name ≠ "" ∧ name ≠ "*" ∧ _))

namespace Grammar

inductive IsMoreFields : List Char → List String → Prop
  | nil : IsMoreFields [] []
  | cons {name : String} {w : List Char} {names : List String} :
      SafeName name → IsMoreFields w names → IsMoreFields (',' :: name.toList ++ w) (name :: names)

inductive IsFieldsClause : List Char → List String → Prop
  | wildcard : IsFieldsClause ['*'] []
  | fields {name : String} {w : List Char} {names : List String} :
      SafeName name → IsMoreFields w names → IsFieldsClause (name.toList ++ w) (name :: names)

mutual

inductive IsSelection : List Char → Outline → Prop
  | intro {w v : List Char} {fields : List String} {relations : List (String × Outline)} :
      IsFieldsClause w fields → IsRelationClauses v relations →
      IsSelection (w ++ v) (.node fields relations)

inductive IsRelationClauses : List Char → List (String × Outline) → Prop
  | nil : IsRelationClauses [] []
  | cons {w v : List Char} {e : String × Outline} {relations : List (String × Outline)} :
      IsRelationClause w e → IsRelationClauses v relations →
      IsRelationClauses (',' :: w ++ v) (e :: relations)

inductive IsRelationClause : List Char → String × Outline → Prop
  | intro {name : String} {w : List Char} {o : Outline} :
      SafeName name → IsSelection w o →
      IsRelationClause (name.toList ++ '(' :: w ++ [')']) (name, o)

end

end Grammar

/-- The text is a selection of the grammar, and the outline is what is read from it. -/
def Sentence (text : String) (o : Outline) : Prop := Grammar.IsSelection text.toList o

namespace Outline

def Safe : Outline → Prop :=
  All fun fields relations => (∀ n ∈ fields, SafeName n) ∧ ∀ r ∈ relations, SafeName r

instance : DecidablePred Safe := fun o => inferInstanceAs (Decidable (All _ o))

end Outline

namespace Grammar

open Outline Selection

theorem isMoreFields_iff {w : List Char} {names : List String} :
    IsMoreFields w names ↔
      (∀ n ∈ names, SafeName n) ∧ w = names.flatMap fun n => ',' :: n.toList := by
  constructor
  · intro h
    induction h with
    | nil => simp
    | cons hn _ ih =>
      obtain ⟨hs, rfl⟩ := ih
      exact ⟨List.forall_mem_cons.2 ⟨hn, hs⟩, by rw [List.flatMap_cons]⟩
  · rintro ⟨h, rfl⟩
    induction names with
    | nil => exact .nil
    | cons name names ih =>
      obtain ⟨hn, hs⟩ := List.forall_mem_cons.1 h
      rw [List.flatMap_cons]
      exact .cons hn (ih hs)

theorem isFieldsClause_iff {w : List Char} {names : List String} :
    IsFieldsClause w names ↔ (∀ n ∈ names, SafeName n) ∧ w = fieldsClause names := by
  cases names with
  | nil =>
    constructor
    · rintro ⟨⟩
      exact ⟨by simp, rfl⟩
    · rintro ⟨-, rfl⟩
      exact .wildcard
  | cons name names =>
    rw [List.forall_mem_cons, fieldsClause]
    constructor
    · rintro ⟨⟩
      rename_i w hn hm
      obtain ⟨hs, rfl⟩ := isMoreFields_iff.1 hm
      exact ⟨⟨hn, hs⟩, rfl⟩
    · rintro ⟨⟨hn, hs⟩, rfl⟩
      exact .fields hn (isMoreFields_iff.2 ⟨hs, rfl⟩)

/-- A derivation spells out its outline. The induction is on the derivation of all three kinds. -/
theorem IsSelection.safe_and_eq {w : List Char} {o : Outline} (h : IsSelection w o) :
    o.Safe ∧ w = o.chars := by
  refine @IsSelection.rec (fun w o _ => o.Safe ∧ w = o.chars)
    (fun v relations _ => (∀ e ∈ relations, SafeName e.1 ∧ e.2.Safe) ∧ v = clauseChars relations)
    (fun v e _ => (SafeName e.1 ∧ e.2.Safe) ∧ v = e.1.toList ++ '(' :: e.2.chars ++ [')'])
    ?intro ?nil ?cons ?clause w o h
  case intro =>
    rintro w v fields relations hf - ⟨hr, rfl⟩
    obtain ⟨hs, rfl⟩ := isFieldsClause_iff.1 hf
    refine ⟨⟨⟨hs, fun r hm => ?_⟩, fun e he => (hr e he).2⟩, rfl⟩
    obtain ⟨e, he, rfl⟩ := List.mem_map.1 hm
    exact (hr e he).1
  case nil => simp [clauseChars]
  case cons =>
    rintro w v ⟨relation, o⟩ relations - - ⟨he, rfl⟩ ⟨hr, rfl⟩
    exact ⟨List.forall_mem_cons.2 ⟨he, hr⟩, by simp [clauseChars]⟩
  case clause =>
    rintro name w o hn - ⟨hs, rfl⟩
    exact ⟨⟨hn, hs⟩, rfl⟩

theorem isSelection_chars {o : Outline} (h : o.Safe) : IsSelection o.chars o := by
  induction o with
  | node fields relations ih =>
    obtain ⟨hf, hn⟩ := h.here
    refine .intro (isFieldsClause_iff.2 ⟨hf, rfl⟩) ?_
    have hc : ∀ l : List (String × Outline), (∀ e ∈ l, SafeName e.1) →
        (∀ e ∈ l, IsSelection e.2.chars e.2) → IsRelationClauses (clauseChars l) l := by
      intro l hl hs
      induction l with
      | nil => exact .nil
      | cons e l ihl =>
        obtain ⟨relation, o⟩ := e
        obtain ⟨he, hl⟩ := List.forall_mem_cons.1 hl
        obtain ⟨ho, hs⟩ := List.forall_mem_cons.1 hs
        have hcons := IsRelationClauses.cons (.intro he ho) (ihl hl hs)
        simpa [clauseChars] using hcons
    exact hc relations (fun e he => hn _ (Entries.mem_keys he)) fun e he => ih e he (h.of_mem he)

end Grammar

open Grammar in
theorem sentence_iff {text : String} {o : Outline} :
    Sentence text o ↔ o.Safe ∧ text.toList = o.chars :=
  ⟨IsSelection.safe_and_eq, fun ⟨hs, ht⟩ => by rw [Sentence, ht]; exact isSelection_chars hs⟩

theorem Selection.sentence_query {s : Selection} (h : s.outline.Safe) :
    Sentence s.query s.outline :=
  sentence_iff.2 ⟨h, s.toList_query⟩

/-- Only selections of its outline have a given sentence as their expression. -/
theorem Sentence.eq_query {text : String} {s : Selection} (h : Sentence text s.outline) :
    text = s.query :=
  String.toList_injective ((sentence_iff.1 h).2.trans s.toList_query.symm)

end NestedSelection
