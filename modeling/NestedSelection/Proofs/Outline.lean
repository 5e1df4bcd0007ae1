import NestedSelection.Proofs.Tree

/-! # Outlines

What a query expression says: per node the fields it lists, none where it has the wildcard, and the
relations it nests, in order. The outline of a selection forgets the fields that are not wanted and
whether an empty part is there at all; its expression depends on nothing else.
-/

namespace NestedSelection

inductive Outline where
  | node (fields : List String) (relations : List (String × Outline))

namespace Outline

def fields : Outline → List String
  | .node fields _ => fields

def relations : Outline → List (String × Outline)
  | .node _ relations => relations

/-- What holds of a node if it holds of all outlines nested in it, holds of all outlines. -/
@[elab_as_elim, induction_eliminator]
theorem induction {P : Outline → Prop}
    (node : ∀ fields relations, (∀ e ∈ relations, P e.2) → P (.node fields relations))
    (o : Outline) : P o :=
  @Outline.rec P (fun relations => ∀ e ∈ relations, P e.2) (fun e => P e.2) node (by simp)
    (fun e relations he hr x hx => by
      rcases List.mem_cons.1 hx with rfl | hx
      · exact he
      · exact hr x hx)
    (fun _ _ h => h) o

mutual

def chars : Outline → List Char
  | .node fields relations => Selection.fieldsClause fields ++ clauseChars relations

def clauseChars : List (String × Outline) → List Char
  | [] => []
  | (relation, o) :: rest => ',' :: relation.toList ++ '(' :: chars o ++ ')' :: clauseChars rest

end

theorem clauseChars_append (l r : List (String × Outline)) :
    clauseChars (l ++ r) = clauseChars l ++ clauseChars r := by
  induction l with
  | nil => rfl
  | cons e l ih =>
    obtain ⟨relation, o⟩ := e
    simp [clauseChars, ih]

inductive All (p : List String → List String → Prop) : Outline → Prop
  | node {o : Outline} : p o.fields (Entries.keys o.relations) → (∀ e ∈ o.relations, All p e.2) →
      All p o

namespace All

variable {p q : List String → List String → Prop} {o : Outline}

theorem here (h : All p o) : p o.fields (Entries.keys o.relations) := by
  obtain ⟨hp, -⟩ := h
  exact hp

theorem of_mem (h : All p o) {e : String × Outline} (he : e ∈ o.relations) : All p e.2 := by
  obtain ⟨-, hr⟩ := h
  exact hr e he

variable [∀ fields relations, Decidable (p fields relations)]

mutual

def decide : (o : Outline) → Decidable (All p o)
  | .node fields relations =>
    match inferInstanceAs (Decidable (p fields (Entries.keys relations))), decideAt relations with
    | isTrue hp, isTrue hr => isTrue ⟨hp, hr⟩
    | isFalse hp, _ => isFalse fun h => hp h.here
    | _, isFalse hr => isFalse fun h => hr fun _ he => h.of_mem he

def decideAt : (relations : List (String × Outline)) → Decidable (∀ e ∈ relations, All p e.2)
  | [] => isTrue (by simp)
  | (_, o) :: rest =>
    match decide o, decideAt rest with
    | isTrue ho, isTrue hr => isTrue (List.forall_mem_cons.2 ⟨ho, hr⟩)
    | isFalse ho, _ => isFalse fun h => ho (List.forall_mem_cons.1 h).1
    | _, isFalse hr => isFalse fun h => hr (List.forall_mem_cons.1 h).2

end

instance : DecidablePred (All p) := decide

end All

/-- No field and no relation is named twice in one place. -/
def Distinct : Outline → Prop := All fun fields relations => fields.Nodup ∧ relations.Nodup

instance : DecidablePred Distinct := fun o => inferInstanceAs (Decidable (All _ o))

mutual

def selection : Outline → Selection
  | .node fields relations => (Selection.all.fieldAll fields).nestAll (selections relations)

def selections : List (String × Outline) → List (String × Selection)
  | [] => []
  | (relation, o) :: rest => (relation, selection o) :: selections rest

end

theorem selections_eq_map (relations : List (String × Outline)) :
    selections relations = relations.map fun e => (e.1, e.2.selection) := by
  induction relations with
  | nil => rfl
  | cons e relations ih => rw [selections, ih, List.map_cons]

end Outline

namespace Selection

mutual

def outline : Selection → Outline
  | .node select nested => .node (node select none).selectedFields (nestedOutlines nested)

def nestedOutlines : Option (List (String × Selection)) → List (String × Outline)
  | none => []
  | some children => outlines children

def outlines : List (String × Selection) → List (String × Outline)
  | [] => []
  | (relation, child) :: rest => (relation, outline child) :: outlines rest

end

theorem outlines_eq_map (children : List (String × Selection)) :
    outlines children = children.map fun e => (e.1, e.2.outline) := by
  induction children with
  | nil => rfl
  | cons e children ih => rw [outlines, ih, List.map_cons]

theorem outline_eq (s : Selection) :
    s.outline = .node s.selectedFields (s.includes.map fun e => (e.1, e.2.outline)) := by
  obtain ⟨select, _ | children⟩ := s
  · rfl
  · exact congrArg _ (outlines_eq_map children)

@[simp] theorem fields_outline (s : Selection) : s.outline.fields = s.selectedFields := by
  rw [outline_eq, Outline.fields]

@[simp] theorem relations_outline (s : Selection) :
    s.outline.relations = s.includes.map fun e => (e.1, e.2.outline) := by
  rw [outline_eq, Outline.relations]

theorem keys_relations_outline (s : Selection) :
    Entries.keys s.outline.relations = Entries.keys s.includes := by
  simp [Entries.keys, Function.comp_def]

theorem queryChars_eq_chars (s : Selection) : s.queryChars = s.outline.chars := by
  induction s with
  | node select nested ih =>
    have h : ∀ children : List (String × Selection),
        (∀ e ∈ children, e.2.queryChars = e.2.outline.chars) →
        relationClauses children = Outline.clauseChars (outlines children) := by
      intro children hc
      induction children with
      | nil => rfl
      | cons e children ihc =>
        rw [relationClauses, outlines, Outline.clauseChars, hc e List.mem_cons_self,
          ihc fun x hx => hc x (List.mem_cons_of_mem _ hx)]
    rw [queryChars_eq, h _ ih, outlines_eq_map, outline_eq, Outline.chars]

theorem toList_query (s : Selection) : s.query.toList = s.outline.chars := by
  rw [query, String.toList_ofList, queryChars_eq_chars]

theorem query_eq_of_outline_eq {s t : Selection} (h : s.outline = t.outline) :
    s.query = t.query := by
  rw [query, query, queryChars_eq_chars, queryChars_eq_chars, h]

/-- Fields are flagged once, so only relations could be named twice. -/
theorem WellFormed.distinct_outline {s : Selection} (h : s.WellFormed) : s.outline.Distinct := by
  induction h with
  | @node s hk _ ih =>
    refine ⟨⟨?_, ?_⟩, ?_⟩
    · rw [fields_outline]
      exact s.nodup_selectedFields
    · rwa [keys_relations_outline]
    · rwa [relations_outline, List.forall_mem_map]

end Selection

namespace Outline

theorem wellFormed_selection (o : Outline) : o.selection.WellFormed := by
  induction o with
  | node fields relations ih =>
    refine (Selection.WellFormed.all.fieldAll fields).nestAll ?_
    rwa [selections_eq_map, List.forall_mem_map]

theorem outline_selection {o : Outline} (h : o.Distinct) : o.selection.outline = o := by
  induction h with
  | @node o hp _ ih =>
    obtain ⟨fields, relations⟩ := o
    obtain ⟨hf, hr⟩ : fields.Nodup ∧ (Entries.keys relations).Nodup := hp
    have hk : Entries.keys (selections relations) = Entries.keys relations := by
      simp [selections_eq_map, Entries.keys, Function.comp_def]
    rw [Selection.outline_eq, selection,
      Selection.selectedFields_congr (Selection.flags_nestAll _ _),
      Selection.selectedFields_fieldAll_all hf, Selection.includes_nestAll,
      Selection.includes_fieldAll]
    have hi : (selections relations).foldl (fun m e => Entries.insert m e.1 e.2)
        Selection.all.includes = selections relations :=
      Entries.ofList_eq_self (by rwa [hk])
    rw [hi, selections_eq_map, List.map_map]
    exact congrArg _ ((List.map_congr_left fun e he => by simp [ih e he]).trans
      (List.map_id _))

end Outline

end NestedSelection
