import Mathlib.Logic.Relation
import NestedSelection.Proofs.Allowed
import NestedSelection.Schema.Sample

/-! # Growing a schema

A schema is extended by more tables, more fields and more foreign keys. A new table can change what
is related to the old ones: foreign keys that led nowhere may come to lead to it, and its own may
lead to any of them. But nothing that was related before is lost, so a selection that passes the
check goes on passing it, with the same expression.
-/

namespace NestedSelection

namespace Table

variable {t : Table}

def targets (t : Table) : List String := t.relationships.filterMap (·.referencedTable)

/-- The table has at least the fields and the targets of another one. -/
structure Extends (t' t : Table) : Prop where
  fields : t.fieldNames ⊆ t'.fieldNames
  targets : t.targets ⊆ t'.targets

theorem extends_withField (t : Table) (name type : String) : (t.withField name type).Extends t := by
  constructor
  · intro n hn
    change n ∈ Entries.keys (Entries.insert t.row.entries name _)
    by_cases hm : name ∈ Entries.keys t.row.entries
    · rwa [Entries.keys_insert_of_mem _ hm]
    · rw [Entries.keys_insert_of_not_mem _ hm]
      exact List.mem_append_left _ hn
  · exact fun _ h => h

theorem extends_withRelationship (t : Table) (r : Relationship) :
    (t.withRelationship r).Extends t := by
  constructor
  · exact fun _ h => h
  · rw [targets, targets, withRelationship, List.filterMap_append]
    exact List.subset_append_left _ _

end Table

namespace Schema

variable {s s' s'' : Schema} {table name : String}

theorem references_iff_targets {a b : String} :
    s.References a b ↔ ∃ t, s.table? a = some t ∧ b ∈ t.targets := by
  simp only [References, Table.targets, List.mem_filterMap]

def Extends (s' s : Schema) : Prop :=
  ∀ name t, s.table? name = some t → ∃ t', s'.table? name = some t' ∧ t'.Extends t

namespace Extends

theorem refl (s : Schema) : s.Extends s := fun _ t ht => ⟨t, ht, fun _ h => h, fun _ h => h⟩

theorem trans (h' : s''.Extends s') (h : s'.Extends s) : s''.Extends s := by
  intro name t ht
  obtain ⟨t', ht', he⟩ := h name t ht
  obtain ⟨t'', ht'', he'⟩ := h' name t' ht'
  refine ⟨t'', ht'', ?_, ?_⟩
  · exact List.Subset.trans he.fields he'.fields
  · exact List.Subset.trans he.targets he'.targets

theorem contains (h : s'.Extends s) (hc : s.contains name = true) : s'.contains name = true := by
  obtain ⟨t, ht⟩ := contains_iff.1 hc
  obtain ⟨t', ht', -⟩ := h name t ht
  exact contains_iff.2 ⟨t', ht'⟩

theorem hasField (h : s'.Extends s) (hf : s.hasField table name = true) :
    s'.hasField table name = true := by
  obtain ⟨t, ht, hn⟩ := hasField_iff.1 hf
  obtain ⟨t', ht', he⟩ := h table t ht
  exact hasField_iff.2 ⟨t', ht', he.fields hn⟩

theorem references (h : s'.Extends s) (hr : s.References table name) :
    s'.References table name := by
  obtain ⟨t, ht, hn⟩ := references_iff_targets.1 hr
  obtain ⟨t', ht', he⟩ := h table t ht
  exact references_iff_targets.2 ⟨t', ht', he.targets hn⟩

theorem linked (h : s'.Extends s) (hl : s.Linked table name) : s'.Linked table name :=
  hl.imp h.references h.references

theorem forward_subset (h : s'.Extends s) (table : String) :
    (s.forward table).names ⊆ (s'.forward table).names := by
  intro name hn
  obtain ⟨hc, hr⟩ := mem_forward_iff.1 hn
  exact mem_forward_iff.2 ⟨h.contains hc, h.references hr⟩

theorem inverse_subset (h : s'.Extends s) (table : String) :
    (s.inverse table).names ⊆ (s'.inverse table).names := by
  intro name hn
  exact mem_inverse_iff.2 (h.references (mem_inverse_iff.1 hn))

theorem available_subset (h : s'.Extends s) (table : String) :
    (s.available table).names ⊆ (s'.available table).names := by
  intro name hn
  obtain ⟨hc, hl⟩ := mem_available_iff.1 hn
  exact mem_available_iff.2 ⟨h.contains hc, h.linked hl⟩

end Extends

inductive Grows (s : Schema) : Schema → Prop
  | table {name : String} {t : Table} : s.contains name = false → Grows s (s.withTable name t)
  | field {name column type : String} {t : Table} : s.table? name = some t →
      Grows s (s.withTable name (t.withField column type))
  | relationship {name : String} {t : Table} {r : Relationship} : s.table? name = some t →
      Grows s (s.withTable name (t.withRelationship r))

/-- A table may be entered if it extends the one of its name, should there be one. -/
theorem extends_withTable {t' : Table} (h : ∀ t, s.table? name = some t → t'.Extends t) :
    (s.withTable name t').Extends s := by
  intro n t ht
  rw [table?_withTable]
  split
  · rename_i hn
    subst hn
    exact ⟨t', rfl, h t ht⟩
  · exact ⟨t, ht, fun _ h => h, fun _ h => h⟩

theorem Grows.extends (h : s.Grows s') : s'.Extends s := by
  cases h with
  | table hc =>
    refine extends_withTable fun t ht => ?_
    rw [contains_iff.2 ⟨t, ht⟩] at hc
    cases hc
  | field ht =>
    refine extends_withTable fun t ht' => ?_
    obtain rfl := Option.some.inj (ht.symm.trans ht')
    exact Table.extends_withField _ _ _
  | relationship ht =>
    refine extends_withTable fun t ht' => ?_
    obtain rfl := Option.some.inj (ht.symm.trans ht')
    exact Table.extends_withRelationship _ _

theorem extends_of_grows (h : Relation.ReflTransGen Grows s s') : s'.Extends s := by
  induction h with
  | refl => exact .refl s
  | tail _ hg ih => exact hg.extends.trans ih

end Schema

namespace Outline

/-- More is allowed in a larger schema, at every node. -/
theorem Allowed.mono {s s' : Schema} {table : String} {o : Outline} (h : s'.Extends s)
    (ha : o.Allowed s table) : o.Allowed s' table := by
  induction ha with
  | node hf hl _ ih =>
    refine .node (fun n hn => h.hasField (hf n hn)) (fun e he => ?_) ih
    obtain ⟨hc, hl⟩ := hl e he
    exact ⟨h.contains hc, h.linked hl⟩

end Outline

namespace Selection

open Schema

variable {s s' : Schema} {table : String} {c : Selection}

theorem check_ok_of_extends (h : s'.Extends s) (hc : c.check s table = .ok ()) :
    c.check s' table = .ok () := by
  obtain ⟨hk, ha⟩ := check_eq_ok_iff.1 hc
  exact check_eq_ok_iff.2 ⟨h.contains hk, ha.mono h⟩

theorem compile_strict_of_check_ok (h : c.check s table = .ok ()) :
    c.compile .strict s table = .ok c.query :=
  compile_strict_eq_ok_iff.2 ⟨check_eq_ok_iff.1 h, rfl⟩

/--
Growing a schema never invalidates a selection. Whatever tables, fields and foreign keys are added
step by step, the outcome extends the schema; and in a schema that extends another one every table
is related to all that it was related to before, and a selection that passed the check passes it
still and is compiled to the same expression.
-/
theorem check_survives_growth :
    (∀ s s' : Schema, Relation.ReflTransGen Grows s s' → s'.Extends s) ∧
    ∀ s s' : Schema, s'.Extends s →
      (∀ table, (s.forward table).names ⊆ (s'.forward table).names ∧
        (s.inverse table).names ⊆ (s'.inverse table).names ∧
        (s.available table).names ⊆ (s'.available table).names) ∧
      ∀ table (c : Selection), c.check s table = .ok () → c.check s' table = .ok () ∧
        c.compile .strict s table = .ok c.query ∧ c.compile .strict s' table = .ok c.query := by
  refine ⟨fun s s' => extends_of_grows, fun s s' h => ⟨fun table => ?_, fun table c hc => ?_⟩⟩
  · exact ⟨h.forward_subset table, h.inverse_subset table, h.available_subset table⟩
  · have hc' := check_ok_of_extends h hc
    exact ⟨hc', compile_strict_of_check_ok hc, compile_strict_of_check_ok hc'⟩

/-- Posts that can answer each other, by users of whom the schema does not know yet. -/
def earlyPosts : Schema :=
  ({} : Schema).withTable "Post" (sampleTable ["id"] ["User", "Post"])

def titledPosts : Schema :=
  (earlyPosts.withTable "User" (sampleTable ["id"] [])).withTable "Post"
    ((sampleTable ["id"] ["User", "Post"]).withField "title" "string")

def answersToPosts : Selection := (all.field "id").nest "Post" all

theorem check_survives_titles :
    (Relation.ReflTransGen Grows earlyPosts titledPosts ∧
      answersToPosts.check earlyPosts "Post" = .ok ()) ∧
    titledPosts.Extends earlyPosts ∧
    ((earlyPosts.available "Post").names = ["Post"] ∧
      (titledPosts.available "Post").names = ["Post", "User"] ∧
      (earlyPosts.available "Post").names ⊆ (titledPosts.available "Post").names) ∧
    answersToPosts.check titledPosts "Post" = .ok () ∧
      answersToPosts.compile .strict titledPosts "Post" = .ok answersToPosts.query := by
  have hg : Relation.ReflTransGen Grows earlyPosts titledPosts :=
    .tail (.tail .refl (.table (by decide))) (.field rfl)
  have hc : answersToPosts.check earlyPosts "Post" = .ok () := by decide
  obtain ⟨he, hs⟩ := check_survives_growth
  obtain ⟨hr, hv⟩ := hs _ _ (he _ _ hg)
  obtain ⟨hc', -, ht⟩ := hv "Post" answersToPosts hc
  exact ⟨⟨hg, hc⟩, he _ _ hg, ⟨by decide, by decide, (hr "Post").2.2⟩, hc', ht⟩

end Selection

end NestedSelection
