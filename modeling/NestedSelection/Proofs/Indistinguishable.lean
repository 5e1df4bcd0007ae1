import Mathlib.Data.List.Sort
import NestedSelection.Code.Item
import NestedSelection.Proofs.Comparison
import NestedSelection.Proofs.TypedTables

/-! # What of a schema matters

Of a schema only the names of its tables and of their fields matter, and which of its tables are
referenced from which. Schemas that have these in common relate the same tables and give the same
answer to every selection, errors included. What values rows hold, what else is known of a foreign
key, how often and in which order anything is said, and foreign keys that lead nowhere make no
difference. Generated code moreover follows the order of the tables and of their fields.
-/

namespace NestedSelection

theorem NameSet.eq_of_mem_iff {s t : NameSet} (h : ∀ name, name ∈ s.names ↔ name ∈ t.names) :
    s = t := by
  obtain ⟨l, hl⟩ := s
  obtain ⟨r, hr⟩ := t
  obtain rfl : l = r := hl.eq_of_mem_iff hr h
  rfl

/-- What a schema says of one of its tables, or what a module says of it. -/
structure TableSummary where
  name : String
  columns : List String
  related : List String
deriving DecidableEq

namespace Schema

variable {s s' : Schema} {table name : String}

/--
The same tables, with the same fields in each, and among them the same references. Foreign keys to
names that are no table of the schema may differ.
-/
structure SameRelations (s s' : Schema) : Prop where
  tables : ∀ name, s.contains name = s'.contains name
  fields : ∀ table name, s.hasField table name = s'.hasField table name
  targets : ∀ table name, s.contains name = true →
    (s.References table name ↔ s'.References table name)

def columns (s : Schema) : Entries (List String) := s.tables.entries.mapValues Table.fieldNames

theorem keys_columns (s : Schema) : Entries.keys s.columns = s.tableNames :=
  Entries.keys_mapValues _ _

def summary (s : Schema) : List TableSummary :=
  s.tables.entries.map fun e => ⟨e.1, e.2.fieldNames, (s.available e.1).names⟩

theorem summary_eq_map_columns (s : Schema) :
    s.summary = s.columns.map fun e => ⟨e.1, e.2, (s.available e.1).names⟩ := by
  rw [summary, columns, Entries.mapValues, List.map_map]
  rfl

theorem columns_eq_map_summary (s : Schema) :
    s.columns = s.summary.map fun t => (t.name, t.columns) := by
  rw [summary, List.map_map]
  rfl

theorem contains_iff_mem_keys_columns : s.contains name = true ↔ name ∈ Entries.keys s.columns := by
  rw [keys_columns]
  exact OrderedMap.contains_iff

namespace SameRelations

theorem forward_eq (h : SameRelations s s') (table : String) :
    s.forward table = s'.forward table := by
  refine NameSet.eq_of_mem_iff fun name => ?_
  rw [mem_forward_iff, mem_forward_iff, ← h.tables]
  exact and_congr_right fun hc => h.targets table name hc

/-- Only of a known table the references to it have to be the same. -/
theorem inverse_eq (h : SameRelations s s') (ht : s.contains table = true) :
    s.inverse table = s'.inverse table := by
  refine NameSet.eq_of_mem_iff fun name => ?_
  rw [mem_inverse_iff, mem_inverse_iff]
  exact h.targets name table ht

theorem available_eq (h : SameRelations s s') (ht : s.contains table = true) :
    s.available table = s'.available table := by
  rw [available, available, h.forward_eq, h.inverse_eq ht]

theorem summary_eq (h : SameRelations s s') (hc : s.columns = s'.columns) :
    s.summary = s'.summary := by
  rw [summary_eq_map_columns, summary_eq_map_columns, ← hc]
  refine List.map_congr_left fun e he => ?_
  rw [h.available_eq (contains_iff_mem_keys_columns.2 (Entries.mem_keys he))]

end SameRelations

theorem hasField_eq_columns :
    s.hasField table name = (s.columns.get? table).any (·.contains name) := by
  rw [columns, Entries.get?_mapValues, hasField, Option.any_map]
  rfl

theorem get?_columns_of_perm (h : s.columns.Perm s'.columns) (name : String) :
    s.columns.get? name = s'.columns.get? name := by
  have hd : ∀ s : Schema, (Entries.keys s.columns).Nodup := by
    intro s
    rw [keys_columns]
    exact s.tables.distinct
  refine Option.ext fun fields => ?_
  rw [Entries.lookup_eq_some_iff (hd s), Entries.lookup_eq_some_iff (hd s'), h.mem_iff]

theorem references_iff_any {a b : String} :
    s.References a b ↔ (s.table? a).any (·.references b) = true := by
  rw [References]
  cases s.table? a with
  | none => simp
  | some t => simp [Table.references]

/-- The order of the tables may differ. Whether their references do is seen by looking at them. -/
theorem SameRelations.of_perm (hc : s.columns.Perm s'.columns)
    (hr : ∀ a ∈ s.tableNames, ∀ b ∈ s.tableNames,
      (s.table? a).any (·.references b) = (s'.table? a).any (·.references b)) :
    SameRelations s s' := by
  have ht : ∀ name, s.contains name = s'.contains name := by
    intro name
    rw [Bool.eq_iff_iff, contains_iff_mem_keys_columns, contains_iff_mem_keys_columns]
    exact (hc.map Prod.fst).mem_iff
  refine ⟨ht, fun table name => ?_, fun table name hn => ?_⟩
  · rw [hasField_eq_columns, hasField_eq_columns, get?_columns_of_perm hc]
  · cases hk : s.contains table with
    | true =>
      rw [references_iff_any, references_iff_any,
        hr table (OrderedMap.contains_iff.1 hk) name (OrderedMap.contains_iff.1 hn)]
    | false =>
      have hn : ¬ s.References table name := fun h => by simp [h.contains] at hk
      have hn' : ¬ s'.References table name := fun h => by simp [ht, h.contains] at hk
      exact iff_of_false hn hn'

end Schema

namespace Selection

open Schema

variable {s s' : Schema}

theorem alike_of_sameRelations (h : SameRelations s s') :
    Alike s s' id fun table _ => s.contains table = true where
  fields _ := h.fields _
  relations ht _ _ := by rw [h.available_eq ht]
  reports ht _ _ := by rw [h.available_eq ht]
  down _ _ _ ha := (available_contains_iff.1 ha).1

theorem compile_eq_of_sameRelations (h : SameRelations s s') (policy : Policy) (table : String)
    (c : Selection) : c.compile policy s table = c.compile policy s' table := by
  have hid : ∀ {ε α : Type} (x : Except ε α), x.mapError id = x := by
    intro ε α x
    cases x <;> rfl
  have hc := (alike_of_sameRelations h).mapError_check_eq (c := c) (h.tables table) fun ht => ht
  have hm := mapError_compile_congr hc policy
  rwa [hid, hid] at hm

end Selection

namespace Catalog

open Code Identifier

variable {s s' : Schema}

theorem markersOf_congr (h : s.columns = s'.columns) : markersOf s = markersOf s' := by
  have hn : s.tableNames = s'.tableNames := by
    rw [← Schema.keys_columns, ← Schema.keys_columns, h]
  rw [markersOf, markersOf, hn]

theorem tables_eq_map_summary (s : Schema) : (ofSchema s).tables =
    (s.summary.zip ((markersOf s).1.zip (fieldTypesOf s))).map fun (t, m, fieldType) =>
      { name := t.name
        marker := m.2
        fieldType := fieldType
        columns := List.zipWith TypedColumn.mk t.columns (({} : Allocator).allocateAll t.columns).1
        relations := t.related.filterMap (List.lookup · (markersOf s).1) } := by
  rw [tables_ofSchema, Schema.summary, List.zip_map_left, List.map_map]
  rfl

theorem ofSchema_eq_of_summary_eq (h : s.summary = s'.summary) : ofSchema s = ofSchema s' := by
  have hm : markersOf s = markersOf s' := by
    refine markersOf_congr ?_
    rw [Schema.columns_eq_map_summary, Schema.columns_eq_map_summary, h]
  have ht : (ofSchema s).tables = (ofSchema s').tables := by
    rw [tables_eq_map_summary, tables_eq_map_summary, h, fieldTypesOf, fieldTypesOf, hm]
  exact congrArg Catalog.mk ht

end Catalog

open Code

/--
Schemas with the same tables, the same fields and the same references among the tables relate every
table to the same ones and let every selection compile to the same result, under either policy and
with the same errors. If their tables and fields stand in the same order, then they have the same
catalogue, and the module that is generated from it consists of the same tokens.
-/
theorem Schema.SameRelations.indistinguishable {s s' : Schema} (h : s.SameRelations s') :
    (∀ table, s.contains table = true → s.forward table = s'.forward table ∧
      s.inverse table = s'.inverse table ∧ s.available table = s'.available table) ∧
    (∀ policy table (c : Selection), c.compile policy s table = c.compile policy s' table) ∧
    (s.columns = s'.columns → Catalog.ofSchema s = Catalog.ofSchema s' ∧
      (Catalog.ofSchema s).items.flatMap Item.tokens =
        (Catalog.ofSchema s').items.flatMap Item.tokens) := by
  refine ⟨fun table ht => ?_, Selection.compile_eq_of_sameRelations h, fun hc => ?_⟩
  · exact ⟨h.forward_eq table, h.inverse_eq ht, h.available_eq ht⟩
  · have he := Catalog.ofSchema_eq_of_summary_eq (h.summary_eq hc)
    exact ⟨he, by rw [he]⟩

/--
The sample schema with foreign keys that are given twice, the other way round, with a name or with
no table to reference, and with other values in the rows of comments.
-/
def Schema.noisySample : Schema :=
  Schema.sample
    |>.withTable "UserOrganization"
      (sampleTable ["id", "userId", "organizationId", "role"] ["Organization", "User", "User"])
    |>.withTable "Comment" {
      row := .ofList
        [("id", .integer 1), ("body", .null), ("authorId", .array []), ("parentId", .null)]
      relationships := [{}, { referencedTable := some "Comment", isOneToOne := some true },
        { referencedTable := some "Deleted" },
        { referencedTable := some "User", foreignKeyName := some "author" }] }

def Schema.shuffledSample : Schema := ⟨.ofList noisySample.tables.entries.reverse⟩

theorem Schema.indistinguishable_samples :
    (sample.SameRelations noisySample ∧ sample.contains "Comment" = true ∧
      sample.columns = noisySample.columns) ∧
    sample.available "Comment" = noisySample.available "Comment" ∧
    Catalog.ofSchema sample = Catalog.ofSchema noisySample ∧
    sample.SameRelations shuffledSample ∧
    Selection.wrongSiblings.compile .strict shuffledSample "User" = .error (.invalidRelation
      "User" "User" "Organization" ⟨["Comment", "UserOrganization"], by decide⟩) := by
  have hc : sample.columns = noisySample.columns := by decide
  have hk : sample.contains "Comment" = true := by decide
  have h : sample.SameRelations noisySample := .of_perm (hc ▸ List.Perm.refl _) (by decide)
  have h' : sample.SameRelations shuffledSample := .of_perm (by decide) (by decide)
  obtain ⟨hr, -, hm⟩ := h.indistinguishable
  obtain ⟨-, hs, -⟩ := h'.indistinguishable
  have hw : Selection.wrongSiblings.compile .strict sample "User" = .error (.invalidRelation
      "User" "User" "Organization" ⟨["Comment", "UserOrganization"], by decide⟩) := by decide
  exact ⟨⟨h, hk, hc⟩, (hr _ hk).2.2, (hm hc).1, h', (hs _ _ _).symm.trans hw⟩

end NestedSelection
