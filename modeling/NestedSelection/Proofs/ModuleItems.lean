import Mathlib.Data.List.Perm.Basic
import NestedSelection.Code.Item
import NestedSelection.Proofs.Identifiers
import NestedSelection.Proofs.TypedTables
import NestedSelection.Schema.Sample

/-! # Generated modules are free of conflicts

The markers of all tables and the types of their fields are given out in one scope, one round after
the other, so they are all different; the variants of one type are given out in a scope of their
own. Whatever a table may hold in a selection is a table of the schema and has a marker. So the
items of a catalogue define each type that they name exactly once and implement nothing twice.
-/

namespace NestedSelection

theorem map_some_filterMap {α β : Type} {f : α → Option β} {l : List α}
    (h : ∀ a ∈ l, ∃ b, f a = some b) : (l.filterMap f).map some = l.map f := by
  induction l with
  | nil => rfl
  | cons a l ih =>
    obtain ⟨⟨b, hb⟩, hl⟩ := List.forall_mem_cons.1 h
    rw [List.filterMap_cons_some hb, List.map_cons, List.map_cons, ih hl, hb]

namespace Catalog

open Identifier

variable {s : Schema} {t t' : TypedTable}

theorem map_marker_ofSchema (s : Schema) :
    (ofSchema s).tables.map (·.marker) = (markersOf s).1.map Prod.snd := by
  have hl : (markersOf s).1.length = (fieldTypesOf s).length := by simp [fieldTypesOf]
  calc (ofSchema s).tables.map (·.marker)
      = (((s.tables.entries.zip ((markersOf s).1.zip (fieldTypesOf s))).map Prod.snd).map
          Prod.fst).map Prod.snd := by simp [tables_ofSchema, typedTable, Function.comp_def]
    _ = (markersOf s).1.map Prod.snd := by
      rw [List.map_snd_zip (Nat.le_of_eq (length_zip_fieldTypesOf s).symm),
        List.map_fst_zip (Nat.le_of_eq hl)]

theorem map_fieldType_ofSchema (s : Schema) :
    (ofSchema s).tables.map (·.fieldType) = fieldTypesOf s := by
  have hl : (markersOf s).1.length = (fieldTypesOf s).length := by simp [fieldTypesOf]
  calc (ofSchema s).tables.map (·.fieldType)
      = ((s.tables.entries.zip ((markersOf s).1.zip (fieldTypesOf s))).map Prod.snd).map
          Prod.snd := by simp [tables_ofSchema, typedTable, Function.comp_def]
    _ = fieldTypesOf s := by
      rw [List.map_snd_zip (Nat.le_of_eq (length_zip_fieldTypesOf s).symm),
        List.map_snd_zip (Nat.le_of_eq hl.symm)]

/-- Both rounds give out identifiers in one scope. -/
theorem nodup_types (s : Schema) :
    ((ofSchema s).tables.map (·.marker) ++ (ofSchema s).tables.map (·.fieldType)).Nodup := by
  rw [map_marker_ofSchema, map_fieldType_ofSchema]
  refine List.nodup_append'.2 ⟨nodup_markers s, Allocator.nodup_allocateAll _ _, ?_⟩
  intro x hm hf
  refine Allocator.not_mem_taken_of_mem hf (Allocator.mem_taken_allocateAll (.inl ?_))
  rw [markersOf_eq] at hm
  rwa [List.map_snd_zip (Nat.le_of_eq (Allocator.length_allocateAll _ _))] at hm

theorem eq_of_marker_eq (ht : t ∈ (ofSchema s).tables) (ht' : t' ∈ (ofSchema s).tables)
    (h : t.marker = t'.marker) : t = t' :=
  List.inj_on_of_nodup_map (nodup_types s).of_append_left ht ht' h

theorem eq_of_fieldType_eq (ht : t ∈ (ofSchema s).tables) (ht' : t' ∈ (ofSchema s).tables)
    (h : t.fieldType = t'.fieldType) : t = t' :=
  List.inj_on_of_nodup_map (nodup_types s).of_append_right ht ht' h

theorem isLegal_marker (ht : t ∈ (ofSchema s).tables) : IsLegal t.marker := by
  have hm : t.marker ∈ (ofSchema s).tables.map (·.marker) := List.mem_map_of_mem ht
  rw [map_marker_ofSchema, markersOf_eq,
    List.map_snd_zip (Nat.le_of_eq (Allocator.length_allocateAll _ _))] at hm
  exact Allocator.isLegal_of_mem_allocateAll hm

theorem isLegal_fieldType (ht : t ∈ (ofSchema s).tables) : IsLegal t.fieldType := by
  have hm : t.fieldType ∈ (ofSchema s).tables.map (·.fieldType) := List.mem_map_of_mem ht
  rw [map_fieldType_ofSchema] at hm
  exact Allocator.isLegal_of_mem_allocateAll hm

theorem isLegal_variant (ht : t ∈ (ofSchema s).tables) :
    ∀ x ∈ t.columns.map (·.variant), IsLegal x := by
  obtain ⟨table, h⟩ := exists_describes ht
  rw [h.columns, map_variant_columnsOf]
  exact fun x hx => Allocator.isLegal_of_mem_allocateAll hx

theorem exists_marker {name related : String} (h : related ∈ (s.available name).names) :
    ∃ marker, List.lookup related (markersOf s).1 = some marker := by
  have hk : related ∈ Entries.keys (markersOf s).1 := by
    rw [keys_markersOf]
    exact OrderedMap.contains_iff.1 (Schema.mem_available_iff.1 h).1
  obtain ⟨marker, hm⟩ := Entries.exists_of_mem_keys hk
  exact ⟨marker, lookup_markers_iff.2 hm⟩

theorem map_some_relations (ht : t ∈ (ofSchema s).tables) : t.relations.map some =
    (s.available t.name).names.map fun related => List.lookup related (markersOf s).1 := by
  obtain ⟨table, h⟩ := exists_describes ht
  rw [h.relations]
  exact map_some_filterMap fun _ hr => exists_marker hr

theorem exists_of_mem_markers {name marker : String} (h : (name, marker) ∈ (markersOf s).1) :
    ∃ t ∈ (ofSchema s).tables, t.name = name ∧ t.marker = marker := by
  have hm : marker ∈ (ofSchema s).tables.map (·.marker) := by
    rw [map_marker_ofSchema]
    exact List.mem_map_of_mem h
  obtain ⟨t, ht, rfl⟩ := List.mem_map.1 hm
  obtain ⟨table, hd⟩ := exists_describes ht
  exact ⟨t, ht, name_of_marker hd.marked h, rfl⟩

theorem exists_of_mem_relations (ht : t ∈ (ofSchema s).tables) {marker : String}
    (h : marker ∈ t.relations) : ∃ related ∈ (ofSchema s).tables, related.marker = marker := by
  obtain ⟨table, hd⟩ := exists_describes ht
  rw [hd.relations] at h
  obtain ⟨name, -, hl⟩ := List.mem_filterMap.1 h
  obtain ⟨related, hr, -, hm⟩ := exists_of_mem_markers (lookup_markers_iff.1 hl)
  exact ⟨related, hr, hm⟩

theorem nodup_relations (ht : t ∈ (ofSchema s).tables) : t.relations.Nodup := by
  obtain ⟨table, h⟩ := exists_describes ht
  rw [h.relations]
  refine List.Nodup.filterMap (fun a b m ha hb => ?_) ?_
  · exact name_of_marker (lookup_markers_iff.1 ha) (lookup_markers_iff.1 hb)
  · exact (s.available t.name).nodup_names

end Catalog

namespace Code

namespace Item

def defined? : Item → Option String
  | .unitStruct _ type => some type
  | .fieldEnum _ type _ => some type
  | _ => none

def types : Item → List String
  | .unitStruct _ type => [type]
  | .fieldEnum _ type _ => [type]
  | .fieldImpl type _ => [type]
  | .tableImpl marker _ fieldType => [marker, fieldType]
  | .includableImpl related marker => [related, marker]

def variants : Item → List String
  | .fieldEnum _ _ variants => variants
  | .fieldImpl _ columns => columns.map (·.variant)
  | _ => []

/-- What is implemented for which type. There may be one implementation of each. -/
inductive Head where
  | field (type : String)
  | table (marker : String)
  | includable (related marker : String)
deriving DecidableEq

def head? : Item → Option Head
  | .fieldImpl type _ => some (.field type)
  | .tableImpl marker _ _ => some (.table marker)
  | .includableImpl related marker => some (.includable related marker)
  | _ => none

end Item

/-- A module that can be compiled as far as its names go. -/
structure ConflictFree (items : List Item) : Prop where
  legal : ∀ i ∈ items, ∀ x ∈ i.types ++ i.variants, Identifier.IsLegal x
  types_distinct : (items.filterMap Item.defined?).Nodup
  /-- The match over the variants of a type has one arm for each, and each has its own column. -/
  variants : ∀ name type variants, .fieldEnum name type variants ∈ items → variants.Nodup ∧
    ∃ columns : List TypedColumn, (∀ cs, .fieldImpl type cs ∈ items ↔ cs = columns) ∧
      columns.map (·.variant) = variants ∧ (columns.map (·.name)).Nodup
  types_defined : ∀ i ∈ items, ∀ x ∈ i.types, (items.filterMap Item.defined?).count x = 1
  heads_distinct : (items.filterMap Item.head?).Nodup

end Code

open Code

namespace TypedTable

variable {t : TypedTable} {i : Item}

theorem mem_items : i ∈ t.items ↔ i = .unitStruct t.name t.marker ∨
    i = .fieldEnum t.name t.fieldType (t.columns.map (·.variant)) ∨
    i = .fieldImpl t.fieldType t.columns ∨ i = .tableImpl t.marker t.name t.fieldType ∨
    ∃ related ∈ t.relations, i = .includableImpl related t.marker := by
  simp [items, eq_comm]

theorem types_of_mem_items (h : i ∈ t.items) :
    ∀ x ∈ i.types, x = t.marker ∨ x = t.fieldType ∨ x ∈ t.relations := by
  rcases mem_items.1 h with rfl | rfl | rfl | rfl | ⟨r, hr, rfl⟩
  · simp [Item.types]
  · simp [Item.types]
  · simp [Item.types]
  · simp [Item.types]
  · simp [Item.types, hr]

theorem variants_of_mem_items (h : i ∈ t.items) :
    ∀ x ∈ i.variants, x ∈ t.columns.map (·.variant) := by
  rcases mem_items.1 h with rfl | rfl | rfl | rfl | ⟨r, hr, rfl⟩
  · simp [Item.variants]
  · exact fun x hx => hx
  · exact fun x hx => hx
  · simp [Item.variants]
  · simp [Item.variants]

theorem filterMap_defined?_items (t : TypedTable) :
    t.items.filterMap Item.defined? = [t.marker, t.fieldType] := by
  simp [items, Item.defined?]

theorem filterMap_head?_items (t : TypedTable) : t.items.filterMap Item.head? =
    .field t.fieldType :: .table t.marker :: t.relations.map fun r => .includable r t.marker := by
  have hr : (t.relations.map fun r => Item.includableImpl r t.marker).filterMap Item.head? =
      t.relations.map fun r => .includable r t.marker := by
    rw [List.filterMap_map, ← List.filterMap_eq_map]
    rfl
  rw [items, List.filterMap_append, hr]
  rfl

end TypedTable

namespace Catalog

variable {s : Schema} {t : TypedTable}

theorem mem_items {c : Catalog} {i : Item} : i ∈ c.items ↔ ∃ t ∈ c.tables, i ∈ t.items :=
  List.mem_flatMap

theorem filterMap_defined?_items (s : Schema) :
    ((ofSchema s).items.filterMap Item.defined?).Perm
      ((ofSchema s).tables.map (·.marker) ++ (ofSchema s).tables.map (·.fieldType)) := by
  rw [items, List.filterMap_flatMap]
  simp only [TypedTable.filterMap_defined?_items]
  rw [← List.flatMap_singleton' ((ofSchema s).tables.map (·.fieldType)), List.flatMap_map]
  exact (List.map_append_flatMap_perm _ _ _).symm

theorem nodup_defined (s : Schema) : ((ofSchema s).items.filterMap Item.defined?).Nodup :=
  (filterMap_defined?_items s).nodup_iff.2 (nodup_types s)

theorem count_defined_marker (ht : t ∈ (ofSchema s).tables) :
    ((ofSchema s).items.filterMap Item.defined?).count t.marker = 1 := by
  refine List.count_eq_one_of_mem (nodup_defined s) ((filterMap_defined?_items s).mem_iff.2 ?_)
  exact List.mem_append_left _ (List.mem_map_of_mem ht)

theorem count_defined_fieldType (ht : t ∈ (ofSchema s).tables) :
    ((ofSchema s).items.filterMap Item.defined?).count t.fieldType = 1 := by
  refine List.count_eq_one_of_mem (nodup_defined s) ((filterMap_defined?_items s).mem_iff.2 ?_)
  exact List.mem_append_right _ (List.mem_map_of_mem ht)

theorem fieldImpl_mem_items_iff (ht : t ∈ (ofSchema s).tables) {columns : List TypedColumn} :
    .fieldImpl t.fieldType columns ∈ (ofSchema s).items ↔ columns = t.columns := by
  rw [mem_items]
  constructor
  · rintro ⟨t', ht', hi⟩
    obtain ⟨hf, rfl⟩ : t.fieldType = t'.fieldType ∧ columns = t'.columns := by
      simpa [TypedTable.mem_items] using hi
    rw [eq_of_fieldType_eq ht ht' hf]
  · rintro rfl
    exact ⟨t, ht, by simp [TypedTable.mem_items]⟩

/-- No two tables implement the same, as their types are different. -/
theorem nodup_heads (s : Schema) : ((ofSchema s).items.filterMap Item.head?).Nodup := by
  rw [items, List.filterMap_flatMap]
  simp only [TypedTable.filterMap_head?_items]
  refine List.nodup_flatMap.2 ⟨fun t ht => ?_, ?_⟩
  · have hr : (t.relations.map fun r => Item.Head.includable r t.marker).Nodup :=
      (nodup_relations ht).map fun a b h => (Item.Head.includable.inj h).1
    simp [hr]
  · have hm := List.pairwise_map.1 (nodup_types s).of_append_left
    have hf := List.pairwise_map.1 (nodup_types s).of_append_right
    refine (hm.and hf).imp fun {t t'} h x hx hx' => ?_
    obtain ⟨hm, hf⟩ := h
    simp only [List.mem_cons, List.mem_map] at hx hx'
    rcases hx with rfl | rfl | ⟨r, -, rfl⟩
    · simp [hf] at hx'
    · simp [hm] at hx'
    · obtain ⟨r', -, hr⟩ : ∃ r' ∈ t'.relations, Item.Head.includable r' t'.marker =
          .includable r t.marker := by simpa using hx'
      exact hm (Item.Head.includable.inj hr).2.symm

theorem isLegal_and_count_type {i : Item} (hi : i ∈ (ofSchema s).items) {x : String}
    (hx : x ∈ i.types) : Identifier.IsLegal x ∧
      ((ofSchema s).items.filterMap Item.defined?).count x = 1 := by
  obtain ⟨t, ht, hi⟩ := mem_items.1 hi
  rcases TypedTable.types_of_mem_items hi x hx with rfl | rfl | hr
  · exact ⟨isLegal_marker ht, count_defined_marker ht⟩
  · exact ⟨isLegal_fieldType ht, count_defined_fieldType ht⟩
  · obtain ⟨related, hm, rfl⟩ := exists_of_mem_relations ht hr
    exact ⟨isLegal_marker hm, count_defined_marker hm⟩

theorem conflictFree_items (s : Schema) : ConflictFree (ofSchema s).items where
  legal i hi x hx := by
    rcases List.mem_append.1 hx with hx | hx
    · exact (isLegal_and_count_type hi hx).1
    · obtain ⟨t, ht, hi⟩ := mem_items.1 hi
      exact isLegal_variant ht x (TypedTable.variants_of_mem_items hi x hx)
  types_distinct := nodup_defined s
  variants name type variants h := by
    obtain ⟨t, ht, hi⟩ := mem_items.1 h
    obtain ⟨rfl, rfl, rfl⟩ : name = t.name ∧ type = t.fieldType ∧
        variants = t.columns.map (·.variant) := by simpa [TypedTable.mem_items] using hi
    obtain ⟨hv, hn⟩ := nodup_columns ht
    exact ⟨hv, t.columns, fun _ => fieldImpl_mem_items_iff ht, rfl, hn⟩
  types_defined i hi x hx := (isLegal_and_count_type hi hx).2
  heads_distinct := nodup_heads s

/-- Tables whose names are empty, a word of the language, or give identifiers that clash. -/
def awkwardNames : Schema :=
  ({} : Schema)
    |>.withTable "self" (Schema.sampleTable ["", "é", "2", "_2"] ["Self Field", "self"])
    |>.withTable "Self Field" (Schema.sampleTable [] [""])
    |>.withTable "" {}

end Catalog

end NestedSelection
