import NestedSelection.Catalog.Basic
import NestedSelection.Proofs.Allocation
import NestedSelection.Proofs.Related

/-! # The tables of a catalogue

A catalogue has one typed table for each table of its schema, under the same name. Markers are
different for different tables, so a marker among the relations of a typed table stands for a table
that may be nested under it, and for no other; and the columns are the fields of the rows.
-/

namespace NestedSelection

theorem find?_eq_some_of_nodup {α : Type} {key : α → String} {l : List α} {a : α}
    (h : (l.map key).Nodup) (ha : a ∈ l) : (l.find? fun x => key x == key a) = some a := by
  have hs : (l.find? fun x => key x == key a).isSome := List.find?_isSome.2 ⟨a, ha, by simp⟩
  obtain ⟨b, hb⟩ := Option.isSome_iff_exists.1 hs
  have hk : key b = key a := by simpa using List.find?_some hb
  rw [hb, List.inj_on_of_nodup_map h (List.mem_of_find?_eq_some hb) ha hk]

namespace Catalog

open Identifier

variable {s : Schema} {name : String}

theorem zipWith_left {α β : Type} {l : List α} {r : List β} (h : l.length = r.length) :
    List.zipWith (fun a _ => a) l r = l := by
  rw [← List.map_uncurry_zip_eq_zipWith]
  exact List.map_fst_zip (Nat.le_of_eq h)

theorem map_name_columnsOf (t : Table) : (columnsOf t).map (·.name) = t.fieldNames := by
  rw [columnsOf, List.map_zipWith]
  exact zipWith_left (Allocator.length_allocateAll _ _).symm

theorem map_variant_columnsOf (t : Table) :
    (columnsOf t).map (·.variant) = (({} : Allocator).allocateAll t.fieldNames).1 := by
  rw [columnsOf, List.map_zipWith, ← List.map_uncurry_zip_eq_zipWith]
  exact List.map_snd_zip (Nat.le_of_eq (Allocator.length_allocateAll _ _))

theorem markersOf_eq (s : Schema) : (markersOf s).1 =
    s.tableNames.zip (({} : Allocator).allocateAll s.tableNames).1 := rfl

theorem keys_markersOf (s : Schema) : Entries.keys (markersOf s).1 = s.tableNames := by
  rw [markersOf_eq, Entries.keys]
  exact List.map_fst_zip (Nat.le_of_eq (Allocator.length_allocateAll _ _).symm)

theorem nodup_keys_markersOf (s : Schema) : (Entries.keys (markersOf s).1).Nodup := by
  rw [keys_markersOf]
  exact s.tables.distinct

theorem nodup_markers (s : Schema) : ((markersOf s).1.map Prod.snd).Nodup := by
  rw [markersOf_eq, List.map_snd_zip (Nat.le_of_eq (Allocator.length_allocateAll _ _))]
  exact Allocator.nodup_allocateAll _ _

theorem lookup_markers_iff {marker : String} :
    List.lookup name (markersOf s).1 = some marker ↔ (name, marker) ∈ (markersOf s).1 :=
  Entries.lookup_eq_some_iff (nodup_keys_markersOf s)

theorem name_of_marker {a b marker : String} (ha : (a, marker) ∈ (markersOf s).1)
    (hb : (b, marker) ∈ (markersOf s).1) : a = b :=
  congrArg Prod.fst (List.inj_on_of_nodup_map (nodup_markers s) ha hb rfl)

/-- The identifiers for the field types, given out behind the markers. -/
def fieldTypesOf (s : Schema) : List String :=
  ((markersOf s).2.allocateAll ((markersOf s).1.map fun e => e.2 ++ "Field")).1

theorem tables_ofSchema (s : Schema) : (ofSchema s).tables =
    (s.tables.entries.zip ((markersOf s).1.zip (fieldTypesOf s))).map fun (e, m, fieldType) =>
      typedTable s (markersOf s).1 e.1 e.2 m.2 fieldType := rfl

theorem length_markersOf (s : Schema) : (markersOf s).1.length = s.tables.entries.length := by
  have h := congrArg List.length (keys_markersOf s)
  rwa [Entries.keys, List.length_map, Schema.tableNames, OrderedMap.keys, Entries.keys,
    List.length_map] at h

theorem length_zip_fieldTypesOf (s : Schema) :
    s.tables.entries.length = ((markersOf s).1.zip (fieldTypesOf s)).length := by
  rw [List.length_zip, fieldTypesOf, Allocator.length_allocateAll, List.length_map, Nat.min_self,
    length_markersOf]

theorem names_ofSchema (s : Schema) :
    (ofSchema s).tables.map (·.name) = s.tableNames := by
  rw [tables_ofSchema, List.map_map]
  calc _ = ((s.tables.entries.zip ((markersOf s).1.zip (fieldTypesOf s))).map Prod.fst).map
        Prod.fst := (List.map_map ..).symm
    _ = s.tableNames := by
      rw [List.map_fst_zip (Nat.le_of_eq (length_zip_fieldTypesOf s))]
      rfl

/-- The entries of the schema stand beside the markers of their own names. -/
theorem fst_eq_of_mem_zip {e : String × Table} {m : String × String} {fieldType : String}
    (h : (e, m, fieldType) ∈ s.tables.entries.zip ((markersOf s).1.zip (fieldTypesOf s))) :
    e.1 = m.1 := by
  obtain ⟨i, hi, he⟩ := List.mem_iff_getElem.1 h
  simp only [List.getElem_zip, Prod.mk.injEq] at he
  obtain ⟨rfl, rfl, -⟩ := he
  have hk : (Entries.keys (markersOf s).1)[i]? = s.tableNames[i]? := by rw [keys_markersOf]
  simp only [Entries.keys, List.getElem?_map, Schema.tableNames, OrderedMap.keys] at hk
  rw [List.getElem?_eq_getElem, List.getElem?_eq_getElem] at hk
  exact (Option.some.inj hk).symm

/-- A typed table says what the schema says of the table of its name. -/
structure Describes (s : Schema) (t : TypedTable) (table : Table) : Prop where
  known : s.table? t.name = some table
  marked : (t.name, t.marker) ∈ (markersOf s).1
  columns : t.columns = columnsOf table
  relations : t.relations =
    (s.available t.name).names.filterMap fun related => List.lookup related (markersOf s).1

variable {t related : TypedTable}

theorem exists_describes (h : t ∈ (ofSchema s).tables) : ∃ table, Describes s t table := by
  rw [tables_ofSchema] at h
  obtain ⟨⟨e, m, fieldType⟩, hm, rfl⟩ := List.mem_map.1 h
  obtain ⟨he, hr⟩ := List.of_mem_zip hm
  have hn := fst_eq_of_mem_zip hm
  refine ⟨e.2, Schema.table?_eq_some_iff.2 he, ?_, rfl, rfl⟩
  change (e.1, m.2) ∈ _
  rw [hn]
  exact (List.of_mem_zip hr).1

theorem contains_name (ht : t ∈ (ofSchema s).tables) : s.contains t.name = true := by
  obtain ⟨table, h⟩ := exists_describes ht
  exact Schema.contains_iff.2 ⟨table, h.known⟩

theorem exists_table? (h : s.contains name = true) :
    ∃ t ∈ (ofSchema s).tables, (ofSchema s).table? name = some t ∧ t.name = name := by
  have hm : name ∈ (ofSchema s).tables.map (·.name) := by
    rw [names_ofSchema]
    exact OrderedMap.contains_iff.1 h
  obtain ⟨x, hx, hn⟩ := List.mem_map.1 hm
  have hs : ((ofSchema s).table? name).isSome := List.find?_isSome.2 ⟨x, hx, beq_iff_eq.2 hn⟩
  obtain ⟨t, ht⟩ := Option.isSome_iff_exists.1 hs
  exact ⟨t, List.mem_of_find?_eq_some ht, ht, by simpa using List.find?_some ht⟩

/-- A marker among the relations of a table stands for a table that may be nested under it. -/
theorem marker_mem_relations_iff (ht : t ∈ (ofSchema s).tables)
    (hr : related ∈ (ofSchema s).tables) :
    related.marker ∈ t.relations ↔ related.name ∈ (s.available t.name).names := by
  obtain ⟨table, h⟩ := exists_describes ht
  obtain ⟨table', h'⟩ := exists_describes hr
  rw [h.relations, List.mem_filterMap]
  constructor
  · rintro ⟨name, hn, hl⟩
    rwa [name_of_marker h'.marked (lookup_markers_iff.1 hl)]
  · intro hn
    exact ⟨related.name, hn, lookup_markers_iff.2 h'.marked⟩

theorem exists_column_iff (ht : t ∈ (ofSchema s).tables) :
    (∃ column ∈ t.columns, column.name = name) ↔ s.hasField t.name name = true := by
  obtain ⟨table, h⟩ := exists_describes ht
  rw [Schema.hasField_iff, h.columns, ← List.mem_map (f := TypedColumn.name), map_name_columnsOf]
  constructor
  · intro hn
    exact ⟨table, h.known, hn⟩
  · rintro ⟨table', hk, hn⟩
    rwa [Option.some.inj (h.known.symm.trans hk)]

theorem nodup_columns (ht : t ∈ (ofSchema s).tables) :
    (t.columns.map (·.variant)).Nodup ∧ (t.columns.map (·.name)).Nodup := by
  obtain ⟨table, h⟩ := exists_describes ht
  rw [h.columns, map_variant_columnsOf, map_name_columnsOf]
  exact ⟨Allocator.nodup_allocateAll _ _, table.row.distinct⟩

/-- A variant leads to the column it was given to, since no other column has it. -/
theorem columnName?_variant {column : TypedColumn} (ht : t ∈ (ofSchema s).tables)
    (h : column ∈ t.columns) : t.columnName? column.variant = some column.name := by
  rw [TypedTable.columnName?, find?_eq_some_of_nodup (nodup_columns ht).1 h, Option.map_some]

theorem exists_variant_iff (ht : t ∈ (ofSchema s).tables) :
    (∃ variant, t.columnName? variant = some name) ↔ s.hasField t.name name = true := by
  rw [← exists_column_iff ht]
  constructor
  · rintro ⟨variant, h⟩
    obtain ⟨column, hc, hn⟩ := Option.map_eq_some_iff.1 h
    exact ⟨column, List.mem_of_find?_eq_some hc, hn⟩
  · rintro ⟨column, hc, rfl⟩
    exact ⟨column.variant, columnName?_variant ht hc⟩

end Catalog

end NestedSelection
