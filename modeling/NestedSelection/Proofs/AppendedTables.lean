import NestedSelection.Proofs.Locality
import NestedSelection.Proofs.ModuleItems

/-! # Appending a table

When a table is put behind those of a schema, the tables that were there before keep their markers
and their columns, since these are given out in order and each scope starts anew. What may be nested
under them can only grow by the new table. But the types of their fields are given out after all
markers, the new one among them: a type keeps its identifier if the new marker is not the one that
some type had before.
-/

namespace NestedSelection

open Identifier

namespace Schema

variable {s : Schema} {name table other : String} {t : Table}

theorem table?_withTable_of_contains (h : s.contains name = false) (ho : s.contains other = true) :
    other ≠ name ∧ (s.withTable name t).table? other = s.table? other := by
  have hne : other ≠ name := by
    rintro rfl
    rw [h] at ho
    cases ho
  rw [table?_withTable, if_neg hne]
  exact ⟨hne, rfl⟩

theorem not_mem_tableNames (h : s.contains name = false) : name ∉ s.tableNames := by
  intro hm
  rw [contains, OrderedMap.contains_iff.2 hm] at h
  cases h

theorem tableNames_withTable (h : s.contains name = false) (t : Table) :
    (s.withTable name t).tableNames = s.tableNames ++ [name] :=
  Entries.keys_insert_of_not_mem t (not_mem_tableNames h)

theorem filter_available_withTable (h : s.contains name = false) (t : Table)
    (ho : s.contains other = true) :
    ((s.withTable name t).available other).names.filter (· ≠ name) = (s.available other).names := by
  apply (List.Pairwise.filter _ (NameSet.ascending _)).eq_of_mem_iff (NameSet.ascending _)
  intro related
  obtain ⟨hne, he⟩ := table?_withTable_of_contains (t := t) h ho
  rw [List.mem_filter, decide_eq_true_iff]
  by_cases hr : related = name
  · subst hr
    have hn : related ∉ (s.available other).names := by
      rw [mem_available_iff, h]
      simp
    simp [hn]
  · have hr' : (s.withTable name t).table? related = s.table? related := by
      rw [table?_withTable, if_neg hr]
    have ha := (AgreeOn.of_table?_eq he).available_contains_eq (.of_table?_eq hr')
    rw [NameSet.contains, NameSet.contains, Bool.eq_iff_iff, List.contains_iff_mem,
      List.contains_iff_mem] at ha
    rw [ha, and_iff_left hr]

end Schema

namespace Catalog

variable {s : Schema} {name : String} {table : Table} {t t' : TypedTable}

def markerBehind (s : Schema) (name : String) : String := (markersOf s).2.next name

theorem markersOf_withTable (h : s.contains name = false) (table : Table) :
    markersOf (s.withTable name table) =
      ((markersOf s).1 ++ [(name, markerBehind s name)],
        ⟨markerBehind s name :: (markersOf s).2.taken⟩) := by
  have hl : s.tableNames.length = (({} : Allocator).allocateAll s.tableNames).1.length :=
    (Allocator.length_allocateAll _ _).symm
  simp only [markersOf, Schema.tableNames_withTable h, Allocator.allocateAll_append,
    List.zip_append hl]
  rfl

theorem mem_zip_fieldTypesOf (ht : t ∈ (ofSchema s).tables) :
    (t.name, t.fieldType) ∈ s.tableNames.zip (fieldTypesOf s) := by
  rw [← names_ofSchema, ← map_fieldType_ofSchema, List.zip_map']
  exact List.mem_map_of_mem ht

/-- Field types are given out in the same order as before, behind one marker more. -/
theorem fieldTypesOf_withTable (h : s.contains name = false) (table : Table)
    (hx : markerBehind s name ∉ fieldTypesOf s) :
    ∃ fieldType, fieldTypesOf (s.withTable name table) = fieldTypesOf s ++ [fieldType] := by
  have ha : ∀ y, y ∈ (markerBehind s name :: (markersOf s).2.taken) ↔
      y = markerBehind s name ∨ y ∈ (markersOf s).2.taken := fun y => List.mem_cons
  rw [fieldTypesOf, markersOf_withTable h, List.map_append, Allocator.allocateAll_append,
    Allocator.allocateAll_eq_of_not_mem ha hx]
  exact ⟨_, rfl⟩

/-- What a typed table keeps when the table of the given marker is put behind the schema. -/
structure Keeps (added : String) (t t' : TypedTable) : Prop where
  name : t'.name = t.name
  marker : t'.marker = t.marker
  columns : t'.columns = t.columns
  /-- The marker may be new among the relations, and nothing else about them is. -/
  relations : t'.relations.filter (· ≠ added) = t.relations

theorem lookup_markersOf_withTable (h : s.contains name = false) (table : Table) (other : String) :
    List.lookup other (markersOf (s.withTable name table)).1 =
      if other = name then some (markerBehind s name) else List.lookup other (markersOf s).1 := by
  have hn : List.lookup name (markersOf s).1 = none := by
    apply Entries.get?_eq_none
    rw [keys_markersOf]
    exact Schema.not_mem_tableNames h
  rw [markersOf_withTable h, List.lookup_append, List.lookup_singleton]
  by_cases ho : other = name
  · subst ho
    simp [hn]
  · simp [ho]

theorem lookup_markersOf_ne {other marker : String}
    (h : List.lookup other (markersOf s).1 = some marker) : marker ≠ markerBehind s name := by
  rintro rfl
  have hm := List.of_mem_zip (lookup_markers_iff.1 h)
  exact Allocator.next_not_mem _ _ (Allocator.mem_taken_allocateAll (.inl hm.2))

theorem keeps_withTable (h : s.contains name = false) (ht : t ∈ (ofSchema s).tables)
    (ht' : t' ∈ (ofSchema (s.withTable name table)).tables) (hn : t'.name = t.name) :
    Keeps (markerBehind s name) t t' := by
  obtain ⟨d, hd⟩ := exists_describes ht
  obtain ⟨d', hd'⟩ := exists_describes ht'
  have hc := contains_name ht
  obtain ⟨hne, he⟩ := Schema.table?_withTable_of_contains (t := table) h hc
  have hm := lookup_markersOf_withTable h table
  constructor
  · exact hn
  · have hl := lookup_markers_iff.2 hd'.marked
    rw [hm, hn, if_neg hne, lookup_markers_iff.2 hd.marked] at hl
    exact (Option.some.inj hl).symm
  · have hk := hd'.known
    rw [hn, he, hd.known] at hk
    rw [hd.columns, hd'.columns, Option.some.inj hk]
  · rw [hd.relations, hd'.relations, hn, ← Schema.filter_available_withTable h table hc,
      List.filter_filterMap, List.filterMap_filter]
    apply List.filterMap_congr
    intro related _
    rw [hm]
    by_cases hr : related = name
    · simp [hr]
    · rw [if_neg hr]
      cases hl : List.lookup related (markersOf s).1 with
      | none => simp [hr]
      | some marker => simp [hr, lookup_markersOf_ne hl]

theorem length_fieldTypesOf (s : Schema) : s.tableNames.length = (fieldTypesOf s).length := by
  rw [← names_ofSchema, ← map_fieldType_ofSchema, List.length_map, List.length_map]

/-- If no table had it for the type of its fields, the new marker leaves these types alone. -/
theorem fieldType_withTable (h : s.contains name = false) (ht : t ∈ (ofSchema s).tables)
    (ht' : t' ∈ (ofSchema (s.withTable name table)).tables) (hn : t'.name = t.name)
    (hx : markerBehind s name ∉ fieldTypesOf s) : t'.fieldType = t.fieldType := by
  have hne := (Schema.table?_withTable_of_contains (t := table) h (contains_name ht)).1
  have hd : ((s.tableNames.zip (fieldTypesOf s)).map Prod.fst).Nodup := by
    rw [List.map_fst_zip (Nat.le_of_eq (length_fieldTypesOf s))]
    exact s.tables.distinct
  have hm := mem_zip_fieldTypesOf ht
  have hm' := mem_zip_fieldTypesOf ht'
  obtain ⟨f, hf⟩ := fieldTypesOf_withTable h table hx
  rw [hf, Schema.tableNames_withTable h, List.zip_append (length_fieldTypesOf s), List.mem_append,
    hn] at hm'
  rcases hm' with hm' | hm'
  · exact congrArg Prod.snd (List.inj_on_of_nodup_map hd hm' hm rfl)
  · simp [hne] at hm'

theorem marker_withTable (h : s.contains name = false)
    (ht : t ∈ (ofSchema (s.withTable name table)).tables) (hn : t.name = name) :
    t.marker = markerBehind s name := by
  obtain ⟨d, hd⟩ := exists_describes ht
  have hl := lookup_markers_iff.2 hd.marked
  rw [lookup_markersOf_withTable h, if_pos hn] at hl
  exact (Option.some.inj hl).symm

/--
A catalogue that is made anew after a table was put behind the schema keeps the names in it. Every
table has the marker and the columns with their variants that it had, in the same order, and of the
tables that may be nested under it only the new one can be new. If the marker of the new table was
not the type of some table's fields before, then these types are the same as well.
-/
theorem names_survive_appending (s : Schema) (name : String) (table : Table)
    (h : s.contains name = false) :
    ∃ added, (ofSchema (s.withTable name table)).table? name = some added ∧
      ∀ other, s.contains other = true → ∃ t t', (ofSchema s).table? other = some t ∧
        (ofSchema (s.withTable name table)).table? other = some t' ∧ Keeps added.marker t t' ∧
        ((∀ u ∈ (ofSchema s).tables, u.fieldType ≠ added.marker) →
          t'.fieldType = t.fieldType) := by
  have hc : (s.withTable name table).contains name = true := by
    rw [Schema.contains_iff, Schema.table?_withTable, if_pos rfl]
    exact ⟨table, rfl⟩
  obtain ⟨added, ha, hf, hn⟩ := exists_table? hc
  refine ⟨added, hf, fun other ho => ?_⟩
  have ho' : (s.withTable name table).contains other = true := by
    rw [Schema.contains_iff, (Schema.table?_withTable_of_contains h ho).2, ← Schema.contains_iff]
    exact ho
  obtain ⟨t, ht, hft, hnt⟩ := exists_table? ho
  obtain ⟨t', ht', hft', hnt'⟩ := exists_table? ho'
  rw [marker_withTable h ha hn]
  refine ⟨t, t', hft, hft', keeps_withTable h ht ht' (hnt'.trans hnt.symm), fun hx => ?_⟩
  apply fieldType_withTable h ht ht' (hnt'.trans hnt.symm)
  rw [← map_fieldType_ofSchema]
  intro hm
  obtain ⟨u, hu, he⟩ := List.mem_map.1 hm
  exact hx u hu he

/-- Users with a foreign key to comments, which are no table yet, and posts of theirs. -/
def usersWithPosts : Schema :=
  ({} : Schema)
    |>.withTable "user" (Schema.sampleTable ["id", "Id"] ["comment"])
    |>.withTable "post" (Schema.sampleTable ["title"] ["user"])

def usersWithComments : Schema :=
  usersWithPosts.withTable "comment" (Schema.sampleTable [] ["post"])

theorem names_survive_comments :
    (usersWithPosts.contains "comment" = false ∧ usersWithPosts.contains "user" = true ∧
      ∀ u ∈ (ofSchema usersWithPosts).tables, u.fieldType ≠ "Comment") ∧
    ∃ t t', (ofSchema usersWithPosts).table? "user" = some t ∧
      (ofSchema usersWithComments).table? "user" = some t' ∧ t.relations = ["Post"] ∧
      t'.relations = ["Comment", "Post"] ∧ Keeps "Comment" t t' ∧ t'.fieldType = t.fieldType := by
  have hn : usersWithPosts.contains "comment" = false := by decide
  have hu : usersWithPosts.contains "user" = true := by decide
  have hx : ∀ u ∈ (ofSchema usersWithPosts).tables, u.fieldType ≠ "Comment" := by decide
  have hm : ((ofSchema usersWithComments).table? "comment").map (·.marker) = some "Comment" := by
    decide
  have hr : ((ofSchema usersWithPosts).table? "user").map (·.relations) = some ["Post"] := by
    decide
  have hr' : ((ofSchema usersWithComments).table? "user").map (·.relations) =
      some ["Comment", "Post"] := by decide
  obtain ⟨added, ha, hs⟩ := names_survive_appending usersWithPosts "comment"
    (Schema.sampleTable [] ["post"]) hn
  change (ofSchema usersWithComments).table? "comment" = some added at ha
  rw [ha] at hm
  obtain ⟨t, t', ht, ht', hk, hf⟩ := hs "user" hu
  change (ofSchema usersWithComments).table? "user" = some t' at ht'
  rw [ht] at hr
  rw [ht'] at hr'
  have hc : added.marker = "Comment" := Option.some.inj hm
  rw [hc] at hk hf
  exact ⟨⟨hn, hu, hx⟩, t, t', ht, ht', Option.some.inj hr, Option.some.inj hr', hk, hf hx⟩

-- The marker of a table takes away the identifier that a type of fields would have had.
example : ((ofSchema (usersWithPosts.withTable "user field" {})).table? "user").map (·.fieldType) =
    some "UserField2" := by decide

end Catalog

end NestedSelection
