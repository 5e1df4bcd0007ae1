import NestedSelection.Proofs.Indistinguishable
import NestedSelection.Proofs.ItemTokens
import NestedSelection.Proofs.ModuleItems

/-! # Reading a generated module back

A generated module consists of one block of items for each table of the schema, in document order.
It names tables by their markers and columns by variants, and says once which table or column each
of them stands for. A reader that looks these names up gets back what the schema says of its tables,
and no more: two schemas have the same module exactly if their tables, the fields of these and what
may be nested under each are the same, in the same order.
-/

namespace NestedSelection

theorem findSome?_eq_some_of_unique {α β : Type} {f : α → Option β} {l : List α} {a : α} {b : β}
    (ha : a ∈ l) (hb : f a = some b) (hu : ∀ a' ∈ l, ∀ b', f a' = some b' → b' = b) :
    l.findSome? f = some b := by
  cases h : l.findSome? f with
  | none => exact absurd (hb.symm.trans (List.findSome?_eq_none_iff.1 h a ha)) (by simp)
  | some b' =>
    obtain ⟨a', ha', hb'⟩ := List.exists_of_findSome?_eq_some h
    rw [hu a' ha' b' hb']

theorem flatMap_ite_of_nodup {α β : Type} {key : α → String} {f : α → List β} {l : List α} {a : α}
    (h : (l.map key).Nodup) (ha : a ∈ l) :
    (l.flatMap fun x => if key x = key a then f x else []) = f a := by
  obtain ⟨before, after, rfl⟩ := List.append_of_mem ha
  rw [List.map_append, List.map_cons, List.nodup_middle, ← List.map_append] at h
  have hn : ∀ x ∈ before ++ after, (if key x = key a then f x else []) = [] := by
    intro x hx
    refine if_neg fun he => (List.nodup_cons.1 h).1 ?_
    exact he ▸ List.mem_map_of_mem hx
  rw [List.flatMap_append, List.flatMap_cons, if_pos rfl,
    List.flatMap_eq_nil_iff.2 fun x hx => hn x (List.mem_append_left _ hx),
    List.flatMap_eq_nil_iff.2 fun x hx => hn x (List.mem_append_right _ hx), List.nil_append,
    List.append_nil]

namespace Code

/-- The items of the table of a name, in their order. -/
inductive Block (name : String) : List Item → Prop
  | intro (marker fieldType : String) (columns : List TypedColumn) (related : List String) :
      Block name (.unitStruct name marker ::
        .fieldEnum name fieldType (columns.map (·.variant)) ::
        .fieldImpl fieldType columns ::
        .tableImpl marker name fieldType ::
        related.map fun r => .includableImpl r marker)

namespace Item

def table? : Item → Option (String × String × String)
  | .tableImpl marker name fieldType => some (marker, name, fieldType)
  | _ => none

def nameOf? (marker : String) : Item → Option String
  | .tableImpl m name _ => if m = marker then some name else none
  | _ => none

def variantsOf? (type : String) : Item → Option (List String)
  | .fieldEnum _ t variants => if t = type then some variants else none
  | _ => none

def columnsOf? (type : String) : Item → Option (List TypedColumn)
  | .fieldImpl t columns => if t = type then some columns else none
  | _ => none

def relatedTo? (marker : String) : Item → Option String
  | .includableImpl related m => if m = marker then some related else none
  | _ => none

theorem nameOf?_eq_some_iff {marker name : String} {i : Item} :
    i.nameOf? marker = some name ↔ ∃ fieldType, i = .tableImpl marker name fieldType := by
  cases i <;> simp [nameOf?]

theorem variantsOf?_eq_some_iff {type : String} {variants : List String} {i : Item} :
    i.variantsOf? type = some variants ↔ ∃ name, i = .fieldEnum name type variants := by
  cases i <;> simp [variantsOf?]

theorem columnsOf?_eq_some_iff {type : String} {columns : List TypedColumn} {i : Item} :
    i.columnsOf? type = some columns ↔ i = .fieldImpl type columns := by
  cases i <;> simp [columnsOf?]

end Item

/-- The columns of a field type: for each of its variants what the match gives. -/
def readColumns (items : List Item) (type : String) : Option (List String) :=
  match items.findSome? (Item.variantsOf? type), items.findSome? (Item.columnsOf? type) with
  | some variants, some columns =>
    variants.mapM fun v => (columns.find? fun c => c.variant == v).map (·.name)
  | _, _ => none

def readRelated (items : List Item) (marker : String) : Option (List String) :=
  (items.filterMap (Item.relatedTo? marker)).mapM fun related =>
    items.findSome? (Item.nameOf? related)

def readTable (items : List Item) (marker name fieldType : String) : Option TableSummary :=
  match readColumns items fieldType, readRelated items marker with
  | some columns, some related => some ⟨name, columns, related⟩
  | _, _ => none

/-- What the items of a module say of tables, unless something that they name is not found. -/
def readTables (items : List Item) : Option (List TableSummary) :=
  (items.filterMap Item.table?).mapM fun e => readTable items e.1 e.2.1 e.2.2

end Code

open Code

namespace TypedTable

theorem block_items (t : TypedTable) : Block t.name t.items := .intro ..

theorem filterMap_table?_items (t : TypedTable) :
    t.items.filterMap Item.table? = [(t.marker, t.name, t.fieldType)] := by
  have hr : (t.relations.map fun r => Item.includableImpl r t.marker).filterMap Item.table? =
      [] := by
    simp [Item.table?]
  rw [items, List.filterMap_append, hr]
  rfl

theorem filterMap_relatedTo?_items (t : TypedTable) (marker : String) :
    t.items.filterMap (Item.relatedTo? marker) = if t.marker = marker then t.relations else [] := by
  have hr : (t.relations.map fun r => Item.includableImpl r t.marker).filterMap
      (Item.relatedTo? marker) = if t.marker = marker then t.relations else [] := by
    split
    · rename_i hm
      simp [Function.comp_def, Item.relatedTo?, hm]
    · rename_i hm
      simp [Item.relatedTo?, hm]
  rw [items, List.filterMap_append, hr]
  rfl

end TypedTable

namespace Catalog

variable {s : Schema} {t : TypedTable}

theorem filterMap_table?_items (s : Schema) : (ofSchema s).items.filterMap Item.table? =
    (ofSchema s).tables.map fun t => (t.marker, t.name, t.fieldType) := by
  rw [items, List.filterMap_flatMap]
  simp only [TypedTable.filterMap_table?_items]
  exact List.map_eq_flatMap.symm

theorem filterMap_relatedTo?_items (ht : t ∈ (ofSchema s).tables) :
    (ofSchema s).items.filterMap (Item.relatedTo? t.marker) = t.relations := by
  rw [items, List.filterMap_flatMap]
  simp only [TypedTable.filterMap_relatedTo?_items]
  exact flatMap_ite_of_nodup (nodup_types s).of_append_left ht

theorem findSome?_nameOf? (ht : t ∈ (ofSchema s).tables) :
    (ofSchema s).items.findSome? (Item.nameOf? t.marker) = some t.name := by
  refine findSome?_eq_some_of_unique (a := .tableImpl t.marker t.name t.fieldType)
    (mem_items.2 ⟨t, ht, by simp [TypedTable.mem_items]⟩)
    (Item.nameOf?_eq_some_iff.2 ⟨_, rfl⟩) fun i hi name hn => ?_
  obtain ⟨fieldType, rfl⟩ := Item.nameOf?_eq_some_iff.1 hn
  obtain ⟨t', ht', hi⟩ := mem_items.1 hi
  obtain ⟨hm, rfl, -⟩ : t.marker = t'.marker ∧ name = t'.name ∧ fieldType = t'.fieldType := by
    simpa [TypedTable.mem_items] using hi
  rw [eq_of_marker_eq ht ht' hm]

theorem findSome?_variantsOf? (ht : t ∈ (ofSchema s).tables) :
    (ofSchema s).items.findSome? (Item.variantsOf? t.fieldType) =
      some (t.columns.map (·.variant)) := by
  refine findSome?_eq_some_of_unique
    (a := .fieldEnum t.name t.fieldType (t.columns.map (·.variant)))
    (mem_items.2 ⟨t, ht, by simp [TypedTable.mem_items]⟩)
    (Item.variantsOf?_eq_some_iff.2 ⟨_, rfl⟩) fun i hi variants hv => ?_
  obtain ⟨name, rfl⟩ := Item.variantsOf?_eq_some_iff.1 hv
  obtain ⟨t', ht', hi⟩ := mem_items.1 hi
  obtain ⟨-, hf, rfl⟩ : name = t'.name ∧ t.fieldType = t'.fieldType ∧
      variants = t'.columns.map (·.variant) := by
    simpa [TypedTable.mem_items] using hi
  rw [eq_of_fieldType_eq ht ht' hf]

theorem findSome?_columnsOf? (ht : t ∈ (ofSchema s).tables) :
    (ofSchema s).items.findSome? (Item.columnsOf? t.fieldType) = some t.columns := by
  refine findSome?_eq_some_of_unique ((fieldImpl_mem_items_iff ht).2 rfl)
    (Item.columnsOf?_eq_some_iff.2 rfl) fun i hi columns hc => ?_
  obtain rfl := Item.columnsOf?_eq_some_iff.1 hc
  exact (fieldImpl_mem_items_iff ht).1 hi

theorem readColumns_items (ht : t ∈ (ofSchema s).tables) :
    readColumns (ofSchema s).items t.fieldType = some (t.columns.map (·.name)) := by
  rw [readColumns, findSome?_variantsOf? ht, findSome?_columnsOf? ht]
  refine mapM_eq_some_iff.2 ?_
  rw [List.map_map, List.map_map]
  refine List.map_congr_left fun column hc => ?_
  rw [Function.comp_apply, find?_eq_some_of_nodup (nodup_columns ht).1 hc]
  rfl

/-- Every marker that was given out leads back to the name it was given to. -/
theorem findSome?_nameOf?_marker {name marker : String} (h : (name, marker) ∈ (markersOf s).1) :
    (ofSchema s).items.findSome? (Item.nameOf? marker) = some name := by
  obtain ⟨t, ht, rfl, rfl⟩ := exists_of_mem_markers h
  exact findSome?_nameOf? ht

theorem readRelated_items (ht : t ∈ (ofSchema s).tables) :
    readRelated (ofSchema s).items t.marker = some (s.available t.name).names := by
  rw [readRelated, filterMap_relatedTo?_items ht, mapM_eq_some_iff]
  calc t.relations.map (fun m => (ofSchema s).items.findSome? (Item.nameOf? m))
      = (t.relations.map some).map
          (·.bind fun m => (ofSchema s).items.findSome? (Item.nameOf? m)) := by
        rw [List.map_map]
        rfl
    _ = (s.available t.name).names.map some := by
      rw [map_some_relations ht, List.map_map]
      refine List.map_congr_left fun name hn => ?_
      obtain ⟨marker, hl⟩ := exists_marker hn
      rw [Function.comp_apply, hl]
      exact findSome?_nameOf?_marker (lookup_markers_iff.1 hl)

theorem map_summary_tables (s : Schema) : ((ofSchema s).tables.map fun t =>
    TableSummary.mk t.name (t.columns.map (·.name)) (s.available t.name).names) = s.summary := by
  rw [tables_ofSchema, List.map_map]
  calc _ = ((s.tables.entries.zip ((markersOf s).1.zip (fieldTypesOf s))).map Prod.fst).map
        fun e => TableSummary.mk e.1 e.2.fieldNames (s.available e.1).names := by
        rw [List.map_map]
        refine List.map_congr_left fun x _ => ?_
        rw [Function.comp_apply, Function.comp_apply, ← map_name_columnsOf]
        rfl
    _ = s.summary := by
      rw [List.map_fst_zip (Nat.le_of_eq (length_zip_fieldTypesOf s))]
      rfl

/-- The reader gets back what the schema says. -/
theorem readTables_items (s : Schema) : readTables (ofSchema s).items = some s.summary := by
  rw [readTables, filterMap_table?_items, mapM_eq_some_iff, ← map_summary_tables, List.map_map,
    List.map_map]
  refine List.map_congr_left fun t ht => ?_
  rw [Function.comp_apply, readTable, readColumns_items ht, readRelated_items ht]
  rfl

theorem exists_blocks (s : Schema) : ∃ blocks, (ofSchema s).items = blocks.flatten ∧
    List.Forall₂ Block s.tableNames blocks := by
  refine ⟨(ofSchema s).tables.map TypedTable.items, List.flatMap_def, ?_⟩
  rw [← names_ofSchema, List.forall₂_map_left_iff, List.forall₂_map_right_iff, List.forall₂_same]
  exact fun t _ => t.block_items

/-- Tables and columns whose names give the same identifier are told apart. -/
example : readTables (ofSchema (({} : Schema)
    |>.withTable "user" (Schema.sampleTable ["id", "Id"] ["User"])
    |>.withTable "User" {})).items =
    some [⟨"user", ["id", "Id"], ["User"]⟩, ⟨"User", [], ["user"]⟩] := by
  decide

end Catalog

end NestedSelection
