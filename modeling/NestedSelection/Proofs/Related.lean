import NestedSelection.Proofs.Entries
import NestedSelection.Relations

/-! # Related tables

What a schema says of a table. Its fields are those of its rows. The tables that may be nested under
it are said in terms of the foreign keys alone: the tables of the schema that one end of a foreign
key joins to the given table at the other end.
-/

namespace NestedSelection

namespace Schema

variable {s : Schema} {table name : String} {t : Table}

/-- A table of the schema holds a foreign key that references a table of the given name. -/
def References (s : Schema) (table name : String) : Prop :=
  ∃ t, s.table? table = some t ∧ ∃ r ∈ t.relationships, r.referencedTable = some name

def Linked (s : Schema) (a b : String) : Prop := s.References a b ∨ s.References b a

theorem table?_eq_some_iff : s.table? name = some t ↔ (name, t) ∈ s.tables.entries :=
  OrderedMap.get?_eq_some_iff

theorem contains_iff : s.contains name = true ↔ ∃ t, s.table? name = some t := by
  simp only [table?_eq_some_iff]
  exact OrderedMap.contains_iff.trans OrderedMap.mem_keys_iff

theorem table?_withTable (s : Schema) (t : Table) (a b : String) :
    (s.withTable a t).table? b = if b = a then some t else s.table? b :=
  Entries.get?_insert b

theorem References.contains (h : s.References table name) : s.contains table = true := by
  obtain ⟨t, ht, -⟩ := h
  exact contains_iff.2 ⟨t, ht⟩

theorem mem_forward_iff :
    name ∈ (s.forward table).names ↔ s.contains name = true ∧ s.References table name := by
  unfold forward References
  cases s.table? table with
  | none => simp [NameSet.empty]
  | some t =>
    rw [NameSet.mem_names_ofList, List.mem_filterMap]
    constructor
    · rintro ⟨r, hr, ht⟩
      obtain ⟨hn, hc⟩ := Option.filter_eq_some_iff.1 ht
      exact ⟨hc, t, rfl, r, hr, hn⟩
    · rintro ⟨hc, _, ht, r, hr, hn⟩
      obtain rfl := Option.some.inj ht
      exact ⟨r, hr, Option.filter_eq_some_iff.2 ⟨hn, hc⟩⟩

theorem mem_inverse_iff : name ∈ (s.inverse table).names ↔ s.References name table := by
  rw [inverse, NameSet.mem_names_ofList, List.mem_map]
  constructor
  · rintro ⟨⟨n, t⟩, he, rfl⟩
    obtain ⟨hm, hr⟩ := List.mem_filter.1 he
    obtain ⟨r, hr, hn⟩ := List.any_eq_true.1 hr
    exact ⟨t, table?_eq_some_iff.2 hm, r, hr, eq_of_beq hn⟩
  · rintro ⟨t, ht, r, hr, hn⟩
    refine ⟨(name, t), List.mem_filter.2 ⟨table?_eq_some_iff.1 ht, ?_⟩, rfl⟩
    exact List.any_eq_true.2 ⟨r, hr, beq_iff_eq.2 hn⟩

theorem mem_available_iff :
    name ∈ (s.available table).names ↔ s.contains name = true ∧ s.Linked table name := by
  rw [available, NameSet.mem_names_union, mem_forward_iff, mem_inverse_iff]
  constructor
  · rintro (⟨hc, hr⟩ | hr)
    · exact ⟨hc, .inl hr⟩
    · exact ⟨hr.contains, .inr hr⟩
  · rintro ⟨hc, hr | hr⟩
    · exact .inl ⟨hc, hr⟩
    · exact .inr hr

theorem available_contains_iff :
    (s.available table).contains name = true ↔ s.contains name = true ∧ s.Linked table name := by
  rw [← mem_available_iff, NameSet.contains, List.contains_iff_mem]

def hasField (s : Schema) (table name : String) : Bool :=
  (s.table? table).any fun t => t.hasField name

theorem hasField_eq (h : s.table? table = some t) (name : String) :
    s.hasField table name = t.hasField name := by
  rw [hasField, h]
  rfl

theorem hasField_iff : s.hasField table name = true ↔
    ∃ t, s.table? table = some t ∧ name ∈ t.fieldNames := by
  unfold hasField
  cases s.table? table with
  | none => simp
  | some t =>
    have h : t.hasField name = true ↔ name ∈ t.fieldNames := OrderedMap.contains_iff
    simpa using h

end Schema

end NestedSelection
