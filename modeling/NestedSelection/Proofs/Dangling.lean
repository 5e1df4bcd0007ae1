import NestedSelection.Proofs.Indistinguishable

/-! # Foreign keys that lead nowhere

Foreign keys without a target, or with one that is no table of the schema, relate no tables to each
other, so they could be taken out of the schema. Whoever asks for the relations of a known table
cannot tell the difference. But the tables that reference a name are found by the name in their
foreign keys, whether or not there is a table of that name: for a name that is no table and that a
foreign key references all the same, the lookup answers with the tables of such keys.
-/

namespace NestedSelection

namespace NameSet

theorem eq_empty_iff {s : NameSet} : s = .empty ↔ ∀ name, name ∉ s.names := by
  constructor
  · rintro rfl name hn
    cases hn
  · intro h
    exact eq_of_mem_iff fun name => iff_of_false (h name) List.not_mem_nil

end NameSet

def Table.resolved (s : Schema) (t : Table) : Table :=
  { t with relationships := t.relationships.filter fun r => r.referencedTable.any s.contains }

namespace Schema

variable {s : Schema} {table a b : String}

/-- The schema without the foreign keys that lead nowhere. -/
def resolved (s : Schema) : Schema where
  tables := ⟨s.tables.entries.mapValues (Table.resolved s), by simpa using s.tables.distinct⟩

/-- No table of the schema, and all the same the target of a foreign key. -/
def Dangling (s : Schema) (name : String) : Prop :=
  s.contains name = false ∧ ∃ table, s.References table name

theorem table?_resolved (name : String) :
    s.resolved.table? name = (s.table? name).map (Table.resolved s) :=
  Entries.get?_mapValues

theorem contains_resolved (name : String) : s.resolved.contains name = s.contains name := by
  rw [Bool.eq_iff_iff, contains_iff, contains_iff, table?_resolved]
  simp

theorem hasField_resolved (table name : String) :
    s.resolved.hasField table name = s.hasField table name := by
  rw [hasField, hasField, table?_resolved, Option.any_map]
  rfl

theorem references_resolved_iff :
    s.resolved.References a b ↔ s.References a b ∧ s.contains b = true := by
  rw [References, References, table?_resolved]
  constructor
  · rintro ⟨_, hm, r, hr, hb⟩
    obtain ⟨t, ht, rfl⟩ := Option.map_eq_some_iff.1 hm
    obtain ⟨hr, hc⟩ := List.mem_filter.1 hr
    rw [hb] at hc
    exact ⟨⟨t, ht, r, hr, hb⟩, hc⟩
  · rintro ⟨⟨t, ht, r, hr, hb⟩, hc⟩
    refine ⟨t.resolved s, by rw [ht, Option.map_some], r, List.mem_filter.2 ⟨hr, ?_⟩, hb⟩
    rw [hb]
    exact hc

theorem sameRelations_resolved (s : Schema) : s.SameRelations s.resolved where
  tables name := (contains_resolved name).symm
  fields table name := (hasField_resolved table name).symm
  targets _ _ hn := by rw [references_resolved_iff, and_iff_left hn]

theorem forward_eq_empty (h : s.contains table = false) : s.forward table = .empty := by
  refine NameSet.eq_empty_iff.2 fun name hn => ?_
  rw [(mem_forward_iff.1 hn).2.contains] at h
  cases h

theorem inverse_eq_empty_iff (h : s.contains table = false) :
    s.inverse table = .empty ↔ ¬ s.Dangling table := by
  simp only [NameSet.eq_empty_iff, mem_inverse_iff, Dangling, h, true_and, not_exists]

theorem available_eq_inverse (h : s.contains table = false) :
    s.available table = s.inverse table := by
  refine NameSet.eq_of_mem_iff fun name => ?_
  rw [available, NameSet.mem_names_union, forward_eq_empty h]
  exact or_iff_right List.not_mem_nil

theorem not_dangling_resolved (s : Schema) (table : String) : ¬ s.resolved.Dangling table := by
  rintro ⟨hc, _, hr⟩
  rw [contains_resolved, (references_resolved_iff.1 hr).2] at hc
  cases hc

theorem inverse_resolved_eq_empty (h : s.contains table = false) :
    s.resolved.inverse table = .empty :=
  (inverse_eq_empty_iff ((contains_resolved table).trans h)).2 (s.not_dangling_resolved table)

theorem inverse_eq_resolved_iff :
    s.inverse table = s.resolved.inverse table ↔ ¬ s.Dangling table := by
  cases h : s.contains table with
  | true =>
    refine iff_of_true (s.sameRelations_resolved.inverse_eq h) ?_
    rintro ⟨hc, -⟩
    rw [h] at hc
    cases hc
  | false => rw [inverse_resolved_eq_empty h, inverse_eq_empty_iff h]

theorem available_eq_resolved_iff :
    s.available table = s.resolved.available table ↔ ¬ s.Dangling table := by
  rw [← inverse_eq_resolved_iff]
  cases h : s.contains table with
  | true =>
    exact iff_of_true (s.sameRelations_resolved.available_eq h)
      (s.sameRelations_resolved.inverse_eq h)
  | false =>
    rw [available_eq_inverse h, available_eq_inverse ((contains_resolved table).trans h)]

/--
Foreign keys that lead nowhere never show among the tables that a table references. Among those
that reference it, and so among all that may be nested under it, they show exactly for the names
they lead to: names that are no table of the schema. Such a name should have no relations at all,
and has those of the tables that reference it.
-/
theorem resolved_indistinguishable_iff (s : Schema) (table : String) :
    s.forward table = s.resolved.forward table ∧
    (s.inverse table = s.resolved.inverse table ↔ ¬ s.Dangling table) ∧
    (s.available table = s.resolved.available table ↔ ¬ s.Dangling table) ∧
    (s.contains table = false →
      (s.forward table = .empty ∧ s.resolved.available table = .empty) ∧
      s.available table = s.inverse table ∧ (s.inverse table = .empty ↔ ¬ s.Dangling table)) := by
  refine ⟨s.sameRelations_resolved.forward_eq table, inverse_eq_resolved_iff,
    available_eq_resolved_iff, fun h => ⟨⟨forward_eq_empty h, ?_⟩, available_eq_inverse h,
      inverse_eq_empty_iff h⟩⟩
  rw [available_eq_inverse ((contains_resolved table).trans h), inverse_resolved_eq_empty h]

def orphanedPosts : Schema := ({} : Schema).withTable "posts" (sampleTable [] ["users"])

theorem resolved_indistinguishable_orphanedPosts :
    (orphanedPosts.contains "users" = false ∧ orphanedPosts.Dangling "users") ∧
    orphanedPosts.inverse "users" ≠ orphanedPosts.resolved.inverse "users" ∧
    (orphanedPosts.inverse "posts" = orphanedPosts.resolved.inverse "posts") ∧
    orphanedPosts.available "users" = orphanedPosts.inverse "users" := by
  have hc : orphanedPosts.contains "users" = false := by decide
  have hd : orphanedPosts.Dangling "users" := by
    refine ⟨hc, "posts", mem_inverse_iff.1 ?_⟩
    decide
  have hp : ¬ orphanedPosts.Dangling "posts" := fun h => absurd h.1 (by decide)
  obtain ⟨-, hi, -, hu⟩ := resolved_indistinguishable_iff orphanedPosts "users"
  obtain ⟨-, hi', -⟩ := resolved_indistinguishable_iff orphanedPosts "posts"
  exact ⟨⟨hc, hd⟩, fun h => hi.1 h hd, hi'.2 hp, (hu hc).2.1⟩

/-- Users are no table, and the lookup gives them a relation that the foreign key does not make. -/
theorem inverse_orphanedPosts :
    ¬ ∀ (s : Schema) (table : String), s.forward table = s.resolved.forward table ∧
      s.inverse table = s.resolved.inverse table ∧
      s.available table = s.resolved.available table := by
  intro h
  have hi : orphanedPosts.inverse "users" = ⟨["posts"], by decide⟩ := by decide
  have hr : orphanedPosts.resolved.inverse "users" = .empty := by decide
  obtain ⟨-, he, -⟩ := h orphanedPosts "users"
  rw [hi, hr] at he
  exact absurd (congrArg NameSet.names he) (by decide)

end Schema

end NestedSelection
