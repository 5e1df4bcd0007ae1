import NestedSelection.Proofs.Allowed
import NestedSelection.Proofs.Grammar
import NestedSelection.Schema.Sample

/-! # What strict compilation gives out

For a schema with safe names the strict policy gives out exactly the sentences of the grammar that
the schema allows. Names need not be safe in the selection: those that pass the check are names of
the schema. Every such sentence is reached by the selection that follows its outline.
-/

namespace NestedSelection

namespace Schema

def SafeNames (s : Schema) : Prop :=
  ∀ e ∈ s.tables.entries, SafeName e.1 ∧ ∀ n ∈ e.2.fieldNames, SafeName n

instance : DecidablePred SafeNames := fun s => by
  unfold SafeNames
  infer_instance

variable {s : Schema} {table name : String}

theorem SafeNames.safe_table (h : s.SafeNames) (hc : s.contains name = true) : SafeName name := by
  obtain ⟨t, ht⟩ := contains_iff.1 hc
  exact (h _ (table?_eq_some_iff.1 ht)).1

theorem SafeNames.safe_field (h : s.SafeNames) (hf : s.hasField table name = true) :
    SafeName name := by
  obtain ⟨t, ht, hn⟩ := hasField_iff.1 hf
  exact (h _ (table?_eq_some_iff.1 ht)).2 name hn

end Schema

namespace Outline

theorem Allowed.safe {s : Schema} {table : String} {o : Outline} (hs : s.SafeNames)
    (h : o.Allowed s table) : o.Safe := by
  induction h with
  | node hf hl _ ih =>
    refine ⟨⟨fun n hn => hs.safe_field (hf n hn), fun r hr => ?_⟩, ih⟩
    obtain ⟨e, he, rfl⟩ := List.mem_map.1 hr
    exact hs.safe_table (hl e he).1

end Outline

namespace Selection

/--
Strict compilation gives out a text for a table if and only if the table is known and the text is a
sentence that names no field and no relation twice in one place, and that selects from each table
only fields of its rows and only tables of the schema that reference it or are referenced by it.
-/
theorem compile_strict_iff_sentence {s : Schema} (hs : s.SafeNames) (table text : String) :
    (∃ c : Selection, c.WellFormed ∧ c.compile .strict s table = .ok text) ↔
    s.contains table = true ∧
      ∃ o, Sentence text o ∧ o.Distinct ∧ o.Allowed s table := by
  constructor
  · rintro ⟨c, hw, hc⟩
    obtain ⟨⟨hk, ha⟩, rfl⟩ := compile_strict_eq_ok_iff.1 hc
    exact ⟨hk, c.outline, sentence_query (ha.safe hs), hw.distinct_outline, ha⟩
  · rintro ⟨hk, o, ht, hd, ha⟩
    have ho : o.selection.outline = o := Outline.outline_selection hd
    refine ⟨o.selection, o.wellFormed_selection, compile_strict_eq_ok_iff.2 ⟨⟨hk, ?_⟩, ?_⟩⟩
    · rwa [ho]
    · rw [← ho] at ht
      exact ht.eq_query.symm

theorem compile_strict_sample : Schema.sample.SafeNames ∧
    (∃ c : Selection, c.WellFormed ∧
      c.compile .strict Schema.sample "User" = .ok "id,Comment(body,User(*))") ∧
    ∃ o, Sentence "id,Comment(body,User(*))" o ∧ o.Distinct ∧ o.Allowed Schema.sample "User" := by
  have hs : Schema.sample.SafeNames := by decide
  have hc : ∃ c : Selection, c.WellFormed ∧
      c.compile .strict Schema.sample "User" = .ok "id,Comment(body,User(*))" := by
    refine ⟨(all.field "id").nest "Comment" ((all.field "body").nest "User" all), ?_, by decide⟩
    exact .nest (.setField .all _ _) _ (.nest (.setField .all _ _) _ .all)
  obtain ⟨-, ho⟩ := (compile_strict_iff_sentence hs _ _).1 hc
  exact ⟨hs, hc, ho⟩

end Selection

end NestedSelection
