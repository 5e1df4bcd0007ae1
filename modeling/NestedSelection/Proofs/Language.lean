import NestedSelection.Proofs.Grammar

/-! # The language of query expressions

Which texts are the expression of some selection. As long as its names are safe, any selection gives
a sentence of the grammar, however its parts were left out, left empty or filled with fields that
are not wanted; and since names are entered once, the sentence repeats none in one place. In the
other direction a sentence without repetitions is the expression of the selection that follows it.
-/

namespace NestedSelection

namespace Selection

variable {s : Selection}

/-- All names can be told from the other signs of an expression, those of unwanted fields too. -/
inductive SafeNames : Selection → Prop
  | node {s : Selection} : (∀ n ∈ Entries.keys s.flags, SafeName n) →
      (∀ r ∈ Entries.keys s.includes, SafeName r) → (∀ e ∈ s.includes, SafeNames e.2) → SafeNames s

theorem SafeNames.safe_outline (h : s.SafeNames) : s.outline.Safe := by
  induction h with
  | @node s hf hr _ ih =>
    refine ⟨⟨fun n hn => ?_, fun r hm => ?_⟩, ?_⟩
    · rw [fields_outline] at hn
      exact hf n (s.selectedFields_sublist.subset hn)
    · rw [keys_relations_outline] at hm
      exact hr r hm
    · rwa [relations_outline, List.forall_mem_map]

end Selection

namespace Outline

open Selection

theorem Safe.safeNames_selection {o : Outline} (h : o.Safe) : o.selection.SafeNames := by
  induction h with
  | @node o hp _ ih =>
    obtain ⟨fields, relations⟩ := o
    obtain ⟨hf, hr⟩ : (∀ n ∈ fields, SafeName n) ∧ ∀ r ∈ Entries.keys relations, SafeName r := hp
    have hs : ∀ e ∈ selections relations, SafeName e.1 ∧ e.2.SafeNames := by
      rw [selections_eq_map, List.forall_mem_map]
      exact fun e he => ⟨hr _ (Entries.mem_keys he), ih e he⟩
    have hi : ∀ e ∈ (selection (.node fields relations)).includes,
        SafeName e.1 ∧ e.2.SafeNames := by
      intro e he
      rw [selection, includes_nestAll, includes_fieldAll] at he
      exact hs e (Entries.mem_ofList he)
    refine ⟨fun n hn => ?_, fun r hm => ?_, fun e he => (hi e he).2⟩
    · obtain ⟨_, hw⟩ := Entries.exists_of_mem_keys hn
      rw [selection, flags_nestAll, flags_fieldAll] at hw
      obtain ⟨_, hm, he⟩ := List.mem_map.1 (Entries.mem_ofList hw)
      cases he
      exact hf _ hm
    · obtain ⟨child, he⟩ := Entries.exists_of_mem_keys hm
      exact (hi _ he).1

end Outline

namespace Selection

/--
The expressions of the selections with safe names are exactly the sentences of the grammar that name
no field and no relation twice in one place.
-/
theorem query_language (text : String) :
    (∃ s : Selection, s.WellFormed ∧ s.SafeNames ∧ s.query = text) ↔
      ∃ o, Sentence text o ∧ o.Distinct := by
  constructor
  · rintro ⟨s, hw, hs, rfl⟩
    exact ⟨s.outline, sentence_query hs.safe_outline, hw.distinct_outline⟩
  · rintro ⟨o, ht, hd⟩
    have ho : o.selection.outline = o := Outline.outline_selection hd
    refine ⟨o.selection, o.wellFormed_selection, ?_, ?_⟩
    · exact (sentence_iff.1 ht).1.safeNames_selection
    · rw [← ho] at ht
      exact ht.eq_query.symm

end Selection

end NestedSelection
