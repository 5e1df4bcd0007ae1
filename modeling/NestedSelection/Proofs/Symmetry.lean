import Mathlib.Data.List.Chain
import NestedSelection.Proofs.Chains
import NestedSelection.Proofs.ModuleItems

/-! # Relations go both ways

The tables that a table references are looked up among the tables of the schema, while the tables
that reference it are found by the name in their foreign keys. The two agree on known tables. So
known tables can be nested under each other or not at all, and a chain of tables, each nested under
the one before it, can be turned round.
-/

namespace NestedSelection

namespace Schema

variable {s : Schema} {a b : String}

theorem linked_comm : s.Linked a b ↔ s.Linked b a := or_comm

/-- The inverse lookup never asks whether the name it looks for is known. -/
theorem mem_forward_iff_mem_inverse (hb : s.contains b = true) :
    b ∈ (s.forward a).names ↔ a ∈ (s.inverse b).names := by
  rw [mem_forward_iff, mem_inverse_iff]
  exact and_iff_right hb

theorem mem_available_comm (ha : s.contains a = true) (hb : s.contains b = true) :
    b ∈ (s.available a).names ↔ a ∈ (s.available b).names := by
  rw [mem_available_iff, mem_available_iff, and_iff_right ha, and_iff_right hb]
  exact linked_comm

end Schema

namespace Catalog

open Code

variable {s : Schema} {t related : TypedTable}

theorem includableImpl_mem_items_iff (ht : t ∈ (ofSchema s).tables)
    (hr : related ∈ (ofSchema s).tables) :
    .includableImpl related.marker t.marker ∈ (ofSchema s).items ↔
      related.name ∈ (s.available t.name).names := by
  rw [← marker_mem_relations_iff ht hr, mem_items]
  constructor
  · rintro ⟨t', ht', hi⟩
    obtain ⟨hm, he⟩ : related.marker ∈ t'.relations ∧ t.marker = t'.marker := by
      simpa [TypedTable.mem_items] using hi
    rwa [eq_of_marker_eq ht ht' he]
  · intro hm
    exact ⟨t, ht, by simp [TypedTable.mem_items, hm]⟩

end Catalog

namespace Selection

variable {s : Schema} {table : String} {chain : List String}

/-- Empty selections nested in each other, with the first name outermost. -/
def along : List String → Selection
  | [] => all
  | relation :: chain => all.nest relation (along chain)

def checkAlong (s : Schema) : List String → Except Violation Unit
  | [] => .ok ()
  | table :: chain => (along chain).check s table

theorem allowed_along_iff :
    (along chain).outline.Allowed s table ↔ (table :: chain).IsChain s.Nestable := by
  induction chain generalizing table with
  | nil => simp [along, allowed_all]
  | cons relation chain ih =>
    have hf : (along (relation :: chain)).selectedFields = [] := rfl
    have hi : (along (relation :: chain)).includes = [(relation, along chain)] := rfl
    rw [allowed_outline_iff, hf, hi, List.isChain_cons_cons, ← ih]
    simp [Schema.Nestable]

theorem isChain_nestable_iff :
    s.contains table = true ∧ (table :: chain).IsChain s.Nestable ↔
      (∀ name ∈ table :: chain, s.contains name = true) ∧ (table :: chain).IsChain s.Linked := by
  induction chain generalizing table with
  | nil => simp
  | cons relation chain ih =>
    rw [List.isChain_cons_cons, List.isChain_cons_cons, List.forall_mem_cons]
    constructor
    · rintro ⟨ht, ⟨hr, hl⟩, hc⟩
      obtain ⟨hk, hc⟩ := ih.1 ⟨hr, hc⟩
      exact ⟨⟨ht, hk⟩, hl, hc⟩
    · rintro ⟨⟨ht, hk⟩, hl, hc⟩
      obtain ⟨hr, hc⟩ := ih.2 ⟨hk, hc⟩
      exact ⟨ht, ⟨hr, hl⟩, hc⟩

theorem checkAlong_eq_ok_iff {names : List String} : checkAlong s names = .ok () ↔
    (∀ name ∈ names, s.contains name = true) ∧ names.IsChain s.Linked := by
  cases names with
  | nil => simp [checkAlong]
  | cons table chain =>
    rw [checkAlong, check_eq_ok_iff, allowed_along_iff, isChain_nestable_iff]

theorem checkAlong_reverse (s : Schema) (names : List String) :
    checkAlong s names.reverse = .ok () ↔ checkAlong s names = .ok () := by
  have hl : (fun a b => s.Linked b a) = s.Linked :=
    funext fun a => funext fun b => propext Schema.linked_comm
  rw [checkAlong_eq_ok_iff, checkAlong_eq_ok_iff, List.isChain_reverse, hl]
  simp only [List.mem_reverse]

/--
Nesting is symmetric. A table of the schema is referenced by another one exactly if it is found from
there by the inverse lookup, and may be nested under it exactly if it may hold it; so the generated
module lets two tables hold each other or none the other. A chain of names, known or not, passes the
check in one direction if and only if it passes in the other one.
-/
theorem nesting_symmetric (s : Schema) :
    (∀ a b, s.contains a = true → s.contains b = true →
      (b ∈ (s.forward a).names ↔ a ∈ (s.inverse b).names) ∧
      (b ∈ (s.available a).names ↔ a ∈ (s.available b).names)) ∧
    (∀ t ∈ (Catalog.ofSchema s).tables, ∀ related ∈ (Catalog.ofSchema s).tables,
      (.includableImpl related.marker t.marker ∈ (Catalog.ofSchema s).items ↔
        .includableImpl t.marker related.marker ∈ (Catalog.ofSchema s).items)) ∧
    ∀ names, checkAlong s names.reverse = .ok () ↔ checkAlong s names = .ok () := by
  refine ⟨fun a b ha hb => ?_, fun t ht related hr => ?_, checkAlong_reverse s⟩
  · exact ⟨Schema.mem_forward_iff_mem_inverse hb, Schema.mem_available_comm ha hb⟩
  · rw [Catalog.includableImpl_mem_items_iff ht hr, Catalog.includableImpl_mem_items_iff hr ht]
    exact Schema.mem_available_comm (Catalog.contains_name ht) (Catalog.contains_name hr)

/-- From organisations to the answers of their members, by way of the links between the two. -/
theorem nesting_symmetric_sample :
    (Schema.sample.contains "Comment" = true ∧ Schema.sample.contains "User" = true ∧
      "User" ∈ (Schema.sample.forward "Comment").names ∧
      "Comment" ∈ (Schema.sample.inverse "User").names ∧
      "Comment" ∈ (Schema.sample.available "User").names) ∧
    (∃ t ∈ (Catalog.ofSchema Schema.sample).tables,
      ∃ related ∈ (Catalog.ofSchema Schema.sample).tables,
        t.name = "Comment" ∧ related.name = "User" ∧
        .includableImpl related.marker t.marker ∈ (Catalog.ofSchema Schema.sample).items ∧
        .includableImpl t.marker related.marker ∈ (Catalog.ofSchema Schema.sample).items) ∧
    checkAlong Schema.sample ["Comment", "Comment", "User", "UserOrganization", "Organization"] =
      .ok () := by
  obtain ⟨hn, hi, hc⟩ := nesting_symmetric Schema.sample
  have hk : Schema.sample.contains "Comment" = true := by decide
  have hu : Schema.sample.contains "User" = true := by decide
  have hf : "User" ∈ (Schema.sample.forward "Comment").names := by decide
  have ha : "User" ∈ (Schema.sample.available "Comment").names := by decide
  obtain ⟨hv, hs⟩ := hn "Comment" "User" hk hu
  have ht : ∃ t ∈ (Catalog.ofSchema Schema.sample).tables,
      ∃ related ∈ (Catalog.ofSchema Schema.sample).tables,
        t.name = "Comment" ∧ related.name = "User" ∧
        .includableImpl related.marker t.marker ∈ (Catalog.ofSchema Schema.sample).items := by
    decide
  refine ⟨⟨hk, hu, hf, hv.1 hf, hs.1 ha⟩, ?_, (hc _).1 (by decide)⟩
  obtain ⟨t, ht, related, hr, hm, hm', himpl⟩ := ht
  exact ⟨t, ht, related, hr, hm, hm', himpl, (hi t ht related hr).1 himpl⟩

end Selection

end NestedSelection
