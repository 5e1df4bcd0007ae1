import NestedSelection.Proofs.Outline
import NestedSelection.Proofs.Violations

/-! # Allowed outlines

What a schema allows to be selected of a table: its own fields, and below them what may be selected
of the tables that a foreign key joins to it. A selection passes the check exactly if its table is
known and the schema allows its outline.
-/

namespace NestedSelection

namespace Outline

/-- The schema allows this to be selected of a table. -/
inductive Allowed (s : Schema) : String → Outline → Prop
  | node {table : String} {o : Outline} :
      (∀ n ∈ o.fields, s.hasField table n = true) →
      (∀ e ∈ o.relations, s.contains e.1 = true ∧ s.Linked table e.1) →
      (∀ e ∈ o.relations, Allowed s e.1 e.2) → Allowed s table o

end Outline

namespace Selection

open Outline

variable {s : Schema} {table : String} {c child : Selection}

theorem allowed_outline_iff : c.outline.Allowed s table ↔
    (∀ n ∈ c.selectedFields, s.hasField table n = true) ∧
    ∀ e ∈ c.includes, (s.contains e.1 = true ∧ s.Linked table e.1) ∧ e.2.outline.Allowed s e.1 := by
  constructor
  · rintro ⟨hf, hl, ha⟩
    rw [fields_outline] at hf
    rw [relations_outline, List.forall_mem_map] at hl ha
    exact ⟨hf, fun e he => ⟨hl e he, ha e he⟩⟩
  · rintro ⟨hf, hc⟩
    refine .node ?_ ?_ ?_
    · rwa [fields_outline]
    · rw [relations_outline, List.forall_mem_map]
      exact fun e he => (hc e he).1
    · rw [relations_outline, List.forall_mem_map]
      exact fun e he => (hc e he).2

theorem allowed_all : all.outline.Allowed s table := by
  refine allowed_outline_iff.2 ⟨?_, ?_⟩
  · intro n hn
    cases hn
  · intro e he
    cases he

theorem allowed_field {name : String} (h : c.outline.Allowed s table)
    (hn : s.hasField table name = true) : (c.field name).outline.Allowed s table := by
  obtain ⟨hf, hc⟩ := allowed_outline_iff.1 h
  refine allowed_outline_iff.2 ⟨fun n hm => ?_, hc⟩
  rcases mem_selectedFields_setField hm with rfl | hm
  · exact hn
  · exact hf n hm

theorem allowed_nest {relation : String} (h : c.outline.Allowed s table)
    (hr : s.contains relation = true) (hl : s.Linked table relation)
    (hc : child.outline.Allowed s relation) : (c.nest relation child).outline.Allowed s table := by
  obtain ⟨hf, hs⟩ := allowed_outline_iff.1 h
  refine allowed_outline_iff.2 ⟨hf, fun e he => ?_⟩
  rcases Entries.mem_insert he with rfl | he
  · exact ⟨⟨hr, hl⟩, hc⟩
  · exact hs e he

theorem report_eq_ok_iff {l : List Violation} : Violation.report l = .ok () ↔ l = [] := by
  cases l with
  | nil => simp [Violation.report]
  | cons v l => simp [Violation.report]

theorem childViolations_eq_nil_iff {path : List String} {children : List (String × Selection)} :
    childViolations s path table children = [] ↔
      ∀ e ∈ children, (s.available table).contains e.1 = true ∧
        e.2.violations s (path ++ [e.1]) e.1 = [] := by
  induction children with
  | nil => simp [childViolations]
  | cons e children ih =>
    obtain ⟨relation, child⟩ := e
    rw [childViolations, List.append_eq_nil_iff, ih, List.forall_mem_cons]
    by_cases ha : (s.available table).contains relation = true
    · rw [if_pos ha, and_iff_right ha]
    · simp [ha]

theorem violations_eq_nil_iff {path : List String} :
    c.violations s path table = [] ↔ c.outline.Allowed s table := by
  induction c generalizing path table with
  | node select nested ih =>
    rw [violations_eq, List.append_eq_nil_iff, List.map_eq_nil_iff, List.filter_eq_nil_iff,
      childViolations_eq_nil_iff, allowed_outline_iff]
    refine and_congr ?_ (forall₂_congr fun e he => ?_)
    · simp
    · rw [ih e he, Schema.available_contains_iff]

/-- A selection passes the check exactly if its table is known and its outline is allowed. -/
theorem check_eq_ok_iff :
    c.check s table = .ok () ↔ s.contains table = true ∧ c.outline.Allowed s table := by
  cases hk : s.contains table with
  | false =>
    rw [check_unknown hk]
    simp
  | true =>
    rw [check_eq_report hk, report_eq_ok_iff, violations_eq_nil_iff]
    simp

theorem compile_strict_eq_ok_iff {text : String} : c.compile .strict s table = .ok text ↔
    (s.contains table = true ∧ c.outline.Allowed s table) ∧ c.query = text := by
  rw [← check_eq_ok_iff, compile]
  cases c.check s table with
  | error v => simp [Except.map]
  | ok _ => simp [Except.map]

end Selection

end NestedSelection
