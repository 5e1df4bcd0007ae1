import NestedSelection.Proofs.Violations

/-! # One selection under two schemas

A selection is checked under two schemas. If both answer the same wherever the check asks them, node
by node, then all violations are the same, and so is the one that is reported. What is compared of
a violation is left open, since the list of valid relations in it may tell more of a schema than
the selection has to do with.
-/

namespace NestedSelection

variable {β : Type}

theorem Violation.mapError_report_congr {f : Violation → β} {l r : List Violation}
    (h : l.map f = r.map f) : (report l).mapError f = (report r).mapError f := by
  cases l with
  | nil =>
    obtain rfl : r = [] := by simpa using h
    rfl
  | cons v l =>
    cases r with
    | nil => simp at h
    | cons w r =>
      have hv : f v = f w := by simpa using (List.cons.inj h).1
      simp [report, Except.mapError, hv]

namespace Selection

variable {s s' : Schema} {table : String} {c : Selection} {f : Violation → β}
  {I : String → Selection → Prop}

theorem childViolations_eq_flatMap (s : Schema) (path : List String) (table : String)
    (children : List (String × Selection)) :
    childViolations s path table children = children.flatMap fun e =>
      if (s.available table).contains e.1 then e.2.violations s (path ++ [e.1]) e.1
      else [.invalidRelation (".".intercalate path) table e.1 (s.available table)] := by
  induction children with
  | nil => rfl
  | cons e children ih => rw [childViolations, ih, List.flatMap_cons]

/--
Two schemas cannot be told apart where an invariant of tables and their selections holds, which is
kept on the way down: the same names are fields, the same nested tables are related, and what is
kept of a report is the same.
-/
structure Alike (s s' : Schema) (f : Violation → β) (I : String → Selection → Prop) : Prop where
  fields : ∀ {table c}, I table c → ∀ name, s.hasField table name = s'.hasField table name
  relations : ∀ {table c}, I table c → ∀ e ∈ c.includes,
    (s.available table).contains e.1 = (s'.available table).contains e.1
  reports : ∀ {table c}, I table c → ∀ path relation,
    f (.invalidRelation path table relation (s.available table)) =
      f (.invalidRelation path table relation (s'.available table))
  down : ∀ {table c}, I table c → ∀ e ∈ c.includes,
    (s.available table).contains e.1 = true → I e.1 e.2

namespace Alike

theorem map_violations_eq (h : Alike s s' f I) {path : List String} (hc : I table c) :
    (c.violations s path table).map f = (c.violations s' path table).map f := by
  induction c generalizing path table with
  | node select nested ih =>
    have hf : (fun name => !s.hasField table name) = fun name => !s'.hasField table name :=
      funext fun name => by rw [h.fields hc]
    rw [violations_eq, violations_eq, hf, List.map_append, List.map_append,
      childViolations_eq_flatMap, childViolations_eq_flatMap, List.map_flatMap, List.map_flatMap]
    congr 1
    refine List.flatMap_congr fun e he => ?_
    rw [← h.relations hc e he]
    split
    · rename_i ha
      exact ih e he (h.down hc e he ha)
    · simpa using h.reports hc _ e.1

/-- Whatever is kept of a report, the check of a table keeps the same under both schemas. -/
theorem mapError_check_eq (h : Alike s s' f I) (hk : s.contains table = s'.contains table)
    (hc : s.contains table = true → I table c) :
    (c.check s table).mapError f = (c.check s' table).mapError f := by
  cases ht : s.contains table with
  | false => rw [check_unknown ht, check_unknown (hk ▸ ht)]
  | true =>
    rw [check_eq_report ht, check_eq_report (hk ▸ ht)]
    exact Violation.mapError_report_congr (h.map_violations_eq (hc ht))

end Alike

/-- Compiling says no more of a schema than checking does. -/
theorem mapError_compile_congr
    (h : (c.check s table).mapError f = (c.check s' table).mapError f) (policy : Policy) :
    (c.compile policy s table).mapError f = (c.compile policy s' table).mapError f := by
  have hm : ∀ x : Except Violation Unit,
      (x.map fun _ => c.query).mapError f = (x.mapError f).map fun _ => c.query := by
    intro x
    cases x <;> rfl
  cases policy with
  | permissive => rfl
  | strict => rw [compile, compile, hm, hm, h]

end Selection

end NestedSelection
