import NestedSelection.Proofs.Related
import NestedSelection.Proofs.Tree
import NestedSelection.Schema.Sample
import NestedSelection.Selection.Check

/-! # All violations of a selection

The check stops at the first violation. Here all of them are listed: of every node first the wanted
fields that its table does not have, then, relation by relation, the relation itself if its table
is not related to the one of the node, or else what is wrong below it. The check of a known table
reports the head of this list. An unknown table can only be found at the root, since the tables that
are gone down to are all tables of the schema.
-/

namespace NestedSelection

/-- What is reported of violations: the first one, if there are any. -/
def Violation.report : List Violation → Except Violation Unit
  | [] => .ok ()
  | v :: _ => .error v

namespace Selection

mutual

/-- The violations of a node that a path leads to, at a table of the schema. -/
def violations (s : Schema) (path : List String) (table : String) : Selection → List Violation
  | .node select nested =>
    (((node select none).selectedFields.filter fun name => !s.hasField table name).map
      fun name => .unknownField (".".intercalate path) table name) ++
        nestedViolations s path table nested

def nestedViolations (s : Schema) (path : List String) (table : String) :
    Option (List (String × Selection)) → List Violation
  | none => []
  | some children => childViolations s path table children

def childViolations (s : Schema) (path : List String) (table : String) :
    List (String × Selection) → List Violation
  | [] => []
  | (relation, child) :: rest =>
    (if (s.available table).contains relation then
      violations s (path ++ [relation]) relation child
    else [.invalidRelation (".".intercalate path) table relation (s.available table)]) ++
      childViolations s path table rest

end

/--
Going down through a selection along related tables leads from one node to another. Each node comes
with its path and its table.
-/
inductive Visits (s : Schema) :
    List String → String → Selection → List String → String → Selection → Prop
  | here {path : List String} {table : String} {c : Selection} : Visits s path table c path table c
  | down {path path' : List String} {table table' relation : String} {c child c' : Selection} :
      (relation, child) ∈ c.includes → (s.available table).contains relation = true →
      Visits s (path ++ [relation]) relation child path' table' c' →
      Visits s path table c path' table' c'

section Check

variable {s : Schema} {path path' : List String} {table table' : String} {c c' : Selection}

theorem violations_eq : c.violations s path table =
    ((c.selectedFields.filter fun name => !s.hasField table name).map
      fun name => .unknownField (".".intercalate path) table name) ++
        childViolations s path table c.includes := by
  obtain ⟨select, _ | children⟩ := c <;> rfl

theorem checkAt_eq {t : Table} (h : s.table? table = some t) : c.checkAt s path table =
    match c.selectedFields.find? fun name => !t.hasField name with
    | some name => .error (.unknownField (".".intercalate path) table name)
    | none => checkChildren s path table (s.available table) c.includes := by
  obtain ⟨select, _ | children⟩ := c <;> rw [checkAt, h] <;> rfl

theorem report_append (l r : List Violation) : Violation.report (l ++ r) =
    match Violation.report l with
    | .error v => .error v
    | .ok _ => Violation.report r := by
  cases l <;> rfl

/-- The first field that is not there heads the list of all of them. -/
theorem report_unknownFields (names : List String) (p : String → Bool) (text : String)
    (r : List Violation) :
    Violation.report (((names.filter p).map fun name => .unknownField text table name) ++ r) =
      match names.find? p with
      | some name => .error (.unknownField text table name)
      | none => Violation.report r := by
  rw [report_append, ← List.head?_filter]
  cases names.filter p <;> rfl

theorem contains_of_available {relation : String}
    (h : (s.available table).contains relation = true) : ∃ t, s.table? relation = some t :=
  Schema.contains_iff.1 (Schema.available_contains_iff.1 h).1

/-- The path is the same before each of the children, whatever was on it in between. -/
theorem checkChildren_eq_report {children : List (String × Selection)}
    (h : ∀ e ∈ children, ∀ path, (s.available table).contains e.1 = true →
      e.2.checkAt s path e.1 = (Violation.report (e.2.violations s path e.1)).map fun _ => path) :
    checkChildren s path table (s.available table) children =
      (Violation.report (childViolations s path table children)).map fun _ => path := by
  induction children with
  | nil => rfl
  | cons e children ih =>
    obtain ⟨relation, child⟩ := e
    obtain ⟨he, hs⟩ := List.forall_mem_cons.1 h
    rw [checkChildren, childViolations]
    by_cases ha : (s.available table).contains relation = true
    · rw [if_pos ha, if_pos ha, he _ ha, report_append]
      cases Violation.report (child.violations s (path ++ [relation]) relation) with
      | error v => rfl
      | ok _ =>
        change checkChildren s (path ++ [relation]).dropLast table _ children = _
        rw [List.dropLast_concat]
        exact ih hs
    · rw [if_neg ha, if_neg ha]
      rfl

/-- A check either reports the first violation or gives back the path as it was. -/
theorem checkAt_eq_report (h : s.contains table = true) :
    c.checkAt s path table =
      (Violation.report (c.violations s path table)).map fun _ => path := by
  induction c generalizing path table with
  | node select nested ih =>
    obtain ⟨t, ht⟩ := Schema.contains_iff.1 h
    have hf : (fun name => !s.hasField table name) = fun name => !t.hasField name :=
      funext fun name => by rw [Schema.hasField_eq ht]
    rw [checkAt_eq ht, violations_eq, hf, report_unknownFields]
    cases (node select nested).selectedFields.find? fun name => !t.hasField name with
    | some name => rfl
    | none =>
      exact checkChildren_eq_report fun e he path ha =>
        ih e he (Schema.contains_iff.2 (contains_of_available ha))

theorem check_unknown (h : s.contains table = false) :
    c.check s table = .error (.unknownTable table) := by
  rw [check, h]
  rfl

theorem check_eq_report (h : s.contains table = true) :
    c.check s table = Violation.report (c.violations s [table] table) := by
  rw [check, if_pos h, checkAt_eq_report h]
  cases Violation.report (c.violations s [table] table) <;> rfl

theorem unknownTable_not_mem_violations (t : String) :
    .unknownTable t ∉ c.violations s path table := by
  induction c generalizing path table with
  | node select nested ih =>
    have hc : ∀ children : List (String × Selection),
        (∀ e ∈ children, ∀ {path table}, .unknownTable t ∉ e.2.violations s path table) →
        .unknownTable t ∉ childViolations s path table children := by
      intro children
      induction children with
      | nil => exact fun _ => List.not_mem_nil
      | cons e children ihc =>
        intro h hm
        obtain ⟨he, hs⟩ := List.forall_mem_cons.1 h
        rw [childViolations] at hm
        rcases List.mem_append.1 hm with hm | hm
        · split at hm
          · exact he hm
          · simp at hm
        · exact ihc hs hm
    rw [violations_eq]
    intro hm
    rcases List.mem_append.1 hm with hm | hm
    · simp at hm
    · exact hc _ (fun e he => ih e he) hm

theorem Visits.contains (h : Visits s path table c path' table' c')
    (ht : s.contains table = true) : s.contains table' = true := by
  induction h with
  | here => exact ht
  | down _ ha _ ih => exact ih (Schema.contains_iff.2 (contains_of_available ha))

theorem Visits.getLast? (h : Visits s path table c path' table' c')
    (hp : path.getLast? = some table) : path'.getLast? = some table' := by
  induction h with
  | here => exact hp
  | down _ _ _ ih => exact ih List.getLast?_concat

end Check

/--
The check reports exactly the first of all violations, with the names of its path joined by dots. A
root that is no table of the schema is reported itself. Otherwise the result is the head of the list
of violations, which never is an unknown table: every node that is gone down to stands at a table of
the schema, the last one of its path, and if nothing is wrong with it the path is the same after it
as before.
-/
theorem check_reports_first_violation (s : Schema) (table : String) (c : Selection) :
    (s.contains table = false → c.check s table = .error (.unknownTable table)) ∧
    (s.contains table = true →
      c.check s table = Violation.report (c.violations s [table] table) ∧
      (∀ t, c.check s table ≠ .error (.unknownTable t)) ∧
      ∀ path t d, Visits s [table] table c path t d →
        s.contains t = true ∧ path.getLast? = some t ∧
        d.checkAt s path t = (Violation.report (d.violations s path t)).map fun _ => path) := by
  refine ⟨fun h => check_unknown h, fun h => ⟨check_eq_report h, ?_, ?_⟩⟩
  · intro t ht
    rw [check_eq_report h] at ht
    cases hv : c.violations s [table] table with
    | nil => rw [hv] at ht; cases ht
    | cons v vs =>
      rw [hv] at ht
      cases ht
      exact unknownTable_not_mem_violations t (hv ▸ List.mem_cons_self)
  · intro path t d hd
    have hk := hd.contains h
    exact ⟨hk, hd.getLast? rfl, checkAt_eq_report hk⟩

/-- A selection of users that goes wrong behind a nested one that fits, and then once more. -/
def wrongSiblings : Selection :=
  ((all.nest "Comment" ((all.field "body").nest "User" (all.field "id"))).nest "Organization"
    (all.field "x")).nest "UserOrganization" ((all.setField "y" false).field "z")

theorem check_wrongSiblings :
    (Schema.sample.contains "User" = true ∧ wrongSiblings.check Schema.sample "User" =
      Violation.report [.invalidRelation "User" "User" "Organization"
          ⟨["Comment", "UserOrganization"], by decide⟩,
        .unknownField "User.UserOrganization" "UserOrganization" "z"]) ∧
    (all.nest "User" wrongSiblings).check Schema.sample "Comment" = .error (.invalidRelation
      "Comment.User" "User" "Organization" ⟨["Comment", "UserOrganization"], by decide⟩) ∧
    Schema.sample.contains "Account" = false ∧
      wrongSiblings.check Schema.sample "Account" = .error (.unknownTable "Account") := by
  have hu : Schema.sample.contains "User" = true := by decide
  have hc : Schema.sample.contains "Comment" = true := by decide
  have ha : Schema.sample.contains "Account" = false := by decide
  obtain ⟨hv, -, -⟩ := (check_reports_first_violation Schema.sample "User" wrongSiblings).2 hu
  obtain ⟨hd, -, -⟩ :=
    (check_reports_first_violation Schema.sample "Comment" (all.nest "User" wrongSiblings)).2 hc
  refine ⟨⟨hu, hv.trans (congrArg _ (by decide))⟩, hd.trans (by decide), ha, ?_⟩
  exact (check_reports_first_violation Schema.sample "Account" wrongSiblings).1 ha

end Selection

end NestedSelection
