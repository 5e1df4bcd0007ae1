import NestedSelection.Proofs.Comparison

/-! # Checks are local

Which tables reference a given one is found by going through the whole schema, and this is done at
every node of a selection. All the same only the tables that the selection names take part in what
comes of its check: two schemas that agree on these accept the same selections and report the same
violations, apart from the list of the relations that would have been valid.
-/

namespace NestedSelection

namespace Violation

/-- A violation without the list of the relations that would have been valid. -/
def bare : Violation → Violation
  | .invalidRelation path table relation _ => .invalidRelation path table relation .empty
  | v => v

end Violation

namespace Except

theorem mapError_eq_ok_iff {ε ε' α : Type} {f : ε → ε'} {x : Except ε α} {a : α} :
    x.mapError f = .ok a ↔ x = .ok a := by
  cases x <;> simp [Except.mapError]

end Except

namespace Schema

variable {s s' : Schema} {a b name : String}

/--
Either both schemas lack the table, or both have it, with the same names of fields and with foreign
keys to tables of the same names, known or not.
-/
structure AgreeOn (s s' : Schema) (name : String) : Prop where
  known : s.contains name = s'.contains name
  fields : ∀ field, s.hasField name field = s'.hasField name field
  targets : ∀ target, s.References name target ↔ s'.References name target

namespace AgreeOn

theorem of_table?_eq (h : s'.table? name = s.table? name) : AgreeOn s s' name := by
  refine ⟨?_, fun field => ?_, fun target => ?_⟩
  · rw [Bool.eq_iff_iff, contains_iff, contains_iff, h]
  · rw [hasField, hasField, h]
  · rw [References, References, h]

theorem available_contains_eq (ha : AgreeOn s s' a) (hb : AgreeOn s s' b) :
    (s.available a).contains b = (s'.available a).contains b := by
  rw [Bool.eq_iff_iff, available_contains_iff, available_contains_iff, hb.known, Linked, Linked,
    ha.targets, hb.targets]

end AgreeOn

end Schema

namespace Selection

mutual

def mentioned : Selection → List String
  | .node _ nested => nestedMentioned nested

def nestedMentioned : Option (List (String × Selection)) → List String
  | none => []
  | some children => childrenMentioned children

def childrenMentioned : List (String × Selection) → List String
  | [] => []
  | (relation, child) :: rest => relation :: mentioned child ++ childrenMentioned rest

end

variable {s s' : Schema} {table : String} {c : Selection}

theorem mentioned_eq_flatMap (c : Selection) :
    c.mentioned = c.includes.flatMap fun e => e.1 :: e.2.mentioned := by
  have hc : ∀ children : List (String × Selection),
      childrenMentioned children = children.flatMap fun e => e.1 :: e.2.mentioned := by
    intro children
    induction children with
    | nil => rfl
    | cons e children ih => rw [childrenMentioned, ih, List.flatMap_cons]
  obtain ⟨select, _ | children⟩ := c
  · rfl
  · exact hc children

theorem subset_mentioned {e : String × Selection} (he : e ∈ c.includes) :
    e.1 :: e.2.mentioned ⊆ c.mentioned := by
  intro name hn
  rw [mentioned_eq_flatMap]
  exact List.mem_flatMap.2 ⟨e, he, hn⟩

def AgreeAlong (s s' : Schema) (table : String) (c : Selection) : Prop :=
  ∀ name ∈ table :: c.mentioned, s.AgreeOn s' name

namespace AgreeAlong

theorem here (h : AgreeAlong s s' table c) : s.AgreeOn s' table := h _ List.mem_cons_self

theorem down (h : AgreeAlong s s' table c) {e : String × Selection} (he : e ∈ c.includes) :
    AgreeAlong s s' e.1 e.2 :=
  fun name hn => h name (List.mem_cons_of_mem _ (subset_mentioned he hn))

theorem alike : Alike s s' Violation.bare (AgreeAlong s s') where
  fields h := h.here.fields
  relations h _ he := h.here.available_contains_eq (h.down he).here
  reports _ _ _ := rfl
  down h _ he _ := h.down he

theorem mapError_check_eq (h : AgreeAlong s s' table c) :
    (c.check s table).mapError Violation.bare = (c.check s' table).mapError Violation.bare :=
  alike.mapError_check_eq h.here.known fun _ => h

theorem compile_eq_ok_iff (h : AgreeAlong s s' table c) {policy : Policy} {text : String} :
    c.compile policy s table = .ok text ↔ c.compile policy s' table = .ok text := by
  have hm := mapError_compile_congr h.mapError_check_eq policy
  rw [← Except.mapError_eq_ok_iff (f := Violation.bare), hm, Except.mapError_eq_ok_iff]

end AgreeAlong

/--
The check of a selection is local. If two schemas agree on a table and on all that the selection
names, then it passes under both or fails under both in the same way, apart from the list of the
relations that would have been valid. So whatever is added to a schema, taken out of it or defined
anew under other names, the strict verdict stays the same, and so does the expression given out.
-/
theorem check_local (table : String) (c : Selection) :
    (∀ s s', AgreeAlong s s' table c →
      (c.check s table).mapError Violation.bare = (c.check s' table).mapError Violation.bare) ∧
    ∀ s s' : Schema, (∀ name ∈ table :: c.mentioned, s'.table? name = s.table? name) →
      (c.check s' table = .ok () ↔ c.check s table = .ok ()) ∧
      ∀ text, c.compile .strict s' table = .ok text ↔ c.compile .strict s table = .ok text := by
  refine ⟨fun s s' h => h.mapError_check_eq, fun s s' h => ?_⟩
  have ha : AgreeAlong s' s table c := fun name hn => .of_table?_eq (h name hn).symm
  refine ⟨?_, fun text => ha.compile_eq_ok_iff⟩
  rw [← Except.mapError_eq_ok_iff (f := Violation.bare), ha.mapError_check_eq,
    Except.mapError_eq_ok_iff]

def auditedSample : Schema :=
  (Schema.sample.withTable "Audit" (Schema.sampleTable ["id"] ["User", "Setting"])).withTable
    "Setting" {}

theorem check_local_auditedSample :
    (∀ name ∈ "User" :: wrongSiblings.mentioned,
      auditedSample.table? name = Schema.sample.table? name) ∧
    wrongSiblings.check Schema.sample "User" = .error (.invalidRelation "User" "User"
      "Organization" ⟨["Comment", "UserOrganization"], by decide⟩) ∧
    wrongSiblings.check auditedSample "User" = .error (.invalidRelation "User" "User"
      "Organization" ⟨["Audit", "Comment", "UserOrganization"], by decide⟩) ∧
    (wrongSiblings.check Schema.sample "User").mapError Violation.bare =
      (wrongSiblings.check auditedSample "User").mapError Violation.bare ∧
    ∀ text, wrongSiblings.compile .strict auditedSample "User" = .ok text ↔
      wrongSiblings.compile .strict Schema.sample "User" = .ok text := by
  have ht : ∀ name ∈ "User" :: wrongSiblings.mentioned,
      auditedSample.table? name = Schema.sample.table? name := by
    intro name hn
    have hne : name ≠ "Audit" ∧ name ≠ "Setting" :=
      (by decide : ∀ name ∈ "User" :: wrongSiblings.mentioned, name ≠ "Audit" ∧ name ≠ "Setting")
        name hn
    rw [auditedSample, Schema.table?_withTable, Schema.table?_withTable, if_neg hne.2, if_neg hne.1]
  obtain ⟨hb, hs⟩ := check_local "User" wrongSiblings
  have ha : AgreeAlong Schema.sample auditedSample "User" wrongSiblings :=
    fun name hn => .of_table?_eq (ht name hn)
  exact ⟨ht, by decide, by decide, hb _ _ ha, (hs _ _ ht).2⟩

end Selection

end NestedSelection
