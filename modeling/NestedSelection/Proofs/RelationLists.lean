import Mathlib.Logic.Relation
import NestedSelection.Proofs.Indistinguishable
import NestedSelection.Proofs.Locality
import NestedSelection.Proofs.NameOrder

/-! # Lists of relations

The relations of a table are listed in the order of their bytes, each of them once, and they are
exactly the tables that a foreign key tells of: a table references those that its own foreign keys
name, and is referenced by those whose foreign keys name it. Since the same names in the same order
are the same list, it makes no difference in which order the schema gives its tables and their
foreign keys.
-/

namespace NestedSelection

/-- The names of which something holds, each of them once and in the order of their bytes. -/
structure Lists (names : List String) (p : String → Prop) : Prop where
  ascending : names.Pairwise fun a b => Utf8.bytes a < Utf8.bytes b
  nodup : names.Nodup
  mem_iff : ∀ name, name ∈ names ↔ p name

theorem NameSet.lists {s : NameSet} {p : String → Prop} (h : ∀ name, name ∈ s.names ↔ p name) :
    Lists s.names p :=
  ⟨s.pairwise_bytes_lt, s.nodup_names, h⟩

namespace Schema

variable {s s' s'' : Schema} {table name : String}

theorem lists_forward (s : Schema) (table : String) : Lists (s.forward table).names fun name =>
    s.contains name = true ∧ s.contains table = true ∧ s.References table name := by
  apply NameSet.lists
  intro name
  rw [mem_forward_iff]
  constructor
  · rintro ⟨hc, hr⟩
    exact ⟨hc, hr.contains, hr⟩
  · rintro ⟨hc, -, hr⟩
    exact ⟨hc, hr⟩

theorem lists_inverse (s : Schema) (table : String) : Lists (s.inverse table).names fun name =>
    s.contains name = true ∧ s.References name table := by
  apply NameSet.lists
  intro name
  rw [mem_inverse_iff]
  constructor
  · intro hr
    exact ⟨hr.contains, hr⟩
  · rintro ⟨-, hr⟩
    exact hr

theorem lists_available (s : Schema) (table : String) : Lists (s.available table).names fun name =>
    name ∈ (s.forward table).names ∨ name ∈ (s.inverse table).names :=
  NameSet.lists fun _ => NameSet.mem_names_union

/-- A change of order: of the tables of a schema, or of the foreign keys of one of them. -/
inductive Rearranges (s : Schema) : Schema → Prop
  | tables {m : OrderedMap Table} : s.tables.entries.Perm m.entries → Rearranges s ⟨m⟩
  | relationships {name : String} {t : Table} {l : List Relationship} :
      s.table? name = some t → t.relationships.Perm l →
      Rearranges s (s.withTable name { t with relationships := l })

namespace AgreeOn

theorem refl (s : Schema) (name : String) : s.AgreeOn s name := .of_table?_eq rfl

theorem trans (h : s.AgreeOn s' name) (h' : s'.AgreeOn s'' name) : s.AgreeOn s'' name where
  known := h.known.trans h'.known
  fields field := (h.fields field).trans (h'.fields field)
  targets target := (h.targets target).trans (h'.targets target)

/-- The order of the foreign keys of a table does not show from outside. -/
theorem of_perm {t t' : Table} (ht : s.table? name = some t) (ht' : s'.table? name = some t')
    (hr : t.row = t'.row) (hp : t.relationships.Perm t'.relationships) : s.AgreeOn s' name := by
  constructor
  · rw [contains_iff.2 ⟨t, ht⟩, contains_iff.2 ⟨t', ht'⟩]
  · intro field
    rw [hasField_eq ht, hasField_eq ht', Table.hasField, Table.hasField, hr]
  · intro target
    simp [References, ht, ht', hp.mem_iff]

theorem forward_eq (h : ∀ name, s.AgreeOn s' name) (table : String) :
    s.forward table = s'.forward table := by
  apply NameSet.eq_of_mem_iff
  intro name
  rw [mem_forward_iff, mem_forward_iff, (h name).known, (h table).targets]

theorem inverse_eq (h : ∀ name, s.AgreeOn s' name) (table : String) :
    s.inverse table = s'.inverse table := by
  apply NameSet.eq_of_mem_iff
  intro name
  rw [mem_inverse_iff, mem_inverse_iff, (h name).targets]

end AgreeOn

theorem table?_eq_of_perm (h : s.tables.entries.Perm s'.tables.entries) (name : String) :
    s'.table? name = s.table? name := by
  ext t
  rw [table?_eq_some_iff, table?_eq_some_iff, h.mem_iff]

theorem Rearranges.agreeOn (h : s.Rearranges s') (name : String) : s.AgreeOn s' name := by
  cases h with
  | tables hp => exact .of_table?_eq (table?_eq_of_perm hp name)
  | @relationships n t l ht hp =>
    have he := s.table?_withTable { t with relationships := l } n name
    by_cases hn : name = n
    · subst hn
      rw [if_pos rfl] at he
      exact .of_perm ht he rfl hp
    · rw [if_neg hn] at he
      exact .of_table?_eq he

theorem agreeOn_of_rearranges (h : Relation.ReflTransGen Rearranges s s') (name : String) :
    s.AgreeOn s' name := by
  induction h with
  | refl => exact .refl s name
  | tail _ hr ih => exact ih.trans (hr.agreeOn name)

/--
The relations of a table, known or not, are listed in the order of their bytes and without
repetitions: forward the tables that a foreign key of the table references, backward the tables
with a foreign key that references it, and as what may be nested under it both together. All that
is listed are tables of the schema, and no list depends on the order of tables or foreign keys.
-/
theorem relations_listed_exactly (s : Schema) (table : String) :
    (Lists (s.forward table).names fun name =>
      s.contains name = true ∧ s.contains table = true ∧ s.References table name) ∧
    (Lists (s.inverse table).names fun name =>
      s.contains name = true ∧ s.References name table) ∧
    (Lists (s.available table).names fun name =>
      name ∈ (s.forward table).names ∨ name ∈ (s.inverse table).names) ∧
    (∀ name ∈ (s.available table).names, s.contains name = true) ∧
    ∀ s', Relation.ReflTransGen Rearranges s s' →
      (s.forward table).names = (s'.forward table).names ∧
      (s.inverse table).names = (s'.inverse table).names ∧
      (s.available table).names = (s'.available table).names := by
  refine ⟨s.lists_forward table, s.lists_inverse table, s.lists_available table, ?_, ?_⟩
  · intro name hn
    exact (mem_available_iff.1 hn).1
  · intro s' h
    have ha := agreeOn_of_rearranges h
    have hf := AgreeOn.forward_eq ha table
    have hi := AgreeOn.inverse_eq ha table
    rw [available, available, hf, hi]
    exact ⟨rfl, rfl, rfl⟩

/-- Messages between users, who name each other too, with a reference to no table among them. -/
def messages : Schema :=
  ({} : Schema)
    |>.withTable "user" (sampleTable ["id"] ["user", "message"])
    |>.withTable "message" (sampleTable ["id"] ["user", "Ghost", "user"])
    |>.withTable "Éclair" (sampleTable [] ["user"])

def rearrangedMessages : Schema :=
  (⟨.ofList messages.tables.entries.reverse⟩ : Schema).withTable "message"
    (sampleTable ["id"] ["Ghost", "user", "user"])

theorem relations_listed_messages :
    Relation.ReflTransGen Rearranges messages rearrangedMessages ∧
    (messages.forward "user").names = ["message", "user"] ∧
    (messages.inverse "user").names = ["message", "user", "Éclair"] ∧
    (rearrangedMessages.available "user").names = ["message", "user", "Éclair"] ∧
    (messages.inverse "Ghost").names = ["message"] := by
  have hp : messages.tables.entries.Perm messages.tables.entries.reverse :=
    (List.reverse_perm _).symm
  have hr : Relation.ReflTransGen Rearranges messages rearrangedMessages := by
    apply Relation.ReflTransGen.tail
      (.single (.tables (m := .ofList messages.tables.entries.reverse) hp))
    exact .relationships (t := sampleTable ["id"] ["user", "Ghost", "user"]) rfl (.swap ..)
  obtain ⟨-, -, -, -, h⟩ := relations_listed_exactly messages "user"
  obtain ⟨-, -, ha⟩ := h _ hr
  refine ⟨hr, by decide, by decide, ?_, by decide⟩
  rw [← ha]
  decide

end Schema

end NestedSelection
