import NestedSelection.Proofs.Allowed
import NestedSelection.Schema.Sample

/-! # Chains of relations

A chain of relation names leads down through a selection to each of its nodes. A selection passes
the check exactly if every such chain goes along foreign keys from table to table, in either
direction, and every field that is wanted at its end is a field of the last table.

Of the schema only its frame takes part in this: the names of the tables and of their fields, and
the targets of the foreign keys.
-/

namespace NestedSelection

namespace Table

def frame (t : Table) : List String × List (Option String) :=
  (t.fieldNames, t.relationships.map (·.referencedTable))

end Table

namespace Schema

variable {s s' : Schema} {a b table name : String}

/-- The second table is one of the schema, and a foreign key joins it to the first one. -/
def Nestable (s : Schema) (a b : String) : Prop := s.contains b = true ∧ s.Linked a b

/-- The schema without the values of its rows, and with no more of a foreign key than its target. -/
def frame (s : Schema) : Entries (List String × List (Option String)) :=
  s.tables.entries.mapValues Table.frame

theorem get?_frame : s.frame.get? name = (s.table? name).map Table.frame :=
  Entries.get?_mapValues

theorem contains_eq_frame : s.contains name = (s.frame.get? name).isSome := by
  rw [get?_frame, Option.isSome_map, Bool.eq_iff_iff, contains_iff, Option.isSome_iff_exists]

theorem hasField_eq_frame :
    s.hasField table name = (s.frame.get? table).any fun f => f.1.contains name := by
  rw [get?_frame, hasField, Option.any_map]
  rfl

theorem references_iff_frame :
    s.References a b ↔ ∃ f, s.frame.get? a = some f ∧ some b ∈ f.2 := by
  rw [get?_frame, References]
  cases s.table? a with
  | none => simp
  | some t => simp [Table.frame]

theorem nestable_congr (h : s'.frame = s.frame) : s'.Nestable a b ↔ s.Nestable a b := by
  rw [Nestable, Nestable, contains_eq_frame, contains_eq_frame, h, Linked, Linked,
    references_iff_frame, references_iff_frame, references_iff_frame, references_iff_frame, h]

end Schema

namespace Selection

variable {s s' : Schema} {table : String} {c c' d : Selection} {chain : List String}

/-- The chain of relation names leads from a selection down to a node in it. -/
inductive Leads : Selection → List String → Selection → Prop
  | here {c : Selection} : Leads c [] c
  | down {c child d : Selection} {relation : String} {chain : List String} :
      (relation, child) ∈ c.includes → Leads child chain d → Leads c (relation :: chain) d

/-- The chain goes along foreign keys, and its last table has all fields wanted at its end. -/
def LegalAt (s : Schema) (table : String) (chain : List String) (d : Selection) : Prop :=
  (table :: chain).IsChain s.Nestable ∧
    ∀ name, (name, true) ∈ d.flags → s.hasField (chain.getLastD table) name = true

theorem legalAt_cons {relation : String} :
    LegalAt s table (relation :: chain) d ↔
      s.Nestable table relation ∧ LegalAt s relation chain d := by
  rw [LegalAt, LegalAt, List.isChain_cons_cons, List.getLastD_cons, and_assoc]

/-- The outline is allowed node by node, and each node is where a chain ends. -/
theorem allowed_iff_legalAt :
    c.outline.Allowed s table ↔ ∀ chain d, c.Leads chain d → LegalAt s table chain d := by
  constructor
  · intro h chain d hd
    induction hd generalizing table with
    | here =>
      obtain ⟨hf, -⟩ := allowed_outline_iff.1 h
      exact ⟨List.IsChain.singleton _, fun name hn => hf name (mem_selectedFields.2 hn)⟩
    | down he _ ih =>
      obtain ⟨-, hc⟩ := allowed_outline_iff.1 h
      obtain ⟨hs, ha⟩ := hc _ he
      exact legalAt_cons.2 ⟨hs, ih ha⟩
  · intro h
    induction c generalizing table with
    | node select nested ih =>
      refine allowed_outline_iff.2 ⟨fun name hn => ?_, fun e he => ⟨?_, ?_⟩⟩
      · exact (h [] _ .here).2 name (mem_selectedFields.1 hn)
      · exact (legalAt_cons.1 (h [e.1] e.2 (.down he .here))).1
      · exact ih e he fun chain d hd => (legalAt_cons.1 (h (e.1 :: chain) d (.down he hd))).2

theorem legalAt_congr (h : s'.frame = s.frame) :
    LegalAt s' table chain d ↔ LegalAt s table chain d := by
  have hs : s'.Nestable = s.Nestable :=
    funext fun a => funext fun b => propext (Schema.nestable_congr h)
  simp only [LegalAt, hs, Schema.hasField_eq_frame, h]

theorem check_ok_congr (hs : s'.frame = s.frame) (hc : c'.outline = c.outline) :
    c'.check s' table = .ok () ↔ c.check s table = .ok () := by
  rw [check_eq_ok_iff, check_eq_ok_iff, hc, Schema.contains_eq_frame, Schema.contains_eq_frame, hs,
    allowed_iff_legalAt, allowed_iff_legalAt]
  simp only [legalAt_congr hs]

/--
A selection passes the check for a table exactly if the table is known and the selection is legal
along every chain of relations that leads to a node in it: each table of the chain is a table of the
schema that references the one before it or is referenced by it, and the fields wanted at the end
are fields of the last table. Fields that are not wanted, the values of rows and all else that is
said of foreign keys make no difference.
-/
theorem check_ok_iff_legal_along_chains (s : Schema) (table : String) (c : Selection) :
    (c.check s table = .ok () ↔ s.contains table = true ∧
      ∀ chain d, c.Leads chain d → (table :: chain).IsChain s.Nestable ∧
        ∀ name, (name, true) ∈ d.flags → s.hasField (chain.getLastD table) name = true) ∧
    ∀ (s' : Schema) (c' : Selection), s'.frame = s.frame → c'.outline = c.outline →
      (c'.check s' table = .ok () ↔ c.check s table = .ok ()) :=
  ⟨check_eq_ok_iff.trans (and_congr_right fun _ => allowed_iff_legalAt),
    fun _ _ hs hc => check_ok_congr hs hc⟩

def retypedSample : Schema :=
  Schema.sample.withTable "Comment" {
    row := .ofList
      [("id", .integer 1), ("body", .null), ("authorId", .array []), ("parentId", .null)]
    relationships := [{ referencedTable := some "User", isOneToOne := some true },
      { referencedTable := some "Comment", columns := ["parentId"] }] }

def answersWithAuthors : Selection :=
  all.nest "Comment" (all.nest "Comment" ((all.field "body").nest "User" (all.field "email")))

theorem check_ok_answersWithAuthors :
    ["User", "Comment", "Comment", "User"].IsChain Schema.sample.Nestable ∧
    (retypedSample.frame = Schema.sample.frame ∧
      (answersWithAuthors.setField "phone" false).outline = answersWithAuthors.outline) ∧
    (answersWithAuthors.setField "phone" false).check retypedSample "User" = .ok () := by
  have hs : retypedSample.frame = Schema.sample.frame := by decide
  have hc : (answersWithAuthors.setField "phone" false).outline = answersWithAuthors.outline := rfl
  have ho : answersWithAuthors.check Schema.sample "User" = .ok () := by decide
  obtain ⟨h, hr⟩ := check_ok_iff_legal_along_chains Schema.sample "User" answersWithAuthors
  refine ⟨?_, ⟨hs, hc⟩, (hr _ _ hs hc).2 ho⟩
  have hd : answersWithAuthors.Leads ["Comment", "Comment", "User"] (all.field "email") :=
    .down List.mem_cons_self (.down List.mem_cons_self (.down List.mem_cons_self .here))
  exact ((h.1 ho).2 _ _ hd).1

end Selection

end NestedSelection
