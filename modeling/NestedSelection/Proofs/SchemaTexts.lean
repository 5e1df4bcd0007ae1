import NestedSelection.Proofs.Layouts
import NestedSelection.Proofs.SpelledDocuments
import NestedSelection.Schema.Text

/-! # Schemas read from JSON text

A text that spells a document, which lays out a schema, is read as this schema.
-/

namespace NestedSelection

namespace Schema

theorem yields_jsonReader {w rest : List Char} {d : Document} {s : Schema}
    (h : ofDocument? d = some s) (hd : Json.Yields (Json.document Json.maxDepth w) d rest) :
    Json.Yields (jsonReader w) s rest := by
  obtain ⟨_, he⟩ := hd.eq_ok
  simp only [jsonReader, he, h]
  exact .ok _

/-- Reading a text undoes every layout of a schema that nests at most 127 containers. -/
theorem ofJsonText_eq_of_layout {text : String} {d : Document} {s : Schema}
    (ht : Json.SpellsText 127 text d) (hl : Document.LaysSchema d s) :
    ofJsonText text = .ok s := by
  have hr : Json.readText jsonReader text = .ok s :=
    ht.readText_eq fun hd => yields_jsonReader hl.ofDocument?_eq hd
  rw [ofJsonText, hr]
  rfl

section Sample

open Document

def mixedTableLayout : Document :=
  named [
    ("Row", named [("id", .text "x"), ("id", named [("p", .integer 1), ("p", .integer 2)])]),
    ("relationships", .sequence [
      .sequence [.null, .sequence [.text "c"], .text "a"],
      named [("other", .integer (-5)), ("referencedRelation", .text "b"),
        ("is_one_to_one", .null)]])]

/-- Under `public`, two tables of which one is given twice; all else is passed over. -/
def mixedLayout : Document :=
  named [("tables", .integer 7), ("public", named [("Views", .null), ("Tables", named [
    ("b", .sequence []), ("a", .sequence [named [("k", .integer 1)]]), ("b", mixedTableLayout)])])]

def mixedText : String :=
  "\x7b\"tables\":7,\"public\":\x7b\"Views\":null,\"Tables\":\x7b\"b\":[]," ++
  "\"a\":[\x7b\"k\":1\x7d],\"b\":\x7b\"Row\":\x7b\"id\":\"x\",\"id\":\x7b\"p\":1,\"p\":2\x7d\x7d," ++
  "\"relationships\":[[null,[\"c\"],\"a\"],\x7b\"other\":-5,\"referencedRelation\":\"b\"," ++
  "\"is_one_to_one\":null\x7d]\x7d\x7d\x7d\x7d"

def mixedTable : Table where
  row := ⟨[("id", .object [("p", .integer 2)])], by decide⟩
  relationships := [
    { columns := ["c"], referencedTable := some "a" },
    { referencedTable := some "b" }]

def mixedSchema : Schema where
  tables := ⟨[
    ("b", mixedTable),
    ("a", { row := ⟨[("k", .integer 1)], by decide⟩ })], by decide⟩

theorem spellsText_mixedText : Json.SpellsText 127 mixedText mixedLayout :=
  Json.spellsText_of_compact? (by decide +kernel)

theorem laysJson_repeated :
    LaysJson (named [("p", .integer 1), ("p", .integer 2)]) (.object [("p", .integer 2)]) := by
  refine .object (l := [("p", .integer 1, .integer 1), ("p", .integer 2, .integer 2)]) ?_
    (.of_ofList (by simp [Entries.ofList, Entries.insert]))
  simpa using ⟨.integer 1, .integer 2⟩

theorem laysRelationship_inOrder :
    LaysRelationship (.sequence [.null, .sequence [.text "c"], .text "a"])
      { columns := ["c"], referencedTable := some "a" } :=
  ⟨_, _, _, _, _, .inOrder (n := 2) rfl, .given .absent,
    .given (.intro (l := [(.text "c", "c")]) (by simpa using .intro "c")),
    .given (.present (.intro "a")), .omitted, .omitted⟩

theorem laysRelationship_byName :
    LaysRelationship (named [("other", .integer (-5)), ("referencedRelation", .text "b"),
      ("is_one_to_one", .null)]) { referencedTable := some "b" } := by
  refine ⟨none, none, some (.text "b"), none, some .null, .byName ?_, .omitted, .omitted,
    .given (.present (.intro "b")), .omitted, .given .absent⟩
  simp [Fills, under]

theorem laysTable_mixedTableLayout : LaysTable mixedTableLayout mixedTable := by
  refine ⟨some _, some _, .byName (.cons rfl (.cons rfl .nil)), .given ?_, .given ?_⟩
  · refine .intro (l := [("id", .text "x", .text "x"),
      ("id", named [("p", .integer 1), ("p", .integer 2)], .object [("p", .integer 2)])]) ?_
      (.of_ofList (by simp [Entries.ofList, Entries.insert, mixedTable]))
    simpa using ⟨.text "x", laysJson_repeated⟩
  · refine .intro (l := [
      (.sequence [.null, .sequence [.text "c"], .text "a"],
        ({ columns := ["c"], referencedTable := some "a" } : Relationship)),
      (named [("other", .integer (-5)), ("referencedRelation", .text "b"),
        ("is_one_to_one", .null)], { referencedTable := some "b" })]) ?_
    simpa using ⟨laysRelationship_inOrder, laysRelationship_byName⟩

theorem laysSchema_mixedLayout : LaysSchema mixedLayout mixedSchema := by
  refine .namespaced rfl ⟨some _, .byName (.cons rfl .nil), .given ?_⟩
  refine .intro (l := [("b", .sequence [], ({} : Table)),
    ("a", .sequence [named [("k", .integer 1)]], { row := ⟨[("k", .integer 1)], by decide⟩ }),
    ("b", _, mixedTable)]) ?_ (.of_ofList (by simp [Entries.ofList, Entries.insert, mixedSchema]))
  have ha : LaysTable (.sequence [named [("k", .integer 1)]])
      { row := ⟨[("k", .integer 1)], by decide⟩ } :=
    ⟨_, _, .inOrder (n := 1) rfl, .given (.intro (l := [("k", .integer 1, .integer 1)])
      (by simpa using .integer 1) (.of_ofList rfl)), .omitted⟩
  have hb : LaysTable (.sequence []) {} := ⟨_, _, .inOrder (n := 2) rfl, .omitted, .omitted⟩
  simpa using ⟨hb, ha, laysTable_mixedTableLayout⟩

theorem ofJsonText_mixedText : Json.SpellsText 127 mixedText mixedLayout ∧
    LaysSchema mixedLayout mixedSchema ∧ ofJsonText mixedText = .ok mixedSchema :=
  ⟨spellsText_mixedText, laysSchema_mixedLayout,
    ofJsonText_eq_of_layout spellsText_mixedText laysSchema_mixedLayout⟩

end Sample

end Schema

end NestedSelection
