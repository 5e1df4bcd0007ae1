import Mathlib.Data.List.Induction
import NestedSelection.Proofs.Tree

/-! # Histories of selections

A selection is built by a list of calls that flag fields and nest tables. Its expression can be told
from this list: the place of a name is that of the first call that mentions it, and its value that
of the last one, whatever was called in between. The calls that flag fields and those that nest
tables do not get in each other's way, since they change different parts.
-/

namespace NestedSelection

namespace Selection

/-- A call that extends a selection. -/
inductive Edit where
  | field (name : String)
  | setField (name : String) (wanted : Bool)
  | nest (relation : String) (child : Selection)

namespace Edit

def apply (s : Selection) : Edit → Selection
  | field name => s.field name
  | setField name wanted => s.setField name wanted
  | nest relation child => s.nest relation child

def flag? : Edit → Option (String × Bool)
  | field name => some (name, true)
  | setField name wanted => some (name, wanted)
  | nest .. => none

def nested? : Edit → Option (String × Selection)
  | nest relation child => some (relation, child)
  | _ => none

end Edit

def build (history : List Edit) : Selection := history.foldl Edit.apply all

def flagged (history : List Edit) : List (String × Bool) := history.filterMap Edit.flag?

def nestings (history : List Edit) : List (String × Selection) := history.filterMap Edit.nested?

/-- The names whose last flag is set, in the order in which they are first mentioned. -/
def lastWanted (flags : List (String × Bool)) : List String :=
  (Entries.keys flags).eraseDups.filter fun name => List.lookup name flags.reverse == some true

/-- The tables in the order in which they are first nested, each with its last selection. -/
def lastNested (nestings : List (String × Selection)) : List (String × Selection) :=
  (Entries.keys nestings).eraseDups.filterMap fun relation =>
    (List.lookup relation nestings.reverse).map (relation, ·)

def text (fields : List String) (relations : List (String × Selection)) : String :=
  (if fields = [] then "*" else ",".intercalate fields) ++
    String.join (relations.map fun e => "," ++ e.1 ++ "(" ++ e.2.query ++ ")")

theorem toList_fieldsClause (names : List String) :
    (if names = [] then "*" else ",".intercalate names).toList = fieldsClause names := by
  cases names with
  | nil => rfl
  | cons name rest =>
    rw [if_neg (List.cons_ne_nil _ _), String.toList_intercalate, fieldsClause]
    induction rest generalizing name with
    | nil => simp
    | cons n rest ih => simpa using ih n

theorem toList_relationClauses (relations : List (String × Selection)) :
    (String.join (relations.map fun e => "," ++ e.1 ++ "(" ++ e.2.query ++ ")")).toList =
      relationClauses relations := by
  induction relations with
  | nil => rfl
  | cons e relations ih =>
    obtain ⟨relation, child⟩ := e
    simp [relationClauses, ← ih, query]

theorem query_eq_text (s : Selection) : s.query = text s.selectedFields s.includes := by
  apply String.toList_inj.1
  rw [query, String.toList_ofList, queryChars_eq, text, String.toList_append, toList_fieldsClause,
    toList_relationClauses]

theorem flagged_concat (history : List Edit) (e : Edit) :
    flagged (history ++ [e]) = flagged history ++ e.flag?.toList := by
  simp only [flagged, List.filterMap_append]
  cases e <;> rfl

theorem nestings_concat (history : List Edit) (e : Edit) :
    nestings (history ++ [e]) = nestings history ++ e.nested?.toList := by
  simp only [nestings, List.filterMap_append]
  cases e <;> rfl

def given {α β : Type} (f : List α → β) (l : List α) : Option β :=
  if l = [] then none else some (f l)

theorem given_concat {α β : Type} (f : List α → β) (l : List α) (a : α) :
    given f (l ++ [a]) = some (f (l ++ [a])) := if_neg (by simp)

theorem getD_given {α β : Type} (f : List α → β) (l : List α) : (given f l).getD (f []) = f l := by
  cases l <;> rfl

theorem setField_given (flags : List (String × Bool))
    (nested : Option (List (String × Selection))) (name : String) (wanted : Bool) :
    (node (given OrderedMap.ofList flags) nested).setField name wanted =
      .node (given OrderedMap.ofList (flags ++ [(name, wanted)])) nested := by
  rw [given_concat, OrderedMap.ofList_concat, ← getD_given OrderedMap.ofList flags]
  rfl

theorem nest_given (select : Option (OrderedMap Bool)) (nestings : List (String × Selection))
    (relation : String) (child : Selection) :
    (node select (given Entries.ofList nestings)).nest relation child =
      .node select (given Entries.ofList (nestings ++ [(relation, child)])) := by
  rw [given_concat, Entries.ofList_concat, ← getD_given Entries.ofList nestings]
  rfl

/-- Each part of what is built depends on its own calls only. -/
theorem build_eq (history : List Edit) : build history =
    .node (given OrderedMap.ofList (flagged history))
      (given Entries.ofList (nestings history)) := by
  induction history using List.reverseRecOn with
  | nil => rfl
  | append_singleton history e ih =>
    have hb : build (history ++ [e]) = e.apply (build history) := List.foldl_concat ..
    rw [hb, ih, flagged_concat, nestings_concat]
    cases e with
    | field name => simp [Edit.apply, Edit.flag?, Edit.nested?, field, setField_given]
    | setField name wanted => simp [Edit.apply, Edit.flag?, Edit.nested?, setField_given]
    | nest relation child => simp [Edit.apply, Edit.flag?, Edit.nested?, nest_given]

theorem flags_build (history : List Edit) :
    (build history).flags = Entries.ofList (flagged history) := by
  rw [build_eq]
  cases flagged history <;> rfl

theorem includes_build (history : List Edit) :
    (build history).includes = lastNested (nestings history) := by
  rw [build_eq, lastNested, ← Entries.ofList_eq_filterMap]
  exact getD_given Entries.ofList _

theorem selectedFields_build (history : List Edit) :
    (build history).selectedFields = lastWanted (flagged history) := by
  change (build history).flags.filterMap _ = _
  rw [flags_build, Entries.ofList_eq_filterMap, List.filterMap_filterMap, lastWanted,
    ← List.filterMap_eq_filter]
  apply List.filterMap_congr
  intro name _
  rcases h : List.lookup name (flagged history).reverse with _ | wanted
  · simp [Option.guard, h]
  · cases wanted <;> simp [Option.guard, h]

theorem lastNested_concat {nestings : List (String × Selection)} {relation : String}
    (h : relation ∈ Entries.keys nestings) (child : Selection) :
    lastNested (nestings ++ [(relation, child)]) =
      (lastNested nestings).map fun e => if e.1 = relation then (relation, child) else e := by
  have hk : relation ∈ Entries.keys (Entries.ofList nestings) := by
    rw [(Entries.settles_ofList nestings).keys_eq, List.mem_eraseDups]
    exact h
  simp only [lastNested, ← Entries.ofList_eq_filterMap, Entries.ofList_concat]
  exact Entries.insert_of_mem (Entries.nodup_keys_ofList nestings) hk

theorem nodup_lastWanted (flags : List (String × Bool)) : (lastWanted flags).Nodup := by
  rw [lastWanted, ← (Entries.settles_ofList flags).keys_eq]
  exact (Entries.nodup_keys_ofList flags).filter _

theorem nodup_lastNested (nestings : List (String × Selection)) :
    (Entries.keys (lastNested nestings)).Nodup := by
  rw [lastNested, ← Entries.ofList_eq_filterMap]
  exact Entries.nodup_keys_ofList nestings

/--
The expression of a selection that was built by a list of calls: the names whose last flag is set,
in the order in which they were first mentioned, or the wildcard if there are none, and then each
table where it was first nested, with the selection that was nested last. So no name is given twice
in one place, only the order among calls of the same kind matters, and nesting a table once more
changes what stands in its own parentheses and nothing else.
-/
theorem query_of_history (history : List Edit) :
    ((build history).query = text (lastWanted (flagged history)) (lastNested (nestings history)) ∧
      (lastWanted (flagged history)).Nodup ∧
      (Entries.keys (lastNested (nestings history))).Nodup) ∧
    (∀ history', flagged history' = flagged history → nestings history' = nestings history →
      build history' = build history) ∧
    ∀ relation child, relation ∈ Entries.keys (nestings history) →
      (build (history ++ [.nest relation child])).query = text (lastWanted (flagged history))
        ((lastNested (nestings history)).map fun e =>
          if e.1 = relation then (relation, child) else e) := by
  refine ⟨⟨?_, nodup_lastWanted _, nodup_lastNested _⟩, ?_, ?_⟩
  · rw [query_eq_text, selectedFields_build, includes_build]
  · intro history' hf hn
    rw [build_eq, build_eq, hf, hn]
  · intro relation child h
    rw [query_eq_text, selectedFields_build, includes_build, nestings_concat, flagged_concat]
    simp only [Edit.flag?, Edit.nested?, Option.toList_none, Option.toList_some, List.append_nil]
    rw [lastNested_concat h]

/-- Calls that mention a field and a table again, the field first of all as one not wanted. -/
def revisions : List Edit :=
  [.setField "b" false, .nest "R" (all.field "x"), .field "a", .nest "S" all, .field "b",
    .setField "a" true, .field "c", .setField "c" false]

def sortedRevisions : List Edit :=
  [.nest "R" (all.field "x"), .nest "S" all, .setField "b" false, .field "a", .field "b",
    .setField "a" true, .field "c", .setField "c" false]

theorem query_of_revisions :
    (flagged sortedRevisions = flagged revisions ∧ nestings sortedRevisions = nestings revisions ∧
      (build sortedRevisions).query = "b,a,R(x),S(*)") ∧
    "R" ∈ Entries.keys (nestings revisions) ∧
    (build (revisions ++ [.nest "R" (all.nest "T" all)])).query = "b,a,R(*,T(*)),S(*)" := by
  obtain ⟨⟨hq, -, -⟩, hs, hr⟩ := query_of_history revisions
  have hf : flagged sortedRevisions = flagged revisions := rfl
  have hn : nestings sortedRevisions = nestings revisions := rfl
  have hm : "R" ∈ Entries.keys (nestings revisions) := by decide
  refine ⟨⟨hf, hn, ?_⟩, hm, ?_⟩
  · rw [hs _ hf hn, hq]
    decide
  · rw [hr "R" _ hm]
    decide

end Selection

end NestedSelection
