import NestedSelection.Catalog.Selection
import NestedSelection.Proofs.Allowed
import NestedSelection.Proofs.TypedTables
import NestedSelection.Schema.Sample

/-! # Typed selections and the check

The typed layer over the catalogue of a schema accepts exactly what the check accepts. Whatever is
built over a table passes the check. In the other direction an allowed outline can be followed step
by step, which gives a typed selection with the same expression as any selection of this outline.
-/

namespace NestedSelection

namespace Outline

mutual

/-- The steps that follow an outline: its fields first, then one relation after the other. -/
def steps : Outline → List Step
  | .node fields relations => .selectAllOf fields :: nestSteps relations

def nestSteps : List (String × Outline) → List Step
  | [] => []
  | (relation, o) :: rest => .nest relation (steps o) :: nestSteps rest

end

end Outline

namespace Catalog

open Selection

section Sound

variable {s : Schema} {c : Catalog} {t : TypedTable} {x : Selection}

theorem Builds.wellFormed (h : c.Builds t x) : x.WellFormed := by
  induction h with
  | all => exact .all
  | select _ _ ih => exact ih.setField _ _
  | nest _ _ _ _ ih ihc => exact ih.nest _ ihc

theorem Builds.allowed (h : (ofSchema s).Builds t x) (ht : t ∈ (ofSchema s).tables) :
    x.outline.Allowed s t.name := by
  induction h with
  | all => exact allowed_all
  | select _ hc ih => exact allowed_field (ih ht) ((exists_variant_iff ht).1 ⟨_, hc⟩)
  | nest _ hr hm _ ih ihc =>
    obtain ⟨hk, hl⟩ := Schema.mem_available_iff.1 ((marker_mem_relations_iff ht hr).1 hm)
    exact allowed_nest (ih ht) hk hl (ihc hr)

end Sound

section Complete

variable {s : Schema} {c : Catalog} {t : TypedTable}

/-- A field is found by its name, and its variant leads back to it. -/
theorem variantOf_ok {name : String} (ht : t ∈ (ofSchema s).tables)
    (h : s.hasField t.name name = true) :
    ∃ variant, t.variantOf name = .ok variant ∧ t.columnName? variant.1 = some name := by
  unfold TypedTable.variantOf
  split
  · rename_i column hc
    have hn : column.name = name := by simpa using List.find?_some hc
    exact ⟨_, rfl, hn ▸ columnName?_variant ht (List.mem_of_find?_eq_some hc)⟩
  · rename_i hn
    obtain ⟨column, hm, hc⟩ := (exists_column_iff ht).2 h
    exact absurd (beq_iff_eq.2 hc) (List.find?_eq_none.1 hn column hm)

theorem selectColumns_ok {names : List String} (x : TypedSelection c t)
    (ht : t ∈ (ofSchema s).tables) (h : ∀ n ∈ names, s.hasField t.name n = true) :
    ∃ y, selectColumns x names = .ok y ∧ y.selection = x.selection.fieldAll names := by
  induction names generalizing x with
  | nil => exact ⟨x, rfl, rfl⟩
  | cons name names ih =>
    obtain ⟨hn, hs⟩ := List.forall_mem_cons.1 h
    obtain ⟨variant, hv, hc⟩ := variantOf_ok ht hn
    obtain ⟨y, hy, he⟩ := ih (x.select variant.1 variant.2) hs
    have hx : (x.select variant.1 variant.2).selection = x.selection.field name :=
      congrArg x.selection.field (Option.get_of_eq_some _ hc)
    exact ⟨y, by rw [selectColumns, hv]; exact hy, by rw [he, hx]; rfl⟩

theorem relatedOf_ok {name : String} (ht : t ∈ (ofSchema s).tables)
    (h : name ∈ (s.available t.name).names) :
    ∃ related, (ofSchema s).relatedOf t name = .ok related ∧ related.1.name = name := by
  obtain ⟨related, hr, hf, rfl⟩ := exists_table? (Schema.mem_available_iff.1 h).1
  have hm := (marker_mem_relations_iff ht hr).2 h
  unfold relatedOf
  split
  · rename_i related' hf'
    obtain rfl := Option.some.inj (hf.symm.trans hf')
    exact ⟨_, dif_pos hm, rfl⟩
  · rename_i hn
    rw [hf] at hn
    cases hn

theorem runSteps_nest {name : String} {x : TypedSelection c t} {steps rest : List Step}
    {related : { related : TypedTable // related ∈ c.tables ∧ related.marker ∈ t.relations }}
    {child : TypedSelection c related.1} (hr : c.relatedOf t name = .ok related)
    (hc : c.run related.1 steps = .ok child) :
    runSteps t x (.nest name steps :: rest) =
      runSteps t (x.nest child related.2.1 related.2.2) rest := by
  unfold run at hc
  rw [runSteps, step, hr]
  dsimp only
  rw [hc]

theorem runSteps_nestSteps {relations : List (String × Outline)} (x : TypedSelection c t)
    (h : ∀ e ∈ relations, ∃ related child, c.relatedOf t e.1 = .ok related ∧
      related.1.name = e.1 ∧ c.run related.1 e.2.steps = .ok child ∧
      child.selection = e.2.selection) :
    ∃ y, runSteps t x (Outline.nestSteps relations) = .ok y ∧
      y.selection = x.selection.nestAll (Outline.selections relations) := by
  induction relations generalizing x with
  | nil => exact ⟨x, rfl, rfl⟩
  | cons e relations ih =>
    obtain ⟨name, o⟩ := e
    obtain ⟨he, hs⟩ := List.forall_mem_cons.1 h
    obtain ⟨related, child, hr, rfl, hc, ho⟩ := he
    obtain ⟨y, hy, hys⟩ := ih (x.nest child related.2.1 related.2.2) hs
    refine ⟨y, ?_, ?_⟩
    · rw [Outline.nestSteps, runSteps_nest hr hc]
      exact hy
    · rw [hys, Outline.selections, ← ho]
      rfl

/-- Following an allowed outline succeeds and selects what the outline says. -/
theorem run_steps {table : String} {o : Outline} (h : o.Allowed s table)
    (ht : t ∈ (ofSchema s).tables) (hn : t.name = table) :
    ∃ x, (ofSchema s).run t o.steps = .ok x ∧ x.selection = o.selection := by
  induction h generalizing t with
  | @node table o hf hl _ ih =>
    subst hn
    obtain ⟨fields, relations⟩ := o
    obtain ⟨x, hx, hxs⟩ := selectColumns_ok (.all : TypedSelection (ofSchema s) t) ht hf
    obtain ⟨y, hy, hys⟩ := runSteps_nestSteps x fun e he => by
      obtain ⟨related, hr, hn⟩ := relatedOf_ok ht (Schema.mem_available_iff.2 (hl e he))
      obtain ⟨child, hc, hs⟩ := ih e he related.2.1 hn
      exact ⟨related, child, hr, hn, hc, hs⟩
    refine ⟨y, ?_, ?_⟩
    · rw [run, Outline.steps, runSteps, step]
      rw [Outline.fields] at hx
      rw [hx]
      exact hy
    · rw [hys, hxs]
      rfl

end Complete

theorem exists_run {s : Schema} {t : TypedTable} {x : Selection} (hw : x.WellFormed)
    (hc : x.check s t.name = .ok ()) (ht : t ∈ (ofSchema s).tables) :
    ∃ y, (ofSchema s).run t x.outline.steps = .ok y ∧ y.selection.query = x.query := by
  obtain ⟨-, ha⟩ := check_eq_ok_iff.1 hc
  obtain ⟨y, hy, hs⟩ := run_steps ha ht rfl
  refine ⟨y, hy, query_eq_of_outline_eq ?_⟩
  rw [hs, Outline.outline_selection hw.distinct_outline]

/--
The typed layer accepts exactly what the check accepts. Whatever can be built over a table of the
catalogue passes the check for the table of its name, and for every selection that passes there are
steps that succeed and that give the same expression. So the expressions of the typed selections
are those that the strict policy gives out.
-/
theorem typed_iff_strict {s : Schema} {table : String} (h : s.contains table = true) :
    ∃ t ∈ (ofSchema s).tables, (ofSchema s).table? table = some t ∧
      (∀ x : TypedSelection (ofSchema s) t, x.selection.check s table = .ok ()) ∧
      (∀ c : Selection, c.WellFormed → c.check s table = .ok () →
        ∃ steps x, (ofSchema s).run t steps = .ok x ∧ x.selection.query = c.query) ∧
      ∀ text, (∃ x : TypedSelection (ofSchema s) t, x.selection.query = text) ↔
        ∃ c : Selection, c.WellFormed ∧ c.compile .strict s table = .ok text := by
  obtain ⟨t, ht, hk, rfl⟩ := exists_table? h
  have sound : ∀ x : TypedSelection (ofSchema s) t, x.selection.check s t.name = .ok () :=
    fun x => check_eq_ok_iff.2 ⟨h, x.built.allowed ht⟩
  refine ⟨t, ht, hk, sound, fun c hw hc => ?_, fun text => ⟨?_, ?_⟩⟩
  · obtain ⟨x, hx, hq⟩ := exists_run hw hc ht
    exact ⟨_, x, hx, hq⟩
  · rintro ⟨x, rfl⟩
    refine ⟨x.selection, x.built.wellFormed, compile_strict_eq_ok_iff.2 ⟨?_, rfl⟩⟩
    exact check_eq_ok_iff.1 (sound x)
  · rintro ⟨c, hw, hc⟩
    obtain ⟨ha, rfl⟩ := compile_strict_eq_ok_iff.1 hc
    obtain ⟨x, -, hq⟩ := exists_run hw (check_eq_ok_iff.2 ha) ht
    exact ⟨x, hq⟩

/-- Two tables whose names give the same identifier, one of them with a key to itself, a key that
dangles and two columns whose names give the same identifier too. -/
def sameIdentifiers : Schema :=
  ({} : Schema)
    |>.withTable "user_item" (Schema.sampleTable ["id"] ["UserItem"])
    |>.withTable "UserItem" (Schema.sampleTable ["id", "Id"] ["UserItem", "Item"])

example : (ofSchema sameIdentifiers).tables.map (fun t => (t.marker, t.columns)) =
    [("UserItem", [⟨"id", "Id"⟩]), ("UserItem2", [⟨"id", "Id"⟩, ⟨"Id", "Id2"⟩])] := by
  decide +kernel

theorem typed_sameIdentifiers : sameIdentifiers.contains "user_item" = true ∧
    ∃ t, (ofSchema sameIdentifiers).table? "user_item" = some t ∧
      (∀ x : TypedSelection (ofSchema sameIdentifiers) t,
        x.selection.check sameIdentifiers "user_item" = .ok ()) ∧
      ∃ x : TypedSelection (ofSchema sameIdentifiers) t,
        x.selection.query = "*,UserItem(Id,UserItem(*))" := by
  have h : sameIdentifiers.contains "user_item" = true := by decide
  obtain ⟨t, -, ht, sound, -, hq⟩ := typed_iff_strict h
  refine ⟨h, t, ht, sound, (hq _).2 ?_⟩
  refine ⟨all.nest "UserItem" ((all.field "Id").nest "UserItem" all), ?_, by decide⟩
  exact .nest .all _ (.nest (.setField .all _ _) _ .all)

end Catalog

end NestedSelection
