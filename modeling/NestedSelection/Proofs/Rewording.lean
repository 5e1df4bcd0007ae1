import Mathlib.Logic.Relation
import NestedSelection.Proofs.Comparison
import NestedSelection.Proofs.Reading

/-! # What the verdict depends on

The check reads a selection in the same way as its expression is written: it looks at the wanted
fields and the nested tables of each node, in their order, and at nothing else. So the outline of a
selection decides what is wrong with it. Two selections with the same expression have the same
outline, and so has a selection in which unwanted fields come and go or empty parts are left out.
-/

namespace NestedSelection

namespace Selection

variable {s : Schema} {table : String} {c d : Selection}

theorem flatMap_congr_of_map {α β γ : Type} {f : α → β} {g : α → List γ} {l r : List α}
    (h : l.map f = r.map f) (hg : ∀ a ∈ l, ∀ b ∈ r, f a = f b → g a = g b) :
    l.flatMap g = r.flatMap g := by
  induction l generalizing r with
  | nil =>
    obtain rfl : r = [] := List.map_eq_nil_iff.1 h.symm
    rfl
  | cons a l ih =>
    cases r with
    | nil => cases h
    | cons b r =>
      obtain ⟨hab, hlr⟩ := List.cons.inj h
      rw [List.flatMap_cons, List.flatMap_cons,
        hg a List.mem_cons_self b List.mem_cons_self hab, ih hlr fun x hx y hy =>
          hg x (List.mem_cons_of_mem _ hx) y (List.mem_cons_of_mem _ hy)]

/-- Selections with the same outline have the same violations, at every table. -/
theorem violations_congr {path : List String} (h : c.outline = d.outline) :
    c.violations s path table = d.violations s path table := by
  induction c generalizing d path table with
  | node select nested ih =>
    rw [outline_eq, outline_eq d] at h
    obtain ⟨hf, hr⟩ := Outline.node.inj h
    rw [violations_eq, violations_eq, hf, childViolations_eq_flatMap, childViolations_eq_flatMap,
      flatMap_congr_of_map hr]
    intro a ha b _ hab
    obtain ⟨hn, ho⟩ : a.1 = b.1 ∧ a.2.outline = b.2.outline := Prod.ext_iff.1 hab
    rw [hn, ih a ha ho]

theorem check_congr (h : c.outline = d.outline) : c.check s table = d.check s table := by
  cases hk : s.contains table with
  | false => rw [check_unknown hk, check_unknown hk]
  | true => rw [check_eq_report hk, check_eq_report hk, violations_congr h]

/-- A change at one node of a selection that makes no difference to what it says. -/
inductive Rewords : Selection → Selection → Prop
  /-- Somewhere among the fields one that is not wanted is entered. -/
  | flag {name : String} {l r : Entries Bool} {flags flags' : OrderedMap Bool}
      {nested : Option (List (String × Selection))} :
      flags.entries = l ++ r → flags'.entries = l ++ (name, false) :: r →
      Rewords (.node (some flags) nested) (.node (some flags') nested)
  /-- Fields none of which is wanted are left out altogether, if there are any. -/
  | unflag {flags : OrderedMap Bool} {nested : Option (List (String × Selection))} :
      (∀ e ∈ flags.entries, e.2 = false) →
      Rewords (.node (some flags) nested) (.node none nested)
  /-- Nested tables are left out where there are none. -/
  | unnest {select : Option (OrderedMap Bool)} :
      Rewords (.node select (some [])) (.node select none)
  | within {select : Option (OrderedMap Bool)} {relation : String} {child child' : Selection}
      {l r : List (String × Selection)} : Rewords child child' →
      Rewords (.node select (some (l ++ (relation, child) :: r)))
        (.node select (some (l ++ (relation, child') :: r)))

theorem Rewords.outline_eq (h : Rewords c d) : c.outline = d.outline := by
  induction h with
  | flag hf hf' =>
    rw [Selection.outline_eq, Selection.outline_eq]
    congr 1
    simp [selectedFields, select, hf, hf']
  | @unflag flags nested hf =>
    rw [Selection.outline_eq, Selection.outline_eq]
    have hn : (node (some flags) nested).selectedFields = [] := by
      simpa [selectedFields, select] using fun name hm => absurd (hf _ hm) (by simp)
    rw [hn]
    rfl
  | unnest => rfl
  | within _ ih =>
    rw [Selection.outline_eq, Selection.outline_eq]
    congr 1
    simp [includes, nested, ih]

theorem outline_eq_of_rewords (h : Relation.EqvGen Rewords c d) : c.outline = d.outline := by
  induction h with
  | rel _ _ h => exact h.outline_eq
  | refl _ => rfl
  | symm _ _ _ ih => exact ih.symm
  | trans _ _ _ _ _ ih ih' => exact ih.trans ih'

/--
The strict verdict is a function of the expression. Selections with safe names that have the same
expression get the same answer for every table of every schema, with the same errors. Whatever the
names are, neither the expression nor the answer changes when fields that are not wanted are added
or dropped, and when parts that say nothing are left out or left empty, at any nodes.
-/
theorem check_determined_by_query :
    (∀ c d : Selection, c.outline.Safe → d.outline.Safe → c.query = d.query →
      ∀ s table, c.check s table = d.check s table) ∧
    ∀ c d : Selection, Relation.EqvGen Rewords c d →
      c.query = d.query ∧ ∀ s table, c.check s table = d.check s table := by
  constructor
  · intro c d hc hd h s table
    exact check_congr ((query_eq_iff_outline_eq hc hd).1 h)
  · intro c d h
    have ho := outline_eq_of_rewords h
    exact ⟨query_eq_of_outline_eq ho, fun s table => check_congr ho⟩

def tidySiblings : Selection :=
  ((all.nest "Comment" ((all.field "body").nest "User" (all.field "id"))).nest "Organization"
    (all.field "x")).nest "UserOrganization" (.node (some (.ofList [("z", true)])) (some []))

theorem check_determined_tidySiblings :
    (wrongSiblings.outline.Safe ∧ tidySiblings.outline.Safe ∧
      wrongSiblings.query = tidySiblings.query ∧
      Relation.EqvGen Rewords tidySiblings wrongSiblings) ∧
    tidySiblings.check Schema.sample "User" = .error (.invalidRelation "User" "User"
      "Organization" ⟨["Comment", "UserOrganization"], by decide⟩) ∧
    wrongSiblings.check Schema.sample "User" = tidySiblings.check Schema.sample "User" ∧
    tidySiblings.check Schema.sample "User" = wrongSiblings.check Schema.sample "User" := by
  have hw : wrongSiblings.outline.Safe := by decide
  have ht : tidySiblings.outline.Safe := by decide
  have hq : wrongSiblings.query = tidySiblings.query := by decide
  have hr : Relation.EqvGen Rewords tidySiblings wrongSiblings := by
    refine .trans _ _ _ (.rel _ _ (.within (l := [_, _]) (r := []) .unnest)) ?_
    exact .rel _ _ (.within (l := [_, _]) (r := []) (.flag (l := []) (r := [("z", true)]) rfl rfl))
  obtain ⟨hs, hv⟩ := check_determined_by_query
  obtain ⟨-, he⟩ := hv _ _ hr
  exact ⟨⟨hw, ht, hq, hr⟩, by decide, hs _ _ hw ht hq _ _, he _ _⟩

end Selection

end NestedSelection
