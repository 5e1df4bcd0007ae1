import NestedSelection.Proofs.Entries
import NestedSelection.Selection.Query

/-! # Selections as trees

Induction over selections, and what the two ways to extend a selection do to its parts. The nested
tables of a selection are kept as a plain list; `WellFormed` says that no table is nested twice in
one place, which holds of everything that is built or read.
-/

namespace NestedSelection

namespace Selection

@[elab_as_elim, induction_eliminator]
theorem induction {P : Selection → Prop}
    (node : ∀ select nested, (∀ e ∈ (node select nested).includes, P e.2) →
      P (.node select nested)) (s : Selection) : P s :=
  @Selection.rec P (fun nested => ∀ e ∈ nested.getD [], P e.2)
    (fun children => ∀ e ∈ children, P e.2) (fun e => P e.2) node (by simp) (fun _ h => h) (by simp)
    (fun e children he hc x hx => by
      rcases List.mem_cons.1 hx with rfl | hx
      · exact he
      · exact hc x hx)
    (fun _ _ h => h) s

def flags (s : Selection) : Entries Bool := s.select.elim [] (·.entries)

theorem nodup_keys_flags (s : Selection) : (Entries.keys s.flags).Nodup := by
  obtain ⟨_ | flags, nested⟩ := s
  · exact List.nodup_nil
  · exact flags.distinct

theorem mem_selectedFields {s : Selection} {name : String} :
    name ∈ s.selectedFields ↔ (name, true) ∈ s.flags := by
  simp [selectedFields, flags, List.mem_filterMap]

theorem selectedFields_sublist (s : Selection) :
    s.selectedFields.Sublist (Entries.keys s.flags) := by
  have h : s.selectedFields = Entries.keys (s.flags.filter (·.2)) := by
    rw [selectedFields, Entries.keys, ← List.filterMap_eq_map, List.filterMap_filter]
    rfl
  rw [h]
  exact List.filter_sublist.map _

theorem nodup_selectedFields (s : Selection) : s.selectedFields.Nodup :=
  (nodup_keys_flags s).sublist s.selectedFields_sublist

section Parts

variable (s child : Selection) (name relation : String) (wanted : Bool)

@[simp] theorem flags_setField : (s.setField name wanted).flags = s.flags.insert name wanted := by
  obtain ⟨_ | flags, nested⟩ := s <;> rfl

@[simp] theorem includes_setField : (s.setField name wanted).includes = s.includes := rfl

@[simp] theorem flags_nest : (s.nest relation child).flags = s.flags := rfl

@[simp] theorem includes_nest :
    (s.nest relation child).includes = Entries.insert s.includes relation child := rfl

end Parts

theorem selectedFields_congr {s t : Selection} (h : s.flags = t.flags) :
    s.selectedFields = t.selectedFields := by
  change s.flags.filterMap _ = t.flags.filterMap _
  rw [h]

theorem mem_selectedFields_setField {s : Selection} {n name : String} {wanted : Bool}
    (h : n ∈ (s.setField name wanted).selectedFields) : n = name ∨ n ∈ s.selectedFields := by
  rw [mem_selectedFields, flags_setField] at h
  rcases Entries.mem_insert h with h | h
  · exact .inl (Prod.ext_iff.1 h).1
  · exact .inr (mem_selectedFields.2 h)

def fieldAll (s : Selection) (names : List String) : Selection := names.foldl field s

def nestAll (s : Selection) (children : List (String × Selection)) : Selection :=
  children.foldl (fun s e => s.nest e.1 e.2) s

theorem flags_fieldAll (s : Selection) (names : List String) :
    (s.fieldAll names).flags =
      (names.map (·, true)).foldl (fun m e => Entries.insert m e.1 e.2) s.flags := by
  induction names generalizing s with
  | nil => rfl
  | cons name names ih => exact (ih (s.field name)).trans (by simp [field])

theorem includes_fieldAll (s : Selection) (names : List String) :
    (s.fieldAll names).includes = s.includes := by
  induction names generalizing s with
  | nil => rfl
  | cons name names ih => exact ih (s.field name)

theorem flags_nestAll (s : Selection) (children : List (String × Selection)) :
    (s.nestAll children).flags = s.flags := by
  induction children generalizing s with
  | nil => rfl
  | cons e children ih => exact ih (s.nest e.1 e.2)

theorem includes_nestAll (s : Selection) (children : List (String × Selection)) :
    (s.nestAll children).includes =
      children.foldl (fun m e => Entries.insert m e.1 e.2) s.includes := by
  induction children generalizing s with
  | nil => rfl
  | cons e children ih => exact ih (s.nest e.1 e.2)

theorem selectedFields_fieldAll_all {names : List String} (h : names.Nodup) :
    (all.fieldAll names).selectedFields = names := by
  have hk : Entries.keys (names.map (·, true)) = names := by
    simp [Entries.keys, Function.comp_def]
  have hf : (all.fieldAll names).flags = names.map (·, true) := by
    rw [flags_fieldAll]
    exact Entries.ofList_eq_self (by rwa [hk])
  change (all.fieldAll names).flags.filterMap _ = names
  rw [hf, List.filterMap_map]
  exact List.filterMap_some

/-- No table is nested twice in one place. -/
inductive WellFormed : Selection → Prop
  | node {s : Selection} : (Entries.keys s.includes).Nodup → (∀ e ∈ s.includes, WellFormed e.2) →
      WellFormed s

namespace WellFormed

variable {s child : Selection}

theorem nodup (h : s.WellFormed) : (Entries.keys s.includes).Nodup := by
  obtain ⟨hk, -⟩ := h
  exact hk

theorem of_mem (h : s.WellFormed) {e : String × Selection} (he : e ∈ s.includes) :
    e.2.WellFormed := by
  obtain ⟨-, hc⟩ := h
  exact hc e he

theorem all : all.WellFormed := ⟨List.nodup_nil, fun _ he => by cases he⟩

theorem setField (h : s.WellFormed) (name : String) (wanted : Bool) :
    (s.setField name wanted).WellFormed := ⟨h.nodup, fun _ he => h.of_mem he⟩

theorem nest (h : s.WellFormed) (relation : String) (hc : child.WellFormed) :
    (s.nest relation child).WellFormed := by
  refine ⟨Entries.nodup_keys_insert _ _ h.nodup, fun e he => ?_⟩
  rcases Entries.mem_insert he with rfl | he
  · exact hc
  · exact h.of_mem he

theorem fieldAll (h : s.WellFormed) (names : List String) : (s.fieldAll names).WellFormed := by
  induction names generalizing s with
  | nil => exact h
  | cons name names ih => exact ih (h.setField name true)

theorem nestAll (h : s.WellFormed) {children : List (String × Selection)}
    (hc : ∀ e ∈ children, e.2.WellFormed) : (s.nestAll children).WellFormed := by
  induction children generalizing s with
  | nil => exact h
  | cons e children ih =>
    exact ih (h.nest e.1 (hc e List.mem_cons_self)) fun x hx => hc x (List.mem_cons_of_mem _ hx)

end WellFormed

theorem queryChars_eq (s : Selection) :
    s.queryChars = fieldsClause s.selectedFields ++ relationClauses s.includes := by
  obtain ⟨select, _ | children⟩ := s <;> rfl

end Selection

end NestedSelection
