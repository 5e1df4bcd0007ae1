import Mathlib.Logic.Function.Iterate
import NestedSelection.Proofs.Blame
import NestedSelection.Proofs.Comparison
import NestedSelection.Proofs.Pruning

/-! # Repairing selections

The check of a selection reports one violation, and the report tells which entry of which node is at
fault. If this entry is taken out, the violation is gone and all others are as they were, so taking
out what is reported as long as something is reported ends after as many rounds as there are
violations. What is left then is the selection without the entries that do not fit the schema, each
of the others in its place.
-/

namespace NestedSelection

theorem exists_of_flatMap_eq_cons {α β : Type} {f : α → List β} {l : List α} {b : β} {bs : List β}
    (h : l.flatMap f = b :: bs) : ∃ x a y rest, l = x ++ a :: y ∧ (∀ e ∈ x, f e = []) ∧
      f a = b :: rest ∧ bs = rest ++ y.flatMap f := by
  induction l with
  | nil => cases h
  | cons a l ih =>
    rw [List.flatMap_cons] at h
    cases ha : f a with
    | nil =>
      rw [ha, List.nil_append] at h
      obtain ⟨x, c, y, rest, rfl, hx, hc, hb⟩ := ih h
      refine ⟨a :: x, c, y, rest, rfl, ?_, hc, hb⟩
      exact List.forall_mem_cons.2 ⟨ha, hx⟩
    | cons b' rest =>
      rw [ha, List.cons_append] at h
      obtain ⟨rfl, rfl⟩ := List.cons.inj h
      exact ⟨[], a, l, rest, rfl, by simp, ha, rfl⟩

namespace Entries

variable {α : Type} {m x y : Entries α} {key : String} {value : α}

def modify (m : Entries α) (key : String) (f : α → α) : Entries α :=
  List.map (fun e => if e.1 = key then (e.1, f e.2) else e) m

def erase (m : Entries α) (key : String) : Entries α := List.filter (fun e => e.1 ≠ key) m

theorem ne_of_nodup_append_cons (h : (keys (x ++ (key, value) :: y)).Nodup) :
    (∀ e ∈ x, e.1 ≠ key) ∧ ∀ e ∈ y, e.1 ≠ key := by
  simp only [keys, List.map_append, List.map_cons, List.nodup_append, List.nodup_cons] at h
  obtain ⟨-, ⟨hy, -⟩, hx⟩ := h
  constructor
  · intro e he
    exact hx _ (List.mem_map_of_mem he) _ List.mem_cons_self
  · rintro e he rfl
    exact hy (List.mem_map_of_mem he)

theorem modify_append_cons (h : (keys (x ++ (key, value) :: y)).Nodup) (f : α → α) :
    modify (x ++ (key, value) :: y) key f = x ++ (key, f value) :: y := by
  obtain ⟨hx, hy⟩ := ne_of_nodup_append_cons h
  have hm : ∀ l : Entries α, (∀ e ∈ l, e.1 ≠ key) → modify l key f = l := by
    intro l hl
    exact (List.map_congr_left fun e he => if_neg (hl e he)).trans (List.map_id _)
  have hc : modify (x ++ (key, value) :: y) key f =
      modify x key f ++ (key, f value) :: modify y key f := by
    simp [modify]
  rw [hc, hm x hx, hm y hy]

theorem erase_append_cons (h : (keys (x ++ (key, value) :: y)).Nodup) :
    erase (x ++ (key, value) :: y) key = x ++ y := by
  obtain ⟨hx, hy⟩ := ne_of_nodup_append_cons h
  have hx : List.filter (fun e => e.1 ≠ key) x = x := by simpa using hx
  have hy : List.filter (fun e => e.1 ≠ key) y = y := by simpa using hy
  rw [erase, List.filter_append, hx, List.filter_cons_of_neg (by simp), hy]

end Entries

namespace Violation

theorem report_eq_error_iff {v : Violation} {l : List Violation} :
    report l = .error v ↔ ∃ vs, l = v :: vs := by
  cases l with
  | nil => simp [report]
  | cons w l => simp [report]

end Violation

namespace Selection

variable {s : Schema} {path chain : List String} {table relation name : String}
  {c d child : Selection} {v : Violation}

def dropField (c : Selection) (name : String) : Selection :=
  node (c.select.map fun flags => flags.filter fun e => e.1 ≠ name) c.nested

def dropRelation (c : Selection) (relation : String) : Selection :=
  node c.select (c.nested.map fun children => Entries.erase children relation)

/-- The node without the entry that a report names. -/
def without (v : Violation) (c : Selection) : Selection :=
  match v with
  | .unknownTable _ => c
  | .unknownField _ _ name => c.dropField name
  | .invalidRelation _ _ relation _ => c.dropRelation relation

def changeAt (f : Selection → Selection) : List String → Selection → Selection
  | [], c => f c
  | relation :: chain, c => node c.select (c.nested.map fun children =>
    Entries.modify children relation (changeAt f chain))

/-- Takes the entry that the check reports out of the first node that the report fits. -/
def repair (s : Schema) (table : String) (c : Selection) : Selection :=
  match c.check s table with
  | .ok _ => c
  | .error v => (firstBlamed v [table] table c).elim c fun n => c.changeAt (without v) n.1

def entryViolations (s : Schema) (path : List String) (table : String) (e : String × Selection) :
    List Violation :=
  if (s.available table).contains e.1 then e.2.violations s (path ++ [e.1]) e.1
  else [.invalidRelation (".".intercalate path) table e.1 (s.available table)]

theorem allowed_of_entryViolations {e : String × Selection}
    (h : entryViolations s path table e = []) : e.2.outline.Allowed s e.1 := by
  rw [entryViolations] at h
  split at h
  · exact violations_eq_nil_iff.1 h
  · cases h

theorem childViolations_eq (children : List (String × Selection)) :
    childViolations s path table children = children.flatMap (entryViolations s path table) :=
  childViolations_eq_flatMap s path table children

/-- What it means that a selection results from another one by a step that mends a violation. -/
structure Mends (s : Schema) (path : List String) (table : String) (v : Violation)
    (c d : Selection) : Prop where
  violations : c.violations s path table = v :: d.violations s path table
  pruned : d.pruned s table = c.pruned s table
  wellFormed : d.WellFormed

section Fields

theorem selectedFields_dropField (c : Selection) (name : String) :
    (c.dropField name).selectedFields = c.selectedFields.filter fun n => n ≠ name := by
  obtain ⟨_ | flags, nested⟩ := c
  · rfl
  · change (flags.entries.filter _).filterMap _ = (flags.entries.filterMap _).filter _
    rw [List.filterMap_filter, List.filter_filterMap]
    refine List.filterMap_congr fun e _ => ?_
    obtain ⟨n, _ | _⟩ := e
    · simp
    · by_cases h : n = name <;> simp [Option.filter, h]

theorem pruned_dropField (hn : (name, true) ∈ c.flags) (hf : s.hasField table name = false) :
    (c.dropField name).pruned s table = c.pruned s table := by
  obtain ⟨_ | flags, nested⟩ := c
  · cases hn
  · have he : (flags.filter fun e => e.1 ≠ name).filter (fits s table) =
        flags.filter (fits s table) := by
      apply OrderedMap.ext
      change (flags.entries.filter _).filter _ = flags.entries.filter _
      rw [List.filter_filter]
      refine List.filter_congr fun e he => ?_
      by_cases hk : e.1 = name
      · subst hk
        have h := ((OrderedMap.get?_eq_some_iff (m := flags)).2 he).symm.trans
          (OrderedMap.get?_eq_some_iff.2 hn)
        simp [fits, Option.some.inj h, hf]
      · simp [hk]
    exact congrArg (fun f => node (some f) (prunedNested s table nested)) he

theorem mends_dropField {rest : List String} (hc : c.WellFormed)
    (h : (c.selectedFields.filter fun name => !s.hasField table name) = name :: rest) :
    Mends s path table (.unknownField (".".intercalate path) table name) c
      (c.dropField name) := by
  have hm : name ∈ c.selectedFields.filter fun name => !s.hasField table name :=
    h ▸ List.mem_cons_self
  obtain ⟨hs, hf⟩ := List.mem_filter.1 hm
  have hn : (name :: rest).Nodup := h ▸ c.nodup_selectedFields.filter _
  have hr : ((c.dropField name).selectedFields.filter fun name => !s.hasField table name) =
      rest := by
    rw [selectedFields_dropField, List.filter_comm, h, List.filter_cons_of_neg (by simp)]
    exact List.filter_eq_self.2 fun n hr => by
      simpa using ne_of_mem_of_not_mem hr (List.nodup_cons.1 hn).1
  constructor
  · rw [violations_eq, violations_eq, h, hr]
    rfl
  · apply pruned_dropField (mem_selectedFields.1 hs)
    simpa using hf
  · exact ⟨hc.nodup, fun e he => hc.of_mem he⟩

end Fields

section Children

variable {select : Option (OrderedMap Bool)} {x y l : List (String × Selection)}
  {e : String × Selection}

/-- What stands at the place of an entry mends a violation if it does so in place of the entry. -/
theorem mends_children (hc : (node select (some (x ++ e :: y))).WellFormed)
    (hf : ((node select none).selectedFields.filter fun name => !s.hasField table name) = [])
    (hx : ∀ e ∈ x, entryViolations s path table e = [])
    (he : entryViolations s path table e = v :: childViolations s path table l)
    (hp : prunedChildren s table l = prunedChildren s table [e])
    (hk : (Entries.keys l).Sublist [e.1]) (hl : ∀ e ∈ l, e.2.WellFormed) :
    Mends s path table v (node select (some (x ++ e :: y))) (node select (some (x ++ l ++ y))) := by
  have hx : childViolations s path table x = [] := by
    rw [childViolations_eq]
    exact List.flatMap_eq_nil_iff.2 hx
  constructor
  · simp only [violations, hf, nestedViolations, childViolations_eq, List.flatMap_append,
      List.flatMap_cons, he] at hx ⊢
    simp [hx]
  · rw [List.append_cons]
    simp only [pruned, prunedNested, prunedChildren_append, hp]
  · have hs : (Entries.keys (x ++ l ++ y)).Sublist (Entries.keys (x ++ e :: y)) := by
      rw [List.append_cons]
      simp only [Entries.keys, List.map_append] at hk ⊢
      exact (hk.append_left _).append_right _
    refine ⟨hc.nodup.sublist hs, fun f hm => ?_⟩
    rcases List.mem_append.1 hm with hm | hm
    · rcases List.mem_append.1 hm with hm | hm
      · exact hc.of_mem (List.mem_append_left _ hm)
      · exact hl f hm
    · exact hc.of_mem (List.mem_append_right _ (List.mem_cons_of_mem _ hm))

theorem exists_node_of_includes (h : c.includes = x ++ e :: y) :
    ∃ select, c = node select (some (x ++ e :: y)) := by
  obtain ⟨select, _ | children⟩ := c
  · cases x <;> cases h
  · exact ⟨select, congrArg (fun l => node select (some l)) h⟩

/-- At a node whose wanted fields are all there, nothing is wrong before an entry. -/
structure First (s : Schema) (path : List String) (table : String) (c : Selection)
    (x : List (String × Selection)) (e : String × Selection) (y : List (String × Selection)) :
    Prop where
  fields : (c.selectedFields.filter fun name => !s.hasField table name) = []
  includes : c.includes = x ++ e :: y
  before : ∀ e ∈ x, entryViolations s path table e = []

theorem First.mem (h : First s path table c x e y) : e ∈ c.includes := by
  rw [h.includes]
  exact List.mem_append_right _ List.mem_cons_self

theorem mends_dropRelation (hc : c.WellFormed) (h : First s path table c x (relation, child) y)
    (ha : (s.available table).contains relation ≠ true) :
    Mends s path table
      (.invalidRelation (".".intercalate path) table relation (s.available table)) c
      (c.dropRelation relation) := by
  obtain ⟨hf, hi, hx⟩ := h
  obtain ⟨select, rfl⟩ := exists_node_of_includes hi
  have hd : (node select (some (x ++ (relation, child) :: y))).dropRelation relation =
      node select (some (x ++ [] ++ y)) := by
    rw [List.append_nil, ← Entries.erase_append_cons hc.nodup]
    rfl
  rw [hd]
  apply mends_children hc hf hx
  · exact if_neg ha
  · simp [prunedChildren, ha]
  · exact List.nil_sublist _
  · simp

theorem Mends.down {f : Selection → Selection} (hc : c.WellFormed)
    (h : First s path table c x (relation, child) y)
    (ha : (s.available table).contains relation = true)
    (hm : Mends s (path ++ [relation]) relation v child (child.changeAt f chain)) :
    Mends s path table v c (c.changeAt f (relation :: chain)) := by
  obtain ⟨hf, hi, hx⟩ := h
  obtain ⟨select, rfl⟩ := exists_node_of_includes hi
  have hd : (node select (some (x ++ (relation, child) :: y))).changeAt f (relation :: chain) =
      node select (some (x ++ [(relation, child.changeAt f chain)] ++ y)) := by
    rw [← List.append_cons, ← Entries.modify_append_cons hc.nodup]
    rfl
  rw [hd]
  apply mends_children hc hf hx
  · rw [entryViolations, if_pos ha, hm.violations, childViolations, if_pos ha, childViolations,
      List.append_nil]
  · simp [prunedChildren, ha, hm.pruned]
  · exact List.Sublist.refl _
  · simpa using hm.wellFormed

end Children

/-- The first violation below a node is true of the schema, and the first node it fits mends it. -/
theorem exists_mends {vs : List Violation} (hp : path ≠ []) (hc : c.WellFormed)
    (hv : c.violations s path table = v :: vs) :
    v.Holds s ∧ ∃ chain d, firstBlamed v path table c = some (chain, d) ∧
      Mends s path table v c (c.changeAt (without v) chain) := by
  induction c generalizing path table v vs with
  | node select nested ih =>
    have hroot : ∀ {v : Violation}, v.Blames path table (node select nested) →
        firstBlamed v path table (node select nested) = some ([], node select nested) :=
      fun hb => by rw [firstBlamed_eq, if_pos hb]
    rw [violations_eq] at hv
    -- Fields are reported before tables, so the first violation lies below only if there is none
    -- among the fields.
    cases hf : (node select nested).selectedFields.filter fun name => !s.hasField table name with
    | cons name rest =>
      rw [hf] at hv
      obtain ⟨rfl, -⟩ := List.cons.inj hv
      have hm : name ∈ (node select nested).selectedFields.filter fun name =>
          !s.hasField table name := hf ▸ List.mem_cons_self
      obtain ⟨hn, hk⟩ := List.mem_filter.1 hm
      have hh : s.hasField table name = false := by simpa using hk
      refine ⟨hh, [], _, hroot ?_, mends_dropField hc hf⟩
      exact ⟨rfl, rfl, mem_selectedFields.1 hn⟩
    | nil =>
      rw [hf, List.map_nil, List.nil_append, childViolations_eq] at hv
      obtain ⟨x, ⟨relation, child⟩, y, rest, hi, hx, he, -⟩ := exists_of_flatMap_eq_cons hv
      have hr : First s path table (node select nested) x (relation, child) y := ⟨hf, hi, hx⟩
      by_cases ha : (s.available table).contains relation = true
      · rw [entryViolations, if_pos ha] at he
        obtain ⟨hh, chain, d, hd, hm⟩ := ih _ hr.mem (by simp) (hc.of_mem hr.mem) he
        refine ⟨hh, relation :: chain, d, firstBlamed_down hp hh hi ?_ hd, hm.down hc hr ha⟩
        exact fun e he => allowed_of_entryViolations (hx e he)
      · rw [entryViolations, if_neg ha] at he
        obtain ⟨rfl, -⟩ := List.cons.inj he
        refine ⟨fun hn => ha (Schema.available_contains_iff.2 hn), [], _, hroot ?_,
          mends_dropRelation hc hr ha⟩
        exact ⟨rfl, rfl, Entries.mem_keys hr.mem⟩

section Rounds

variable {k : Nat}

theorem repair_of_ok (h : c.check s table = .ok ()) : repair s table c = c := by
  rw [repair, h]

theorem exists_repair (ht : s.contains table = true) (hc : c.WellFormed)
    (h : c.check s table = .error v) :
    ∃ chain d, c.Leads chain d ∧ v.Blames (table :: chain) (chain.getLastD table) d ∧
      repair s table c = c.changeAt (without v) chain ∧
      Mends s [table] table v c (repair s table c) := by
  obtain ⟨vs, hv⟩ := Violation.report_eq_error_iff.1 ((check_eq_report ht).symm.trans h)
  obtain ⟨-, chain, d, hf, hm⟩ := exists_mends (List.cons_ne_nil _ _) hc hv
  obtain ⟨hd, hb⟩ := firstBlamed_eq_some hf
  have hr : repair s table c = c.changeAt (without v) chain := by
    rw [repair, h]
    simp only [hf, Option.elim_some]
  exact ⟨chain, d, hd, hb, hr, hr ▸ hm⟩

/-- What a round of repair keeps, and the one violation that it takes away. -/
theorem repair_round (ht : s.contains table = true) (hc : c.WellFormed) :
    (repair s table c).violations s [table] table = (c.violations s [table] table).tail ∧
      (repair s table c).pruned s table = c.pruned s table ∧ (repair s table c).WellFormed := by
  cases h : c.check s table with
  | ok _ =>
    rw [repair_of_ok h]
    rw [check_eq_report ht, report_eq_ok_iff] at h
    rw [h]
    exact ⟨rfl, rfl, hc⟩
  | error v =>
    obtain ⟨chain, d, -, -, -, hm⟩ := exists_repair ht hc h
    exact ⟨by rw [hm.violations, List.tail_cons], hm.pruned, hm.wellFormed⟩

theorem repair_rounds (ht : s.contains table = true) (hc : c.WellFormed) :
    ((repair s table)^[k] c).violations s [table] table =
        (c.violations s [table] table).drop k ∧
      ((repair s table)^[k] c).pruned s table = c.pruned s table := by
  induction k generalizing c with
  | zero => exact ⟨rfl, rfl⟩
  | succ k ih =>
    obtain ⟨hv, hp, hw⟩ := repair_round ht hc
    obtain ⟨ihv, ihp⟩ := ih hw
    rw [Function.iterate_succ_apply, ihv, ihp, hv, hp, List.drop_tail]
    exact ⟨rfl, rfl⟩

end Rounds

/--
If the check of a known table reports a violation, a chain of relations leads to a node whose joined
path and table are those of the report and which holds its entry, and without this entry all the
other violations remain as they were. So as long as something is reported there is one violation
less each time the entry is taken out, the check passes after as many rounds as there are violations
and not before, and the selection then is what it was without the entries that do not fit: its nodes
are those along foreign keys, each without the entries that do not fit it.
-/
theorem repair_progress (s : Schema) (table : String) (c : Selection)
    (ht : s.contains table = true) (hc : c.WellFormed) :
    (∀ v, c.check s table = .error v → ∃ chain d, c.Leads chain d ∧
      v.Blames (table :: chain) (chain.getLastD table) d ∧
      repair s table c = c.changeAt (without v) chain ∧
      c.violations s [table] table = v :: (repair s table c).violations s [table] table) ∧
    (∀ k, ((repair s table)^[k] c).violations s [table] table =
      (c.violations s [table] table).drop k) ∧
    (∀ k, ((repair s table)^[k] c).check s table = .ok () ↔
      (c.violations s [table] table).length ≤ k) ∧
    (repair s table)^[(c.violations s [table] table).length] c = c.pruned s table ∧
    ∀ chain d, (c.pruned s table).Leads chain d ↔ (table :: chain).IsChain s.Nestable ∧
      ∃ d', c.Leads chain d' ∧ d = d'.pruned s (chain.getLastD table) := by
  refine ⟨?_, fun k => (repair_rounds ht hc).1, fun k => ?_, ?_, fun _ _ => leads_pruned_iff⟩
  · intro v hv
    obtain ⟨chain, d, hd, hb, hr, hm⟩ := exists_repair ht hc hv
    exact ⟨chain, d, hd, hb, hr, hm.violations⟩
  · rw [check_eq_report ht, report_eq_ok_iff, (repair_rounds ht hc).1, List.drop_eq_nil_iff]
  · obtain ⟨hv, hp⟩ := repair_rounds (k := (c.violations s [table] table).length) ht hc
    rw [List.drop_length] at hv
    rw [← hp, pruned_eq_self hv]

theorem wellFormed_wrongSiblings : wrongSiblings.WellFormed := by
  have hu : ((all.field "body").nest "User" (all.field "id")).WellFormed :=
    (WellFormed.all.setField _ _).nest _ (WellFormed.all.setField _ _)
  have hz : ((all.setField "y" false).field "z").WellFormed :=
    (WellFormed.all.setField _ _).setField _ _
  exact ((WellFormed.all.nest _ hu).nest _ (WellFormed.all.setField _ _)).nest _ hz

theorem repair_wrongSiblings :
    (Schema.sample.contains "User" = true ∧ wrongSiblings.WellFormed) ∧
    (repair Schema.sample "User" wrongSiblings).violations Schema.sample ["User"] "User" =
      [.unknownField "User.UserOrganization" "UserOrganization" "z"] ∧
    (repair Schema.sample "User")^[2] wrongSiblings =
      (all.nest "Comment" ((all.field "body").nest "User" (all.field "id"))).nest
        "UserOrganization" (all.setField "y" false) := by
  have hu : Schema.sample.contains "User" = true := by decide
  obtain ⟨-, hv, -, hp, -⟩ :=
    repair_progress Schema.sample "User" wrongSiblings hu wellFormed_wrongSiblings
  refine ⟨⟨hu, wellFormed_wrongSiblings⟩, (hv 1).trans ?_, hp.trans ?_⟩
  · decide
  · rfl

/-- Tables with dots in their names: two chains from one of them to another are written alike. -/
def dottedTables : Schema :=
  ({} : Schema)
    |>.withTable "r" (Schema.sampleTable [] ["a.b", "a"])
    |>.withTable "a.b" (Schema.sampleTable [] ["c"])
    |>.withTable "a" (Schema.sampleTable [] ["b"])
    |>.withTable "b" (Schema.sampleTable [] ["c"])
    |>.withTable "c" (Schema.sampleTable ["id"] [])

def dottedSelection (first second : Selection) : Selection :=
  (all.nest "a.b" (all.nest "c" first)).nest "a" (all.nest "b" (all.nest "c" second))

example : (dottedSelection (all.field "x") (all.field "x")).violations dottedTables ["r"] "r" =
    [.unknownField "r.a.b.c" "c" "x", .unknownField "r.a.b.c" "c" "x"] := by decide

example : repair dottedTables "r" (dottedSelection (all.field "id") (all.field "x")) =
    dottedSelection (all.field "id") (.node (some ∅) none) := by rfl

end Selection

end NestedSelection
