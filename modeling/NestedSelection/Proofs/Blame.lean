import NestedSelection.Proofs.Chains

/-! # The node that a report is about

A report tells of the node at fault its path and its table, and of the entry its name. Names may
hold dots, so a path that is given as a text may lead to several nodes, and not all of them need to
be gone down to. Of those that hold the entry the first one in the order of the check is the one
that is meant.
-/

namespace NestedSelection

namespace Violation

def path : Violation → String
  | unknownTable _ => ""
  | unknownField path _ _ => path
  | invalidRelation path _ _ _ => path

/-- The report fits a node: the path of the node joined by dots, its table, and an entry in it. -/
def Blames (path : List String) (table : String) (c : Selection) : Violation → Prop
  | unknownTable _ => False
  | unknownField p t name => p = ".".intercalate path ∧ t = table ∧ (name, true) ∈ c.flags
  | invalidRelation p t relation _ =>
    p = ".".intercalate path ∧ t = table ∧ relation ∈ Entries.keys c.includes

variable {v : Violation} {path : List String} {table : String} {c : Selection}

instance : Decidable (v.Blames path table c) :=
  match v with
  | unknownTable _ => inferInstanceAs (Decidable False)
  | unknownField .. => inferInstanceAs (Decidable (_ ∧ _ ∧ _))
  | invalidRelation .. => inferInstanceAs (Decidable (_ ∧ _ ∧ _))

theorem Blames.path_eq (h : v.Blames path table c) : v.path = ".".intercalate path := by
  cases v with
  | unknownTable _ => cases h
  | unknownField _ _ _ => exact h.1
  | invalidRelation _ _ _ _ => exact h.1

/-- What the report says of the schema. -/
def Holds (s : Schema) : Violation → Prop
  | unknownTable table => s.contains table = false
  | unknownField _ table name => s.hasField table name = false
  | invalidRelation _ table relation _ => ¬s.Nestable table relation

end Violation

namespace Selection

variable {s : Schema} {v : Violation} {path chain : List String} {table : String}
  {c d : Selection} {x y : List (String × Selection)}

mutual

/-- The nodes in the order of the check, each with the chain of relations that leads to it. -/
def nodes : Selection → List (List String × Selection)
  | .node select nested => ([], .node select nested) :: nestedNodes nested

def nestedNodes : Option (List (String × Selection)) → List (List String × Selection)
  | none => []
  | some children => childNodes children

def childNodes : List (String × Selection) → List (List String × Selection)
  | [] => []
  | (relation, child) :: rest =>
    (nodes child).map (fun n => (relation :: n.1, n.2)) ++ childNodes rest

end

theorem nodes_eq (c : Selection) : c.nodes =
    ([], c) :: c.includes.flatMap fun e => e.2.nodes.map fun n => (e.1 :: n.1, n.2) := by
  have hc : ∀ children : List (String × Selection), childNodes children =
      children.flatMap fun e => e.2.nodes.map fun n => (e.1 :: n.1, n.2) := by
    intro children
    induction children with
    | nil => rfl
    | cons e children ih => rw [childNodes, ih, List.flatMap_cons]
  obtain ⟨select, _ | children⟩ := c
  · rfl
  · exact congrArg (([], node select (some children)) :: ·) (hc children)

theorem mem_nodes_iff : (chain, d) ∈ c.nodes ↔ c.Leads chain d := by
  induction chain generalizing c with
  | nil =>
    constructor
    · intro h
      obtain rfl : d = c := by simpa [nodes_eq c] using h
      exact .here
    · rintro ⟨⟩
      rw [nodes_eq]
      exact List.mem_cons_self
  | cons relation chain ih =>
    have hm : (relation :: chain, d) ∈ c.nodes ↔
        ∃ child, (relation, child) ∈ c.includes ∧ (chain, d) ∈ child.nodes := by
      simp [nodes_eq c]
    rw [hm]
    constructor
    · rintro ⟨child, he, hn⟩
      exact .down he (ih.1 hn)
    · rintro (_ | ⟨he, hd⟩)
      exact ⟨_, he, ih.2 hd⟩

def firstBlamed (v : Violation) (path : List String) (table : String) (c : Selection) :
    Option (List String × Selection) :=
  c.nodes.find? fun n => v.Blames (path ++ n.1) (n.1.getLastD table) n.2

theorem firstBlamed_eq : firstBlamed v path table c =
    if v.Blames path table c then some ([], c)
    else c.includes.findSome? fun e =>
      (firstBlamed v (path ++ [e.1]) e.1 e.2).map fun n => (e.1 :: n.1, n.2) := by
  rw [firstBlamed, nodes_eq, List.find?_cons, List.find?_flatMap]
  simp only [List.append_nil, List.getLastD_nil, List.find?_map, Function.comp_def,
    List.getLastD_cons, firstBlamed, List.append_assoc, List.singleton_append]
  by_cases h : v.Blames path table c <;> simp [h]

theorem firstBlamed_eq_some (h : firstBlamed v path table c = some (chain, d)) :
    c.Leads chain d ∧ v.Blames (path ++ chain) (chain.getLastD table) d :=
  ⟨mem_nodes_iff.1 (List.mem_of_find?_eq_some h), by simpa using List.find?_some h⟩

theorem Leads.allowed (hd : c.Leads chain d) (h : c.outline.Allowed s table) :
    d.outline.Allowed s (chain.getLastD table) := by
  induction hd generalizing table with
  | here => exact h
  | down he _ ih =>
    rw [List.getLastD_cons]
    exact ih ((allowed_outline_iff.1 h).2 _ he).2

/-- A true report fits no node of a selection that is allowed. -/
theorem firstBlamed_eq_none (hv : v.Holds s) (h : c.outline.Allowed s table) :
    firstBlamed v path table c = none := by
  refine List.find?_eq_none.2 fun ⟨chain, d⟩ hn => ?_
  obtain ⟨hf, hr⟩ := allowed_outline_iff.1 ((mem_nodes_iff.1 hn).allowed h)
  rw [decide_eq_true_iff]
  intro hb
  cases v with
  | unknownTable _ => exact hb
  | unknownField p t name =>
    obtain ⟨-, rfl, hm⟩ := hb
    have hk := hf name (mem_selectedFields.2 hm)
    rw [show s.hasField _ name = false from hv] at hk
    cases hk
  | invalidRelation p t relation available =>
    obtain ⟨-, rfl, hm⟩ := hb
    obtain ⟨child, he⟩ := Entries.exists_of_mem_keys hm
    exact hv (hr _ he).1

theorem intercalate_append_ne {relation : String} (hp : path ≠ []) :
    ".".intercalate (path ++ relation :: chain) ≠ ".".intercalate path := by
  rw [String.intercalate_append_of_ne_nil hp (List.cons_ne_nil _ _)]
  intro h
  have hl := congrArg String.length h
  simp only [String.length_append] at hl
  rw [show ".".length = 1 from rfl] at hl
  omega

/-- A report on what is nested in an entry fits nothing before it. -/
theorem firstBlamed_down {relation : String} {child : Selection} (hp : path ≠ [])
    (hv : v.Holds s) (hi : c.includes = x ++ (relation, child) :: y)
    (hx : ∀ e ∈ x, e.2.outline.Allowed s e.1)
    (h : firstBlamed v (path ++ [relation]) relation child = some (chain, d)) :
    firstBlamed v path table c = some (relation :: chain, d) := by
  have hb : ¬v.Blames path table c := by
    intro hb
    have he := (firstBlamed_eq_some h).2.path_eq
    rw [hb.path_eq, ← List.append_cons] at he
    exact intercalate_append_ne hp he.symm
  have hn : (x.findSome? fun e =>
      (firstBlamed v (path ++ [e.1]) e.1 e.2).map fun n => (e.1 :: n.1, n.2)) = none := by
    rw [List.findSome?_eq_none_iff]
    intro e he
    rw [firstBlamed_eq_none hv (hx e he)]
    rfl
  rw [firstBlamed_eq, if_neg hb, hi, List.findSome?_append, hn, List.findSome?_cons, h]
  rfl

end Selection

end NestedSelection
