import NestedSelection.Yaml.Scalar

/-! # Anchors and references

An anchored node has a slot: the number of anchor names met before it. When a name is used again
slots can be shared, and then the node that started last is in the slot. A reference stands for
the node in the slot that its name has at that point.

Following references is bounded: by the depth of the document that comes out, and by a count of
steps that grows with the size of the text.
-/

namespace NestedSelection

namespace Yaml

abbrev Names := List (String × Nat)

/-- The nodes in the slots, in the order in which they start. -/
abbrev Slots := List (Nat × Node Nat)

namespace Node

/-- A node with its references as slots, the names after it and the slots in it. -/
structure Linked (α : Type) where
  node : α
  names : Names
  slots : Slots

def slotOf (p : Properties) (names : Names) : Option Nat := p.anchor.map fun _ => names.length

/-- The names after a node with these properties has started. -/
def enter (p : Properties) (names : Names) : Names :=
  match p.anchor with
  | some name => (name, names.length) :: names.filter fun e => e.1 ≠ name
  | none => names

/-- Puts a node in its slot, before those in it. -/
def register (slot : Option Nat) (l : Linked (Node Nat)) : Linked (Node Nat) :=
  { l with slots := (slot.toList.map fun n => (n, l.node)) ++ l.slots }

mutual

/-- Replaces the names of references by slots. A name that was not met yet refers to nothing. -/
def link (names : Names) : Node String → Option (Linked (Node Nat))
  | .scalar p isPlain text =>
    some (register (slotOf p names) ⟨.scalar p isPlain text, enter p names, []⟩)
  | .sequence p items =>
    (linkItems (enter p names) items).map fun l =>
      register (slotOf p names) ⟨.sequence p l.node, l.names, l.slots⟩
  | .mapping p entries =>
    (linkEntries (enter p names) entries).map fun l =>
      register (slotOf p names) ⟨.mapping p l.node, l.names, l.slots⟩
  | .reference name =>
    (List.lookup name names).map fun slot => ⟨.reference slot, names, []⟩

def linkItems (names : Names) : List (Node String) → Option (Linked (List (Node Nat)))
  | [] => some ⟨[], names, []⟩
  | n :: rest => do
    let x ← link names n
    let l ← linkItems x.names rest
    return ⟨x.node :: l.node, l.names, x.slots ++ l.slots⟩

def linkEntries (names : Names) :
    List (Node String × Node String) → Option (Linked (List (Node Nat × Node Nat)))
  | [] => some ⟨[], names, []⟩
  | (k, v) :: rest => do
    let x ← link names k
    let y ← link x.names v
    let l ← linkEntries y.names rest
    return ⟨(x.node, y.node) :: l.node, l.names, x.slots ++ y.slots ++ l.slots⟩

end

mutual

/-- The count of steps in reading a node: one for each end of a container and each other node. -/
def size {ρ : Type} : Node ρ → Nat
  | .scalar .. => 1
  | .reference _ => 1
  | .sequence _ items => sizeItems items + 2
  | .mapping _ entries => sizeEntries entries + 2

def sizeItems {ρ : Type} : List (Node ρ) → Nat
  | [] => 0
  | n :: rest => size n + sizeItems rest

def sizeEntries {ρ : Type} : List (Node ρ × Node ρ) → Nat
  | [] => 0
  | (k, v) :: rest => size k + size v + sizeEntries rest

end

/-- The node that started last in a slot. -/
def inSlot? (slots : Slots) (slot : Nat) : Option (Node Nat) :=
  List.lookup slot slots.reverse

/-- A result, with the count of references that may still be followed. -/
structure Spent (α : Type) (steps : Nat) where
  value : α
  left : Nat
  notMore : left ≤ steps

def Spent.map {α β : Type} {steps : Nat} (f : α → β) (r : Spent α steps) : Spent β steps :=
  ⟨f r.value, r.left, r.notMore⟩

def Spent.widen {α : Type} {steps more : Nat} (r : Spent α steps) (h : steps ≤ more) :
    Spent α more :=
  ⟨r.value, r.left, Nat.le_trans r.notMore h⟩

mutual

/-- The document that a node stands for. -/
def expand (rules : Rules) (slots : Slots) (steps depth : Nat) (n : Node Nat) :
    Option (Spent Document steps) :=
  match n with
  | .scalar p isPlain text =>
    (rules.scalar? p.tag isPlain text).map fun x => ⟨x.document, steps, Nat.le_refl _⟩
  | .sequence p items =>
    match depth with
    | 0 => none
    | depth + 1 =>
      if p.tag.all rules.allowsTag then
        (expandItems rules slots steps depth items).map (·.map .sequence)
      else none
  | .mapping p entries =>
    match depth with
    | 0 => none
    | depth + 1 =>
      if p.tag.all rules.allowsTag then
        (expandEntries rules slots steps depth entries).map (·.map .mapping)
      else none
  | .reference slot =>
    match steps with
    | 0 => none
    | steps + 1 =>
      match inSlot? slots slot with
      | none => none
      | some target => (expand rules slots steps depth target).map (·.widen (Nat.le_succ _))
termination_by (steps, sizeOf n)

/-- What a node names as a key. -/
def expandKey (rules : Rules) (slots : Slots) (steps depth : Nat) (n : Node Nat) :
    Option (Spent Document.Key steps) :=
  match n with
  | .scalar p isPlain text =>
    (rules.scalar? p.tag isPlain text).map fun x => ⟨x.key, steps, Nat.le_refl _⟩
  | .sequence p items =>
    (expand rules slots steps depth (.sequence p items)).map (·.map fun _ => .other)
  | .mapping p entries =>
    (expand rules slots steps depth (.mapping p entries)).map (·.map fun _ => .other)
  | .reference slot =>
    match steps with
    | 0 => none
    | steps + 1 =>
      match inSlot? slots slot with
      | none => none
      | some target => (expandKey rules slots steps depth target).map (·.widen (Nat.le_succ _))
termination_by (steps, sizeOf n + 1)

def expandItems (rules : Rules) (slots : Slots) (steps depth : Nat) (l : List (Node Nat)) :
    Option (Spent (List Document) steps) :=
  match l with
  | [] => some ⟨[], steps, Nat.le_refl _⟩
  | n :: rest =>
    match expand rules slots steps depth n with
    | none => none
    | some d =>
      (expandItems rules slots d.left depth rest).map fun r =>
        (r.map (d.value :: ·)).widen d.notMore
termination_by (steps, sizeOf l)
decreasing_by
  · decreasing_tactic
  · exact Prod.Lex.right' _ d.notMore (by simp only [List.cons.sizeOf_spec]; omega)

def expandEntries (rules : Rules) (slots : Slots) (steps depth : Nat)
    (l : List (Node Nat × Node Nat)) :
    Option (Spent (List (Document.Key × Document)) steps) :=
  match l with
  | [] => some ⟨[], steps, Nat.le_refl _⟩
  | (k, v) :: rest =>
    match expandKey rules slots steps depth k with
    | none => none
    | some key =>
      match expand rules slots key.left depth v with
      | none => none
      | some d =>
        (expandEntries rules slots d.left depth rest).map fun r =>
          (r.map ((key.value, d.value) :: ·)).widen (Nat.le_trans d.notMore key.notMore)
termination_by (steps, sizeOf l)
decreasing_by
  · refine Prod.Lex.right steps ?_
    simp only [List.cons.sizeOf_spec, Prod.mk.sizeOf_spec]
    omega
  · refine Prod.Lex.right' _ key.notMore ?_
    simp only [List.cons.sizeOf_spec, Prod.mk.sizeOf_spec]
    omega
  · exact Prod.Lex.right' _ (Nat.le_trans d.notMore key.notMore)
      (by simp only [List.cons.sizeOf_spec]; omega)

end

/-- How many references may be followed for each step in reading the text. -/
def stepsPerSize : Nat := 100

def document (rules : Rules) (n : Node String) : Option Document := do
  let l ← link [] n
  let r ← expand rules l.slots (stepsPerSize * size n) maxDepth l.node
  return r.value

end Node

end Yaml

end NestedSelection
