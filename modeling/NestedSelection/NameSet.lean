/-! # Sets of names

Sets of strings, held as strictly ascending lists. Strings are ordered by their code points.
-/

namespace NestedSelection

namespace NameSet

/-- Adds a name to an ascending list, where it belongs. -/
def insertName (name : String) : List String → List String
  | [] => [name]
  | x :: rest =>
    if name < x then name :: x :: rest
    else if name = x then x :: rest
    else x :: insertName name rest

theorem mem_insertName {name y : String} {l : List String} :
    y ∈ insertName name l ↔ y = name ∨ y ∈ l := by
  induction l with
  | nil => simp [insertName]
  | cons x l ih =>
    unfold insertName
    split
    · simp
    · split
      · rename_i h; subst h; simp
      · simp [ih, or_left_comm]

theorem lt_of_not_lt_of_ne {a b : String} (h : ¬ a < b) (hne : a ≠ b) : b < a :=
  Std.lt_of_le_of_ne (String.not_lt.1 h) (Ne.symm hne)

theorem pairwise_insertName {name : String} {l : List String} (h : l.Pairwise (· < ·)) :
    (insertName name l).Pairwise (· < ·) := by
  induction l with
  | nil => simp [insertName]
  | cons x l ih =>
    obtain ⟨hx, hl⟩ := List.pairwise_cons.1 h
    unfold insertName
    split
    · rename_i hlt
      refine List.pairwise_cons.2 ⟨fun y hy => ?_, h⟩
      rcases List.mem_cons.1 hy with rfl | hy
      · exact hlt
      · exact String.lt_trans hlt (hx y hy)
    · rename_i hlt
      split
      · exact h
      · rename_i hne
        refine List.pairwise_cons.2 ⟨fun y hy => ?_, ih hl⟩
        rcases mem_insertName.1 hy with rfl | hy
        · exact lt_of_not_lt_of_ne hlt hne
        · exact hx y hy

end NameSet

structure NameSet where
  names : List String
  ascending : names.Pairwise (· < ·)
deriving DecidableEq

namespace NameSet

theorem nodup_names (s : NameSet) : s.names.Nodup := s.ascending.imp String.ne_of_lt

def empty : NameSet := ⟨[], .nil⟩

def insert (s : NameSet) (name : String) : NameSet :=
  ⟨insertName name s.names, pairwise_insertName s.ascending⟩

@[simp] theorem mem_names_insert {x name : String} {s : NameSet} :
    x ∈ (s.insert name).names ↔ x = name ∨ x ∈ s.names := mem_insertName

def ofList (l : List String) : NameSet := l.foldr (fun name s => s.insert name) empty

def union (s t : NameSet) : NameSet := s.names.foldr (fun name s => s.insert name) t

def contains (s : NameSet) (name : String) : Bool := s.names.contains name

theorem mem_names_foldr_insert {name : String} {l : List String} {s : NameSet} :
    name ∈ (l.foldr (fun x s => s.insert x) s).names ↔ name ∈ l ∨ name ∈ s.names := by
  induction l with
  | nil => simp
  | cons x l ih =>
    rw [List.foldr_cons, mem_names_insert, ih, List.mem_cons, or_assoc]

@[simp] theorem mem_names_ofList {name : String} {l : List String} :
    name ∈ (ofList l).names ↔ name ∈ l := by
  simp [ofList, mem_names_foldr_insert, empty]

@[simp] theorem mem_names_union {name : String} {s t : NameSet} :
    name ∈ (s.union t).names ↔ name ∈ s.names ∨ name ∈ t.names := mem_names_foldr_insert

end NameSet

end NestedSelection
