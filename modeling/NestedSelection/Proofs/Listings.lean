import NestedSelection.Proofs.Tree

/-! # Selections as they are listed

A listing has the entries of a selection in the order of a document, and a name may occur in it any
number of times. The selection of a listing is built from the empty one by entering flag after flag
and child after child. So each name has its first place and its last value, and a part that is
listed as empty is not the same as one that is absent.
-/

namespace NestedSelection

inductive Listing where
  | node (flags : Option (List (String × Bool))) (children : Option (List (String × Listing)))

namespace Selection

def setAll (s : Selection) (flags : List (String × Bool)) : Selection :=
  flags.foldl (fun s e => s.setField e.1 e.2) s

/-- The selection with flags, if only an empty map of them. -/
def withSelect (s : Selection) : Selection := .node (some (s.select.getD ∅)) s.nested

def withNested (s : Selection) : Selection := .node s.select (some (s.nested.getD []))

end Selection

namespace Listing

mutual

def selection : Listing → Selection
  | .node flags children => nestListed (flags.elim .all Selection.all.withSelect.setAll) children

def nestListed (s : Selection) : Option (List (String × Listing)) → Selection
  | none => s
  | some children => nestEach s.withNested children

def nestEach (s : Selection) : List (String × Listing) → Selection
  | [] => s
  | (relation, child) :: rest => nestEach (s.nest relation child.selection) rest

end

def selections (children : List (String × Listing)) : List (String × Selection) :=
  Entries.mapValues selection children

end Listing

section Building

variable (m : OrderedMap Bool) (select : Option (OrderedMap Bool))
  (nested : Option (List (String × Selection)))

theorem Selection.setAll_node (flags : List (String × Bool)) :
    (Selection.node (some m) nested).setAll flags =
      .node (some (flags.foldl (fun m e => m.insert e.1 e.2) m)) nested := by
  induction flags generalizing m with
  | nil => rfl
  | cons e flags ih => exact ih (m.insert e.1 e.2)

theorem Listing.nestEach_node (before : List (String × Selection))
    (children : List (String × Listing)) :
    nestEach (.node select (some before)) children =
      .node select (some ((selections children).foldl (fun m e => Entries.insert m e.1 e.2)
        before)) := by
  induction children generalizing before with
  | nil => rfl
  | cons e children ih => exact ih (Entries.insert before e.1 e.2.selection)

/-- What is built holds the entries of each part that is listed, entered one after the other. -/
theorem Listing.selection_node (flags : Option (List (String × Bool)))
    (children : Option (List (String × Listing))) :
    (Listing.node flags children).selection =
      .node (flags.map OrderedMap.ofList)
        (children.map fun l => Entries.ofList (selections l)) := by
  have hs : flags.elim .all Selection.all.withSelect.setAll =
      .node (flags.map OrderedMap.ofList) none := by
    cases flags with
    | none => rfl
    | some flags =>
      have he := Selection.setAll_node ∅ none flags
      rw [OrderedMap.foldl_insert_empty] at he
      exact he
  rw [Listing.selection, hs]
  cases children with
  | none => rfl
  | some children => exact nestEach_node _ [] children

end Building

namespace Selection

mutual

def listing : Selection → Listing
  | .node select nested => .node (select.map (·.entries)) (listNested nested)

def listNested : Option (List (String × Selection)) → Option (List (String × Listing))
  | none => none
  | some children => some (listChildren children)

def listChildren : List (String × Selection) → List (String × Listing)
  | [] => []
  | (relation, child) :: rest => (relation, child.listing) :: listChildren rest

end

theorem listChildren_eq (children : List (String × Selection)) :
    listChildren children = Entries.mapValues listing children := by
  induction children with
  | nil => rfl
  | cons e children ih =>
    rw [listChildren, ih]
    rfl

theorem WellFormed.selection_listing {s : Selection} (h : s.WellFormed) :
    s.listing.selection = s := by
  induction s with
  | node select nested ih =>
    have hs : (select.map (·.entries)).map OrderedMap.ofList = select := by
      cases select with
      | none => rfl
      | some m => exact congrArg some (OrderedMap.ext (Entries.ofList_eq_self m.distinct))
    rw [listing, Listing.selection_node, hs]
    cases nested with
    | none => rfl
    | some children =>
      have he : ∀ e ∈ children, (e.1, e.2.listing.selection) = e :=
        fun e he => Prod.ext rfl (ih e he (h.of_mem he))
      have hc : Listing.selections (listChildren children) = children := by
        rw [listChildren_eq, Listing.selections, Entries.mapValues, Entries.mapValues, List.map_map]
        exact (List.map_congr_left he).trans (List.map_id children)
      have hk : Entries.ofList children = children := Entries.ofList_eq_self h.nodup
      rw [listNested, Option.map_some, hc, hk]

end Selection

end NestedSelection
