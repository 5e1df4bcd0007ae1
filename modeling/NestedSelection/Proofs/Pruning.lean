import NestedSelection.Proofs.Chains

/-! # Pruned selections

A selection without the entries that do not fit a schema: the wanted fields that their table does
not have, and the nested tables that are not related to the one they are nested under, with all that
is below them. Everything else stays in its place, and a selection without violations stays as it
is.
-/

namespace NestedSelection

namespace OrderedMap

variable {α : Type}

def filter (p : String × α → Bool) (m : OrderedMap α) : OrderedMap α :=
  ⟨m.entries.filter p, m.distinct.sublist (List.filter_sublist.map _)⟩

theorem filter_eq_self {p : String × α → Bool} {m : OrderedMap α}
    (h : ∀ e ∈ m.entries, p e = true) : m.filter p = m := ext (List.filter_eq_self.2 h)

end OrderedMap

namespace Selection

variable {s : Schema} {path chain : List String} {table relation : String} {c d : Selection}

def fits (s : Schema) (table : String) (flag : String × Bool) : Bool :=
  !flag.2 || s.hasField table flag.1

mutual

/-- The selection without the entries that do not fit the schema, at any of its nodes. -/
def pruned (s : Schema) (table : String) : Selection → Selection
  | .node select nested =>
    .node (select.map (OrderedMap.filter (fits s table))) (prunedNested s table nested)

def prunedNested (s : Schema) (table : String) :
    Option (List (String × Selection)) → Option (List (String × Selection))
  | none => none
  | some children => some (prunedChildren s table children)

def prunedChildren (s : Schema) (table : String) :
    List (String × Selection) → List (String × Selection)
  | [] => []
  | (relation, child) :: rest =>
    if (s.available table).contains relation then
      (relation, pruned s relation child) :: prunedChildren s table rest
    else prunedChildren s table rest

end

theorem prunedChildren_eq (children : List (String × Selection)) :
    prunedChildren s table children =
      (children.filter fun e => (s.available table).contains e.1).map
        fun e => (e.1, e.2.pruned s e.1) := by
  induction children with
  | nil => rfl
  | cons e children ih =>
    obtain ⟨relation, child⟩ := e
    rw [prunedChildren, ih, List.filter_cons]
    split <;> rfl

theorem prunedChildren_append (l r : List (String × Selection)) :
    prunedChildren s table (l ++ r) = prunedChildren s table l ++ prunedChildren s table r := by
  simp only [prunedChildren_eq, List.filter_append, List.map_append]

theorem mem_includes_pruned :
    (relation, d) ∈ (c.pruned s table).includes ↔ s.Nestable table relation ∧
      ∃ child, (relation, child) ∈ c.includes ∧ d = child.pruned s relation := by
  have hi : (c.pruned s table).includes = prunedChildren s table c.includes := by
    obtain ⟨select, _ | children⟩ := c <;> rfl
  rw [hi, prunedChildren_eq, List.mem_map]
  constructor
  · rintro ⟨⟨r, child⟩, hf, he⟩
    obtain ⟨hm, ha⟩ := List.mem_filter.1 hf
    obtain ⟨rfl, rfl⟩ := Prod.mk.inj he
    exact ⟨Schema.available_contains_iff.1 ha, child, hm, rfl⟩
  · rintro ⟨ha, child, he, rfl⟩
    exact ⟨_, List.mem_filter.2 ⟨he, Schema.available_contains_iff.2 ha⟩, rfl⟩

/-- What is left are the nodes along foreign keys, each without the flags that do not fit. -/
theorem leads_pruned_iff : (c.pruned s table).Leads chain d ↔
    (table :: chain).IsChain s.Nestable ∧
      ∃ d', c.Leads chain d' ∧ d = d'.pruned s (chain.getLastD table) := by
  induction chain generalizing c table with
  | nil =>
    constructor
    · rintro ⟨⟩
      exact ⟨List.IsChain.singleton _, c, .here, rfl⟩
    · rintro ⟨-, d', ⟨⟩, rfl⟩
      exact .here
  | cons relation chain ih =>
    rw [List.isChain_cons_cons, List.getLastD_cons]
    constructor
    · rintro (_ | ⟨he, hd⟩)
      obtain ⟨hn, child, hm, rfl⟩ := mem_includes_pruned.1 he
      obtain ⟨hc, d', hl, rfl⟩ := ih.1 hd
      exact ⟨⟨hn, hc⟩, d', .down hm hl, rfl⟩
    · rintro ⟨⟨hn, hc⟩, d', _ | ⟨he, hd⟩, rfl⟩
      exact .down (mem_includes_pruned.2 ⟨hn, _, he, rfl⟩) (ih.2 ⟨hc, d', hd, rfl⟩)

theorem prunedChildren_eq_self {children : List (String × Selection)}
    (h : ∀ e ∈ children, (s.available table).contains e.1 = true ∧ e.2.pruned s e.1 = e.2) :
    prunedChildren s table children = children := by
  rw [prunedChildren_eq, List.filter_eq_self.2 fun e he => (h e he).1]
  refine (List.map_congr_left fun e he => ?_).trans (List.map_id _)
  rw [(h e he).2]
  rfl

theorem pruned_eq_self (h : c.violations s path table = []) : c.pruned s table = c := by
  induction c generalizing path table with
  | node select nested ih =>
    rw [violations_eq, List.append_eq_nil_iff, List.map_eq_nil_iff, List.filter_eq_nil_iff,
      childViolations_eq_nil_iff] at h
    obtain ⟨hf, hr⟩ := h
    have hs : select.map (OrderedMap.filter (fits s table)) = select := by
      cases select with
      | none => rfl
      | some flags =>
        refine congrArg some (OrderedMap.filter_eq_self fun e he => ?_)
        obtain ⟨name, _ | _⟩ := e
        · rfl
        · simpa [fits] using hf name (mem_selectedFields.2 he)
    have hn : prunedNested s table nested = nested := by
      cases nested with
      | none => rfl
      | some children =>
        refine congrArg some (prunedChildren_eq_self fun e he => ?_)
        obtain ⟨ha, hv⟩ := hr e he
        exact ⟨ha, ih e he hv⟩
    rw [pruned, hs, hn]

end Selection

end NestedSelection
