import NestedSelection.Proofs.ReadSelections
import NestedSelection.Proofs.SelectionTexts

/-! # Selections that are written and read

A selection is written without space and without its absent parts, so its text is one of the texts
of its own listing. Unless too many containers are nested in it, it is read from the text as it was.
-/

namespace NestedSelection

namespace Json

mutual

def nesting : Json → Nat
  | .null | .bool _ | .integer _ | .real _ | .text _ => 0
  | .array items => nestingItems items + 1
  | .object members => nestingMembers members + 1

def nestingItems : List Json → Nat
  | [] => 0
  | x :: rest => max x.nesting (nestingItems rest)

def nestingMembers : List (String × Json) → Nat
  | [] => 0
  | (_, x) :: rest => max x.nesting (nestingMembers rest)

end

theorem nesting_lt_of_mem {members : List (String × Json)} {e : String × Json} (h : e ∈ members) :
    e.2.nesting < (Json.object members).nesting := by
  have hle : e.2.nesting ≤ nestingMembers members := by
    induction members with
    | nil => cases h
    | cons f members ih =>
      obtain ⟨name, x⟩ := f
      rw [nestingMembers]
      rcases List.mem_cons.1 h with rfl | h
      · exact Nat.le_max_left _ _
      · exact Nat.le_trans (ih h) (Nat.le_max_right _ _)
  rw [nesting]
  omega

theorem memberChars_eq (members : List (String × Json)) :
    memberChars members = members.map fun e => (Member.tight e.1 e.2.chars).chars := by
  induction members with
  | nil => rfl
  | cons e members ih =>
    obtain ⟨name, x⟩ := e
    simp [memberChars, ih, Member.tight, Member.chars, Padded.tight, Padded.chars]

@[simp] theorem Member.name_tight (name : String) (w : List Char) :
    (Member.tight name w).name = name := rfl

theorem object_chars (members : List (String × Json)) : (Json.object members).chars =
    '\x7b' :: [] ++ commaSeparated (members.map fun e => (Member.tight e.1 e.2.chars).chars) ++
      ['\x7d'] := by
  rw [chars, memberChars_eq]
  rfl

end Json

open Json

variable {α β : Type}

theorem spellsMap_object {spells : List Char → β → Prop} {f : α → Json} {g : α → β}
    {l : List (String × α)} (h : ∀ e ∈ l, spells (f e.2).chars (g e.2)) :
    SpellsMap spells (Json.object (Entries.mapValues f l)).chars (Entries.mapValues g l) := by
  have hm : ∀ e ∈ l.map fun e => (Member.tight e.1 (f e.2).chars, g e.2),
      spells e.1.value.text e.2 := by
    rintro e he
    obtain ⟨e, hl, rfl⟩ := List.mem_map.1 he
    exact h e hl
  have hs := SpellsMap.intro (w := []) (by simp [Blank]) hm
  rw [object_chars]
  simpa [Entries.mapValues, Function.comp_def] using hs

namespace Selection

theorem childrenToJson_eq (children : List (String × Selection)) :
    childrenToJson children = Entries.mapValues toJson children := by
  induction children with
  | nil => rfl
  | cons e children ih =>
    rw [childrenToJson, ih]
    rfl

section Nodes

variable {select : Option (OrderedMap Bool)} {nested : Option (List (String × Selection))}
  {flags : List Char → List (String × Bool) → Prop}
  {children : List Char → List (String × Listing) → Prop}

theorem nesting_flagsToJson_lt : ∀ m ∈ select,
    (flagsToJson m).nesting < (node select nested).toJson.nesting := by
  rintro m hm
  cases hm
  exact nesting_lt_of_mem (e := ("select", flagsToJson m)) (by simp)

theorem nesting_childrenToJson_lt : ∀ l ∈ nested,
    (Json.object (childrenToJson l)).nesting < (node select nested).toJson.nesting := by
  rintro l hl
  cases hl
  exact nesting_lt_of_mem (e := ("include", .object (childrenToJson l))) (by simp [nestedToJson])

theorem givesParts_nestedToJson
    (hc : ∀ l ∈ nested, children (Json.object (childrenToJson l)).chars (listChildren l)) :
    GivesParts flags children ((nestedToJson nested).map fun e => Member.tight e.1 e.2.chars) none
      ((listNested nested).map some) := by
  cases nested with
  | none => exact .nil
  | some l => exact .nested rfl (.value (hc l rfl)) .nil

theorem spellsNode_toJson (hs : ∀ m ∈ select, flags (flagsToJson m).chars m.entries)
    (hc : ∀ l ∈ nested, children (Json.object (childrenToJson l)).chars (listChildren l)) :
    SpellsNode flags children (node select nested).toJson.chars (select.map (·.entries))
      (listNested nested) := by
  have hg : GivesParts flags children
      (((select.toList.map fun m => ("select", flagsToJson m)) ++ nestedToJson nested).map
        fun e => Member.tight e.1 e.2.chars)
      (select.map fun m => some m.entries) ((listNested nested).map some) := by
    cases select with
    | none => exact givesParts_nestedToJson hc
    | some m => exact .select rfl (.value (hs m rfl)) (givesParts_nestedToJson hc)
  have hx : (select.map fun m => some m.entries).join = select.map (·.entries) := by
    cases select <;> rfl
  have hy : ((listNested nested).map some).join = listNested nested := by
    cases listNested nested <;> rfl
  have hn := SpellsNode.object (w := []) (by simp [Blank]) hg
  rw [hx, hy, List.map_map] at hn
  rw [toJson, object_chars]
  exact hn

end Nodes

theorem spellsListing_toJson {s : Selection} {n : Nat} (h : s.toJson.nesting ≤ n) :
    SpellsListing n s.toJson.chars s.listing := by
  induction s generalizing n with
  | node select nested ih =>
    have hs : ∀ m ∈ select, (flagsToJson m).nesting < n := fun m hm =>
      Nat.lt_of_lt_of_le (nesting_flagsToJson_lt m hm) h
    have hc : ∀ l ∈ nested, (Json.object (childrenToJson l)).nesting < n := fun l hl =>
      Nat.lt_of_lt_of_le (nesting_childrenToJson_lt l hl) h
    -- As the reader: a node alone has room for no part, and a part takes up one container more.
    match n with
    | 0 =>
      rw [toJson, nesting] at h
      omega
    | 1 =>
      refine spellsNode_toJson (fun m hm => ?_) (fun l hl => ?_)
      · have := hs m hm
        rw [flagsToJson, nesting] at this
        omega
      · have := hc l hl
        rw [nesting] at this
        omega
    | n + 2 =>
      refine spellsNode_toJson (fun m _ => ?_) (fun l hl => ?_)
      · have hm : ∀ e ∈ m.entries, SpellsFlag (Json.bool e.2).chars e.2 := fun e _ => rfl
        simpa [flagsToJson, Entries.mapValues] using spellsMap_object (g := id) hm
      · have hn := hc l hl
        have he : ∀ e ∈ l, SpellsListing n e.2.toJson.chars e.2.listing := by
          intro e he
          refine ih e (by cases hl; exact he) ?_
          have hm : (e.1, e.2.toJson) ∈ childrenToJson l := by
            rw [childrenToJson_eq]
            exact List.mem_map_of_mem he
          have hlt : e.2.toJson.nesting < _ := nesting_lt_of_mem hm
          omega
        rw [childrenToJson_eq, listChildren_eq]
        exact spellsMap_object he

/--
From every text of a listing the selection is read that is built from the listing. So a selection is
read from its own text as it was, and an empty part of it does not become an absent one.
-/
theorem ofJsonText_builds :
    (∀ (text : String) (t : Listing), SpellsListingText 127 text t →
      ofJsonText text = .ok t.selection) ∧
    ∀ s : Selection, s.WellFormed → s.toJson.nesting ≤ 127 →
      ofJsonText s.toJson.render = .ok s := by
  have hr : ∀ (text : String) (t : Listing), SpellsListingText 127 text t →
      ofJsonText text = .ok t.selection := fun _ _ h => ofJsonText_of_spells h
  refine ⟨hr, fun s hs hn => ?_⟩
  have ht : SpellsListingText 127 s.toJson.render s.listing :=
    ⟨.tight s.toJson.chars, by simp [Padded.chars, Padded.tight, render],
      spellsListing_toJson hn⟩
  rw [hr _ _ ht, hs.selection_listing]

section Sample

/-- With a member to pass over, parts out of order, names given twice and nodes of both layouts. -/
def scatteredText : String :=
  "\x7b\"note\":[-1.5e3],\"include\":\x7b\"author\":[null,\x7b\x7d]," ++
  "\"tag\":\x7b\"include\":null\x7d,\"author\":\x7b\"select\":\x7b\x7d\x7d\x7d," ++
  "\"select\":\x7b\"id\":true,\"name\":false,\"id\":false\x7d\x7d "

def scatteredListing : Listing :=
  .node (some [("id", true), ("name", false), ("id", false)])
    (some [("author", .node none (some [])), ("tag", .node none none),
      ("author", .node (some []) none)])

def scatteredSelection : Selection :=
  ((((all.setField "id" true).setField "name" false).setField "id" false).nest "author"
    all.withNested).nest "tag" all |>.nest "author" all.withSelect

theorem isValue_note : IsValue ['[', '-', '1', '.', '5', 'e', '3', ']'] := by
  have hd : ∀ c : Char, c.isDigit = true → Digits [c] := fun c hc => ⟨by simp, by simpa using hc⟩
  have hn : IsValue ['-', '1', '.', '5', 'e', '3'] :=
    .number (.negative (w := ['1']) ⟨hd '1' rfl, by simp⟩ (.present (hd '5' rfl))
      (.unsigned (.inl rfl) (hd '3' rfl)))
  have hi : ∀ p ∈ [Padded.tight ['-', '1', '.', '5', 'e', '3']], IsValue p.text := by
    simpa [Padded.tight] using hn
  exact .array (w := []) (by simp [Blank]) hi

theorem spellsMap_empty {α : Type} {spells : List Char → α → Prop} :
    SpellsMap spells ['\x7b', '\x7d'] [] := by
  have hm : ∀ e ∈ ([] : List (Member × α)), spells e.1.value.text e.2 := by simp
  exact .intro (w := []) (by simp [Blank]) hm

def scatteredChildren : List (Member × Listing) := [
  (.tight "author" ['[', 'n', 'u', 'l', 'l', ',', '\x7b', '\x7d', ']'], .node none (some [])),
  (.tight "tag" ('\x7b' :: (Member.tight "include" ['n', 'u', 'l', 'l']).chars ++ ['\x7d']),
    .node none none),
  (.tight "author" ('\x7b' :: (Member.tight "select" ['\x7b', '\x7d']).chars ++ ['\x7d']),
    .node (some []) none)]

theorem spellsListing_scatteredChildren :
    ∀ e ∈ scatteredChildren, SpellsListing 125 e.1.value.text e.2 := by
  have hl : SpellsListing 125 ['[', 'n', 'u', 'l', 'l', ',', '\x7b', '\x7d', ']']
      (.node none (some [])) :=
    .array (p := .tight ['n', 'u', 'l', 'l']) (q := .tight ['\x7b', '\x7d']) .null
      (.value spellsMap_empty)
  have hn : SpellsListing 125
      ('\x7b' :: (Member.tight "include" ['n', 'u', 'l', 'l']).chars ++ ['\x7d'])
      (.node none none) :=
    .object (w := []) (by simp [Blank]) (.nested (m := .tight "include" _) rfl .null .nil)
  have hs : SpellsListing 125
      ('\x7b' :: (Member.tight "select" ['\x7b', '\x7d']).chars ++ ['\x7d'])
      (.node (some []) none) :=
    .object (w := []) (by simp [Blank])
      (.select (m := .tight "select" _) rfl (.value spellsMap_empty) .nil)
  rintro e he
  simp only [scatteredChildren, List.mem_cons, List.not_mem_nil, or_false] at he
  rcases he with rfl | rfl | rfl
  · exact hl
  · exact hn
  · exact hs

theorem spellsListingText_scattered : SpellsListingText 127 scatteredText scatteredListing := by
  have hc := SpellsMap.intro (w := []) (by simp [Blank]) spellsListing_scatteredChildren
  have hf : SpellsMap SpellsFlag _
      (Entries.mapValues id [("id", true), ("name", false), ("id", false)]) :=
    spellsMap_object (f := Json.bool) fun e _ => rfl
  have hm : GivesParts (SpellsMap SpellsFlag) (SpellsMap (SpellsListing 125)) _ _ _ :=
    .other (m := .tight "note" _) (by simp) (by simp) isValue_note
      (.nested (m := .tight "include" _) rfl (.value hc)
        (.select (m := .tight "select" _) rfl (.value hf) .nil))
  have hn : SpellsListing 127 _ scatteredListing := .object (w := []) (by simp [Blank]) hm
  exact ⟨⟨[], _, [' '], by simp [Blank], by simp [Blank]⟩, by decide +kernel, hn⟩

theorem ofJsonText_scattered : SpellsListingText 127 scatteredText scatteredListing ∧
    ofJsonText scatteredText = .ok scatteredSelection ∧
    scatteredSelection.WellFormed ∧ scatteredSelection.toJson.nesting ≤ 127 ∧
    ofJsonText scatteredSelection.toJson.render = .ok scatteredSelection := by
  obtain ⟨hr, hw⟩ := ofJsonText_builds
  have hb : scatteredListing.selection = scatteredSelection := rfl
  have ht : ofJsonText scatteredText = .ok scatteredSelection :=
    hb ▸ hr _ _ spellsListingText_scattered
  have hs : scatteredSelection.WellFormed := wellFormed_of_ofJsonText ht
  have hn : scatteredSelection.toJson.nesting ≤ 127 := by decide
  exact ⟨spellsListingText_scattered, ht, hs, hn, hw _ hs hn⟩

end Sample

end Selection

end NestedSelection
