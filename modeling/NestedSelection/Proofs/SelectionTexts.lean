import NestedSelection.Proofs.Listings
import NestedSelection.Proofs.SkippedValues
import NestedSelection.Selection.Reader

/-! # Selections in JSON texts

A listing is written in many ways: a node as an object with its parts in any order, among any other
members, or as the array of its parts; an absent part as `null` or not at all. Which texts spell a
part is a parameter of the relations for a node, as the readers of the parts are parameters of the
reader of a node, so each relation is matched with its reader once, at whatever depth it is used.
From each text of a listing the selection is read that is built from the listing.
-/

namespace NestedSelection

open Json

section Spelling

variable {α β : Type}

inductive SpellsOptional (spells : List Char → α → Prop) : List Char → Option α → Prop
  | null : SpellsOptional spells ['n', 'u', 'l', 'l'] none
  | value {w : List Char} {v : α} : spells w v → SpellsOptional spells w (some v)

inductive SpellsMap (spells : List Char → α → Prop) : List Char → List (String × α) → Prop
  | intro {w : List Char} {members : List (Member × α)} : Blank w →
      (∀ e ∈ members, spells e.1.value.text e.2) →
      SpellsMap spells
        ('\x7b' :: w ++ commaSeparated (members.map fun e => e.1.chars) ++ ['\x7d'])
        (members.map fun e => (e.1.name, e.2))

/-- The members of an object and the parts of a node among them, as far as they are given. -/
inductive GivesParts (flags : List Char → α → Prop) (children : List Char → β → Prop) :
    List Member → Option (Option α) → Option (Option β) → Prop
  | nil : GivesParts flags children [] none none
  | select {m : Member} {l : List Member} {v : Option α} {y : Option (Option β)} :
      m.name = "select" → SpellsOptional flags m.value.text v →
      GivesParts flags children l none y → GivesParts flags children (m :: l) (some v) y
  | nested {m : Member} {l : List Member} {x : Option (Option α)} {v : Option β} :
      m.name = "include" → SpellsOptional children m.value.text v →
      GivesParts flags children l x none → GivesParts flags children (m :: l) x (some v)
  | other {m : Member} {l : List Member} {x : Option (Option α)} {y : Option (Option β)} :
      m.name ≠ "select" → m.name ≠ "include" → IsValue m.value.text →
      GivesParts flags children l x y → GivesParts flags children (m :: l) x y

inductive SpellsNode (flags : List Char → α → Prop) (children : List Char → β → Prop) :
    List Char → Option α → Option β → Prop
  | object {w : List Char} {members : List Member} {x : Option (Option α)}
      {y : Option (Option β)} : Blank w → GivesParts flags children members x y →
      SpellsNode flags children
        ('\x7b' :: w ++ commaSeparated (members.map Member.chars) ++ ['\x7d']) x.join y.join
  | array {p q : Padded} {x : Option α} {y : Option β} : SpellsOptional flags p.text x →
      SpellsOptional children q.text y →
      SpellsNode flags children ('[' :: p.chars ++ ',' :: q.chars ++ [']']) x y

def SpellsFlag (w : List Char) (b : Bool) : Prop := w = boolChars b

/--
The text spells the listing, and apart from members without a meaning at most so many containers
are nested in it. A node is one container, and each of its parts is another.
-/
def SpellsListing : Nat → List Char → Listing → Prop
  | 0, _, _ => False
  | 1, w, .node flags children =>
    SpellsNode (fun _ _ => False) (fun _ _ => False) w flags children
  | n + 2, w, .node flags children =>
    SpellsNode (SpellsMap SpellsFlag) (SpellsMap (SpellsListing n)) w flags children

def SpellsListingText (n : Nat) (text : String) (t : Listing) : Prop :=
  ∃ p : Padded, p.chars = text.toList ∧ SpellsListing n p.text t

end Spelling

section Parts

variable {α β γ : Type} {flags flags' : List Char → α → Prop} {children : List Char → β → Prop}
  {children' : List Char → γ → Prop} {f : β → γ}

theorem SpellsOptional.map {w : List Char} {v : Option β}
    (h : SpellsOptional children w v) (hc : ∀ w v, children w v → children' w (f v)) :
    SpellsOptional children' w (v.map f) := by
  cases h with
  | null => exact .null
  | value h => exact .value (hc _ _ h)

theorem GivesParts.map {l : List Member} {x : Option (Option α)} {y : Option (Option β)}
    (h : GivesParts flags children l x y) (hf : ∀ w v, flags w v → flags' w v)
    (hc : ∀ w v, children w v → children' w (f v)) :
    GivesParts flags' children' l x (y.map (·.map f)) := by
  induction h with
  | nil => exact .nil
  | select hn hv _ ih => exact .select hn (by simpa using hv.map (f := id) hf) ih
  | nested hn hv _ ih => exact .nested hn (hv.map hc) ih
  | other hs hi hv _ ih => exact .other hs hi hv ih

theorem SpellsNode.map {w : List Char} {x : Option α} {y : Option β}
    (h : SpellsNode flags children w x y) (hf : ∀ w v, flags w v → flags' w v)
    (hc : ∀ w v, children w v → children' w (f v)) :
    SpellsNode flags' children' w x (y.map f) := by
  cases h with
  | @object w members x y hw hm =>
    have hj : (y.map (·.map f)).join = y.join.map f := by
      cases y <;> rfl
    rw [← hj]
    exact .object hw (hm.map hf hc)
  | array hx hy =>
    have hx' := hx.map (f := id) hf
    rw [Option.map_id_fun, id_eq] at hx'
    exact .array hx' (hy.map hc)

end Parts

section Readers

variable {α β σ : Type} {w s rest : List Char}

theorem yields_memberValue {value : Reader α} {m : Member} {v : α} (add : α → σ)
    (h : Reads value m.value.text v) (hr : Follows rest) :
    Yields (memberValue value add (m.label.after ++
      ':' :: (m.value.before ++ (m.value.text ++ rest)))) (add v) rest := by
  obtain ⟨_, hc⟩ := m.afterColon_eq h.starts rest
  obtain ⟨_, hp⟩ := (h.yields rest hr).eq_ok
  simp only [memberValue, hc, hp]
  exact ⟨_, rfl, rfl, rfl⟩

theorem reads_boolean (b : Bool) : Reads boolean (boolChars b) b := by
  cases b with
  | false =>
    refine ⟨⟨'f', _, rfl, by decide, by decide⟩, fun rest _ => ?_⟩
    exact yields_wordValue ['a', 'l', 's', 'e'] false 'f' rest
  | true =>
    refine ⟨⟨'t', _, rfl, by decide, by decide⟩, fun rest _ => ?_⟩
    exact yields_wordValue ['r', 'u', 'e'] true 't' rest

theorem SpellsMap.reads {spells : List Char → β → Prop} {value : Reader α} {f : β → α}
    {l : List (String × β)} (h : SpellsMap spells w l)
    (hv : ∀ w v, spells w v → Reads value w (f v)) :
    Reads (mapOf (some value)) w (Entries.mapValues f l) := by
  obtain @⟨w, members, hw, hm⟩ := h
  refine ⟨⟨'\x7b', _, rfl, by decide, by decide⟩, fun rest _ => ?_⟩
  have hk : ∀ e ∈ members.map fun e => (e.1, f e.2), Reads value e.1.value.text e.2 := by
    rintro e he
    obtain ⟨e, hm', rfl⟩ := List.mem_map.1 he
    exact hv _ _ (hm e hm')
  obtain ⟨_, hy⟩ := (yields_objectOf hw (runs_keepMember hk []) rest).eq_ok
  have he : '\x7b' :: w ++ commaSeparated (members.map fun e => e.1.chars) ++ ['\x7d'] ++ rest =
      '\x7b' :: (w ++ (commaSeparated (((members.map fun e => (e.1, f e.2)).map Prod.fst).map
        Member.chars) ++ '\x7d' :: rest)) := by simp [Function.comp_def]
  rw [he, mapOf]
  simp only [hy]
  exact ⟨_, rfl, by simp [Piece.behind, Piece.widen, Piece.map, Entries.mapValues], rfl⟩

theorem eq_cons_of_mapOf_eq_ok {value? : Option (Reader α)} {p : Piece (List (String × α)) s}
    (h : mapOf value? s = .ok p) : ∃ v, s = '\x7b' :: v := by
  unfold mapOf at h
  split at h
  · exact ⟨_, rfl⟩
  · cases h

theorem eq_cons_of_reads_mapOf {value? : Option (Reader α)} {l : List (String × α)}
    (h : Reads (mapOf value?) w l) : ∃ v, w = '\x7b' :: v := by
  obtain ⟨_, hp⟩ := (h.yields [] fun _ hc => by cases hc).eq_ok
  obtain ⟨v, hv⟩ := eq_cons_of_mapOf_eq_ok hp
  rw [List.append_nil] at hv
  exact ⟨v, hv⟩

theorem SpellsOptional.reads {value? : Option (Reader α)} {v : Option (List (String × α))}
    (h : SpellsOptional (Reads (mapOf value?)) w v) : Reads (optional (mapOf value?)) w v := by
  cases h with
  | null =>
    refine ⟨⟨'n', _, rfl, by decide, by decide⟩, fun rest _ => ?_⟩
    exact yields_wordValue ['u', 'l', 'l'] none 'n' rest
  | value h =>
    refine ⟨h.starts, fun rest hr => ?_⟩
    have hy := h.yields rest hr
    obtain ⟨v, rfl⟩ := eq_cons_of_reads_mapOf h
    exact hy.map (·.map some) fun p hp => ⟨congrArg some hp, rfl⟩

theorem nextItem_eq {item : Reader α} {v : α} {t : List Char} (h : Reads item w v)
    (hr : Follows rest) (hs : skipSpace s = ',' :: t) (ht : skipSpace t = w ++ rest) :
    ∃ hl, nextItem item s = .ok (some v, ⟨rest, hl⟩) := by
  obtain ⟨hp, hy⟩ := (h.yields rest hr).eq_ok
  obtain ⟨c, u, rfl, -, hc⟩ := h.starts
  unfold nextItem
  generalize length_skipSpace_le s = hl
  revert hl
  rw [hs]
  intro hl
  dsimp only
  rw [if_neg (by decide), if_pos rfl]
  generalize length_skipSpace_le t = hn
  revert hn
  rw [ht]
  intro hn
  simp only [List.cons_append] at hy ⊢
  rw [if_neg hc, hy]
  exact ⟨Nat.le_trans (Nat.le_of_lt hp) (Nat.le_trans hn (Nat.le_of_lt hl)), rfl⟩

theorem yields_arrayEnd (h : skipSpace s = ']' :: rest) : Yields (arrayEnd s) () rest := by
  unfold arrayEnd
  generalize length_skipSpace_le s = hl
  revert hl
  rw [h]
  exact fun hl => ⟨_, if_pos rfl, rfl, rfl⟩

theorem yields_pairOf_steps {first : Reader α} {second : Reader β} {c : Char} {x : α}
    {y : Option β} {t r u : List Char} {hr : r.length < (c :: t).length}
    {hu : u.length ≤ r.length} (hs : skipSpace s = c :: t) (hc : c ≠ ']')
    (hx : first (c :: t) = .ok ⟨x, r, hr⟩) (hy : nextItem second r = .ok (y, ⟨u, hu⟩))
    (he : Yields (arrayEnd u) () rest) : Yields (pairOf first second s) (some x, y) rest := by
  unfold pairOf
  generalize length_skipSpace_le s = hl
  revert hl
  rw [hs]
  intro hl
  obtain ⟨_, he⟩ := he.eq_ok
  dsimp only
  rw [if_neg hc, hx]
  simp only [hy, he]
  exact ⟨_, rfl, rfl, rfl⟩

theorem yields_pairOf {first : Reader α} {second : Reader β} {p q : Padded} {x : α} {y : β}
    (hx : Reads first p.text x) (hy : Reads second q.text y) (rest : List Char) :
    Yields (pairOf first second (p.chars ++ ',' :: (q.chars ++ ']' :: rest))) (some x, some y)
      rest := by
  have hs := Padded.skipSpace_append hx.starts (',' :: (q.chars ++ ']' :: rest))
  have hf : Follows (p.after ++ ',' :: (q.chars ++ ']' :: rest)) :=
    p.blank_after.follows_append fun c hc => by cases hc; simp
  have hg : Follows (q.after ++ ']' :: rest) :=
    q.blank_after.follows_append fun c hc => by cases hc; simp
  have hv := hx.yields _ hf
  obtain ⟨_, hq⟩ := nextItem_eq hy hg (p.blank_after.skipSpace_append_cons (by decide))
    (Padded.skipSpace_append hy.starts (']' :: rest))
  obtain ⟨c, u, hc, -, hn⟩ := hx.starts
  rw [hc, List.cons_append] at hs hv
  obtain ⟨_, hp⟩ := hv.eq_ok
  exact yields_pairOf_steps hs hn hp hq
    (yields_arrayEnd (q.blank_after.skipSpace_append_cons (by decide)))

end Readers

namespace Selection

variable {a : Option (Reader Bool)} {b : Option (Reader Selection)} {w : List Char}

theorem runs_member {l : List Member} {x : Option (Option (List (String × Bool)))}
    {y : Option (Option (List (String × Selection)))}
    (h : GivesParts (Reads (mapOf a)) (Reads (mapOf b)) l x y) (parts : Parts)
    (hx : x.isSome → parts.select = none) (hy : y.isSome → parts.nested = none) :
    Runs (member (mapOf a) (mapOf b)) parts l
      ⟨x.or parts.select, y.or parts.nested⟩ := by
  -- A part that is still to come has not been met, so that it is no duplicate.
  induction h generalizing parts with
  | nil => rfl
  | @select m l v y hn hv h ih =>
    have hp : parts.select = none := hx rfl
    refine ⟨{ parts with select := some v }, fun rest hr => ?_, ?_⟩
    · rw [member, if_pos hn]
      simp only [hp]
      exact yields_memberValue _ hv.reads hr
    · exact ih _ (fun h => by cases h) hy
  | @nested m l x v hn hv h ih =>
    have hp : parts.nested = none := hy rfl
    refine ⟨{ parts with nested := some v }, fun rest hr => ?_, ?_⟩
    · have hs : m.name ≠ "select" := by simp [hn]
      rw [member, if_neg hs, if_pos hn]
      simp only [hp]
      exact yields_memberValue _ hv.reads hr
    · exact ih _ hx (fun h => by cases h)
  | @other m l x y hs hi hv h ih =>
    refine ⟨parts, fun rest hr => ?_, ih parts hx hy⟩
    rw [member, if_neg hs, if_neg hi]
    exact hv.yields_skipMember parts hr

theorem reads_layout {x : Option (List (String × Bool))} {y : Option (List (String × Selection))}
    (h : SpellsNode (Reads (mapOf a)) (Reads (mapOf b)) w x y) :
    Reads (layout (mapOf a) (mapOf b)) w
      (.node (x.map OrderedMap.ofList) (y.map Entries.ofList)) := by
  cases h with
  | @object w members x y hw hm =>
    refine ⟨⟨'\x7b', _, rfl, by decide, by decide⟩, fun rest _ => ?_⟩
    have hr := runs_member hm {} (fun _ => rfl) (fun _ => rfl)
    rw [Option.or_none, Option.or_none] at hr
    obtain ⟨_, hy⟩ := (yields_objectOf hw hr rest).eq_ok
    have he : '\x7b' :: w ++ commaSeparated (members.map Member.chars) ++ ['\x7d'] ++ rest =
        '\x7b' :: (w ++ (commaSeparated (members.map Member.chars) ++ '\x7d' :: rest)) := by simp
    rw [he, layout, hy]
    exact ⟨_, rfl, rfl, rfl⟩
  | @array p q x y hx hy =>
    refine ⟨⟨'[', _, rfl, by decide, by decide⟩, fun rest _ => ?_⟩
    obtain ⟨_, hp⟩ := (yields_pairOf hx.reads hy.reads rest).eq_ok
    have he : '[' :: p.chars ++ ',' :: q.chars ++ [']'] ++ rest =
        '[' :: (p.chars ++ ',' :: (q.chars ++ ']' :: rest)) := by simp
    rw [he, layout, hp]
    exact ⟨_, rfl, rfl, rfl⟩

/-- By recursion on the depth: the readers of both parts take what spells the parts. -/
theorem reads_reader : ∀ {n : Nat} {w : List Char} {t : Listing}, SpellsListing n w t →
    Reads (reader n) w t.selection
  | 0, _, _, h => h.elim
  | 1, w, .node x y, h => by
    have hm : SpellsNode (Reads (mapOf none)) (Reads (mapOf none)) w x
        (y.map Listing.selections) := h.map (fun _ _ h => h.elim) (fun _ _ h => h.elim)
    have hr := reads_layout hm
    rw [Option.map_map] at hr
    rw [Listing.selection_node, reader]
    exact hr
  | n + 2, w, .node x y, h => by
    have hb : ∀ w l, SpellsMap SpellsFlag w l → Reads (mapOf (some boolean)) w l := by
      intro w l h
      have hi : Entries.mapValues id l = l := List.map_id l
      exact hi ▸ h.reads (f := id) fun w b hb => hb ▸ reads_boolean b
    have hm : SpellsNode (Reads (mapOf (some boolean))) (Reads (mapOf (some (reader n)))) w x
        (y.map Listing.selections) :=
      h.map hb fun w l h => h.reads fun w t ht => reads_reader ht
    have hr := reads_layout hm
    rw [Option.map_map] at hr
    rw [Listing.selection_node, reader]
    exact hr

theorem ofJsonText_of_spells {text : String} {t : Listing} (h : SpellsListingText maxDepth text t) :
    ofJsonText text = .ok t.selection := by
  obtain ⟨p, hp, hs⟩ := h
  exact (reads_reader hs).readText_eq hp

end Selection

end NestedSelection
