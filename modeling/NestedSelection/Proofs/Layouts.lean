import Mathlib.Data.List.Forall2
import NestedSelection.Proofs.Entries
import NestedSelection.Schema.Document

/-! # The layouts of a schema

The documents that lay out a schema, said without reading them. A record gives each of its fields at
most once, under any of the field's names and among any others, or gives them in their order. A
document in one of the layouts is read as the schema that it lays out.
-/

namespace NestedSelection

namespace Document

def under (names : List String) (entries : List (String × Document)) : List Document :=
  (entries.filter fun e => e.1 ∈ names).map Prod.snd

def named (entries : List (String × Document)) : Document :=
  .mapping (entries.map fun e => (.name e.1, e.2))

/-- Each field is given at most once, and its value is the one in its slot. -/
def Fills (fields : FieldNames) (entries : List (String × Document))
    (slots : List (Option Document)) : Prop :=
  List.Forall₂ (fun names slot => under names entries = slot.toList) fields slots

/-- The document gives the fields of a record these values. The last fields of a sequence may be
left out. -/
inductive Gives (fields : FieldNames) : Document → List (Option Document) → Prop
  | byName {entries : List (String × Document)} {slots : List (Option Document)} :
      Fills fields entries slots → Gives fields (named entries) slots
  | inOrder {items : List Document} {n : Nat} : items.length + n = fields.length →
      Gives fields (.sequence items) (items.map some ++ List.replicate n none)

variable {α : Type}

/-- A field that is left out has its default. -/
inductive LaysField (lays : Document → α → Prop) (default : α) : Option Document → α → Prop
  | omitted : LaysField lays default none default
  | given {d : Document} {x : α} : lays d x → LaysField lays default (some d) x

inductive LaysOption (lays : Document → α → Prop) : Document → Option α → Prop
  | absent : LaysOption lays .null none
  | present {d : Document} {x : α} : lays d x → LaysOption lays d (some x)

inductive LaysText : Document → String → Prop
  | intro (s : String) : LaysText (.text s) s

inductive LaysBool : Document → Bool → Prop
  | intro (b : Bool) : LaysBool (.bool b) b

inductive LaysList (lays : Document → α → Prop) : Document → List α → Prop
  | intro {l : List (Document × α)} : (∀ e ∈ l, lays e.1 e.2) →
      LaysList lays (.sequence (l.map Prod.fst)) (l.map Prod.snd)

/-- Keys may be repeated, as long as all of the values are values of the map. -/
inductive LaysMap (lays : Document → α → Prop) : Document → OrderedMap α → Prop
  | intro {l : List (String × Document × α)} {m : OrderedMap α} : (∀ e ∈ l, lays e.2.1 e.2.2) →
      Entries.Settles (l.map fun e => (e.1, e.2.2)) m.entries →
      LaysMap lays (named (l.map fun e => (e.1, e.2.1))) m

inductive LaysJson : Document → Json → Prop
  | null : LaysJson .null .null
  | bool (b : Bool) : LaysJson (.bool b) (.bool b)
  | integer (n : Int) : LaysJson (.integer n) (.integer n)
  | text (s : String) : LaysJson (.text s) (.text s)
  | array {l : List (Document × Json)} : (∀ e ∈ l, LaysJson e.1 e.2) →
      LaysJson (.sequence (l.map Prod.fst)) (.array (l.map Prod.snd))
  | object {l : List (String × Document × Json)} {m : Entries Json} :
      (∀ e ∈ l, LaysJson e.2.1 e.2.2) → Entries.Settles (l.map fun e => (e.1, e.2.2)) m →
      LaysJson (named (l.map fun e => (e.1, e.2.1))) (.object m)

def LaysRelationship (d : Document) (r : Relationship) : Prop :=
  ∃ name columns table referencedColumns oneToOne,
    Gives [["foreignKeyName", "foreign_key_name"], ["columns"],
      ["referencedTable", "referencedRelation", "referenced_table"],
      ["referencedColumns", "referenced_columns"], ["isOneToOne", "is_one_to_one"]] d
      [name, columns, table, referencedColumns, oneToOne] ∧
    LaysField (LaysOption LaysText) none name r.foreignKeyName ∧
    LaysField (LaysList LaysText) [] columns r.columns ∧
    LaysField (LaysOption LaysText) none table r.referencedTable ∧
    LaysField (LaysList LaysText) [] referencedColumns r.referencedColumns ∧
    LaysField (LaysOption LaysBool) none oneToOne r.isOneToOne

def LaysTable (d : Document) (t : Table) : Prop :=
  ∃ row relationships,
    Gives [["row", "Row"], ["relationships", "Relationships"]] d [row, relationships] ∧
    LaysField (LaysMap LaysJson) ∅ row t.row ∧
    LaysField (LaysList LaysRelationship) [] relationships t.relationships

def LaysTables (d : Document) (s : Schema) : Prop :=
  ∃ tables, Gives [["tables", "Tables"]] d [tables] ∧
    LaysField (LaysMap LaysTable) ∅ tables s.tables

/-- A schema by itself, where nothing is called `public`, or under this name, among any others. -/
inductive LaysSchema : Document → Schema → Prop
  | flat {d : Document} {s : Schema} : LaysTables d s →
      (∀ entries, d = named entries → under ["public"] entries = []) → LaysSchema d s
  | namespaced {entries : List (String × Document)} {d : Document} {s : Schema} :
      under ["public"] entries = [d] → LaysTables d s → LaysSchema (named entries) s

section Records

variable {fields : FieldNames} {d : Document} {slots : List (Option Document)}

theorem under_concat_of_mem {names : List String} {l : List (String × Document)}
    {e : String × Document} (h : e.1 ∈ names) :
    under names (l ++ [e]) = under names l ++ [e.2] := by
  simp [under, h]

theorem under_concat_of_not_mem {names : List String} {l : List (String × Document)}
    {e : String × Document} (h : e.1 ∉ names) : under names (l ++ [e]) = under names l := by
  simp [under, h]

theorem not_mem_of_ne (hn : fields.flatten.Nodup) {name : String} {i j : Nat}
    (hi : i < fields.length) (hj : j < fields.length) (hm : name ∈ fields[i]) (hij : i ≠ j) :
    name ∉ fields[j] := by
  have hp := List.pairwise_iff_getElem.1 (List.nodup_flatten.1 hn).2
  intro hm'
  rcases Nat.lt_or_gt_of_ne hij with h | h
  · exact hp i j hi hj h hm hm'
  · exact hp j i hj hi h hm' hm

theorem assign?_unknown {name : String} (h : ∀ names ∈ fields, name ∉ names) :
    assign? fields slots (.name name, d) = some slots := by
  have hi : fields.findIdx? (·.contains name) = none :=
    List.findIdx?_eq_none_iff.2 fun names hn => by simpa using h names hn
  simp only [assign?, FieldNames.index?, hi]
  rfl

theorem assign?_set {name : String} {i : Nat} (hi : fields.findIdx? (·.contains name) = some i)
    (hl : i < slots.length) (hs : slots[i] = some d) :
    assign? fields (slots.set i none) (.name name, d) = some slots := by
  have hg : (slots.set i none)[i]? = some none := List.getElem?_set_self hl
  simp only [assign?, FieldNames.index?, hi, hg, List.set_set, ← hs, List.set_getElem_self]
  rfl

theorem toList_eq_concat {o : Option α} {l : List α} {x : α} (h : o.toList = l ++ [x]) :
    l = [] ∧ o = some x := by
  cases o with
  | none => simp at h
  | some y =>
    obtain ⟨rfl, hy⟩ := List.append_inj' (show [] ++ [y] = l ++ [x] from h) rfl
    exact ⟨rfl, congrArg some (List.singleton_inj.1 hy)⟩

/-- One more entry of a record, whose names are distinct, goes to the field that it names. -/
theorem assign?_eq {l : List (String × Document)} {e : String × Document}
    (hn : fields.flatten.Nodup) (h : Fills fields (l ++ [e]) slots) :
    ∃ before, Fills fields l before ∧ assign? fields before (.name e.1, e.2) = some slots := by
  obtain ⟨hl, hg⟩ := List.forall₂_iff_get.1 h
  simp only [List.get_eq_getElem] at hg
  cases hi : fields.findIdx? (·.contains e.1) with
  | none =>
    have hc : ∀ names ∈ fields, e.1 ∉ names := by simpa using List.findIdx?_eq_none_iff.1 hi
    refine ⟨slots, List.forall₂_iff_get.2 ⟨hl, fun j hj hj' => ?_⟩, assign?_unknown hc⟩
    have := hg j hj hj'
    rwa [under_concat_of_not_mem (hc _ (List.getElem_mem hj))] at this
  | some i =>
    obtain ⟨hlt, hc, -⟩ := List.findIdx?_eq_some_iff_getElem.1 hi
    rw [List.contains_iff_mem] at hc
    have hlt' : i < slots.length := hl ▸ hlt
    obtain ⟨hu, hs⟩ := toList_eq_concat ((hg i hlt hlt').symm.trans (under_concat_of_mem hc))
    -- The entry is the only one for its field, so the slot was empty before it.
    refine ⟨slots.set i none, List.forall₂_iff_get.2 ⟨by simpa using hl, fun j hj hj' => ?_⟩,
      assign?_set hi hlt' hs⟩
    rw [List.get_eq_getElem, List.get_eq_getElem, List.getElem_set]
    by_cases hij : i = j
    · subst hij
      rw [if_pos rfl, hu]
      rfl
    · have := hg j hj (hl ▸ hj)
      rw [under_concat_of_not_mem (not_mem_of_ne hn hlt hj hc hij)] at this
      simpa only [if_neg hij] using this

theorem Fills.slots_eq_none (h : Fills fields [] slots) : slots = fields.map fun _ => none := by
  induction h with
  | nil => rfl
  | cons h _ ih => rw [List.map_cons, ← ih, Option.toList_eq_nil_iff.1 h.symm]

theorem Gives.record?_eq (hn : fields.flatten.Nodup) (h : Gives fields d slots) :
    record? fields d = some slots := by
  cases h with
  | inOrder hl =>
    rename_i items n
    have hd : fields.length - items.length = n := by omega
    rw [record?, if_pos (by omega), hd]
  | byName h =>
    rename_i entries
    rw [named, record?]
    induction entries using List.reverseRecOn generalizing slots with
    | nil =>
      rw [Fills.slots_eq_none h]
      rfl
    | append_singleton l e ih =>
      obtain ⟨before, hb, ha⟩ := assign?_eq hn h
      rw [List.map_append, List.foldlM_append, ih hb, List.map_singleton, Option.bind_eq_bind,
        Option.bind_some, List.foldlM_cons, ha]
      rfl

end Records

section Values

variable {lays : Document → α → Prop} {read : Document → Option α} {d : Document}

theorem mapM_map_eq_some {β γ : Type} {f : α → Option β} {g : γ → α} {k : γ → β} {l : List γ}
    (h : ∀ e ∈ l, f (g e) = some (k e)) : (l.map g).mapM f = some (l.map k) := by
  rw [mapM_eq_some_iff, List.map_map, List.map_map]
  exact List.map_congr_left h

theorem LaysField.orDefault?_eq {default x : α} {slot : Option Document}
    (h : LaysField lays default slot x) (hr : ∀ {d x}, lays d x → read d = some x) :
    orDefault? read default slot = some x := by
  cases h with
  | omitted => rfl
  | given h => exact hr h

theorem LaysOption.optional?_eq {x : Option α} (h : LaysOption lays d x)
    (hr : ∀ {d x}, lays d x → read d = some x) (hn : ∀ x, ¬ lays .null x) :
    optional? read d = some x := by
  cases h with
  | absent => rfl
  | present h =>
    rename_i x
    have ho : optional? read d = (read d).map some := by
      cases d with
      | null => exact absurd h (hn x)
      | _ => rfl
    rw [ho, hr h]
    rfl

theorem LaysText.text?_eq {x : String} (h : LaysText d x) : text? d = some x := by
  cases h
  rfl

theorem LaysBool.bool?_eq {x : Bool} (h : LaysBool d x) : bool? d = some x := by
  cases h
  rfl

theorem LaysList.list?_eq {l : List α} (h : LaysList lays d l)
    (hr : ∀ {d x}, lays d x → read d = some x) : list? read d = some l := by
  cases h with
  | intro h => exact mapM_map_eq_some fun e he => hr (h e he)

theorem namedEntries?_named (l : List (String × Document)) :
    (named l).namedEntries? = some l := by
  have h := mapM_map_eq_some (l := l) (k := id) (g := fun e => ((.name e.1 : Key), e.2))
    (f := fun e => e.1.name?.map (·, e.2)) fun _ _ => rfl
  rwa [List.map_id] at h

theorem LaysMap.map?_eq {m : OrderedMap α} (h : LaysMap lays d m)
    (hr : ∀ {d x}, lays d x → read d = some x) : map? read d = some m := by
  cases h with
  | @intro l m h hm =>
    have hv := mapM_map_eq_some (l := l) (g := fun e => (e.1, e.2.1)) (k := fun e => (e.1, e.2.2))
      (f := fun e => (read e.2).map (e.1, ·)) fun e he => by rw [hr (h e he)]; rfl
    rw [map?, namedEntries?_named]
    simp only [bind, Option.bind, hv]
    exact congrArg some (OrderedMap.ext hm.eq_ofList.symm)

theorem itemsToJson?_eq {l : List (Document × Json)} (h : ∀ e ∈ l, toJson? e.1 = some e.2) :
    itemsToJson? (l.map Prod.fst) = some (l.map Prod.snd) := by
  induction l with
  | nil => rfl
  | cons e l ih =>
    obtain ⟨he, hl⟩ := List.forall_mem_cons.1 h
    rw [List.map_cons, itemsToJson?, he, ih hl]
    rfl

theorem entriesToJson?_eq {l : List (String × Document × Json)}
    (h : ∀ e ∈ l, toJson? e.2.1 = some e.2.2) :
    entriesToJson? (l.map fun e => (.name e.1, e.2.1)) = some (l.map fun e => (e.1, e.2.2)) := by
  induction l with
  | nil => rfl
  | cons e l ih =>
    obtain ⟨he, hl⟩ := List.forall_mem_cons.1 h
    rw [List.map_cons, entriesToJson?, he, ih hl]
    rfl

theorem LaysJson.toJson?_eq {x : Json} (h : LaysJson d x) : toJson? d = some x := by
  induction h with
  | null => rw [toJson?]
  | bool b => rw [toJson?]
  | integer n => rw [toJson?]
  | text s => rw [toJson?]
  | array _ ih => rw [toJson?, itemsToJson?_eq ih, Option.map_some]
  | object _ hm ih =>
    rw [named, List.map_map, toJson?, hm.eq_ofList]
    exact congrArg _ (entriesToJson?_eq ih)

end Values

section Schemas

variable {d : Document}

theorem LaysText.not_null (x : String) : ¬ LaysText .null x := nofun

theorem LaysBool.not_null (x : Bool) : ¬ LaysBool .null x := nofun

theorem LaysRelationship.ofDocument?_eq {r : Relationship} (h : LaysRelationship d r) :
    Relationship.ofDocument? d = some r := by
  obtain ⟨name, columns, table, referencedColumns, oneToOne, hg, hn, hc, ht, hr, ho⟩ := h
  have optionalText : ∀ {d x}, LaysOption LaysText d x → optional? text? d = some x :=
    fun h => h.optional?_eq LaysText.text?_eq LaysText.not_null
  have texts : ∀ {d x}, LaysList LaysText d x → list? text? d = some x :=
    fun h => h.list?_eq LaysText.text?_eq
  have hs : record? Relationship.fieldNames d =
      some [name, columns, table, referencedColumns, oneToOne] := hg.record?_eq (by decide)
  simp only [Relationship.ofDocument?, hs, bind, Option.bind, hn.orDefault?_eq optionalText,
    hc.orDefault?_eq texts, ht.orDefault?_eq optionalText, hr.orDefault?_eq texts,
    ho.orDefault?_eq fun h => h.optional?_eq LaysBool.bool?_eq LaysBool.not_null]
  rfl

theorem LaysTable.ofDocument?_eq {t : Table} (h : LaysTable d t) :
    Table.ofDocument? d = some t := by
  obtain ⟨row, relationships, hg, hr, hl⟩ := h
  have hs : record? Table.recordNames d = some [row, relationships] := hg.record?_eq (by decide)
  simp only [Table.ofDocument?, hs, bind, Option.bind,
    hr.orDefault?_eq fun h => h.map?_eq LaysJson.toJson?_eq,
    hl.orDefault?_eq fun h => h.list?_eq LaysRelationship.ofDocument?_eq]
  rfl

theorem LaysTables.ofFlat?_eq {s : Schema} (h : LaysTables d s) : Schema.ofFlat? d = some s := by
  obtain ⟨tables, hg, ht⟩ := h
  have hs : record? Schema.recordNames d = some [tables] := hg.record?_eq (by decide)
  simp only [Schema.ofFlat?, hs, bind, Option.bind,
    ht.orDefault?_eq fun h => h.map?_eq LaysTable.ofDocument?_eq]
  rfl

theorem ofNamespaced?_named {entries : List (String × Document)} (slot : Option Document)
    (h : under ["public"] entries = slot.toList) :
    Schema.ofNamespaced? (named entries) = slot.bind Schema.ofFlat? := by
  have hg : Gives [["public"]] (named entries) [slot] := .byName (.cons h .nil)
  have hs := hg.record?_eq (by decide)
  rw [named] at hs ⊢
  rw [Schema.ofNamespaced?, hs]
  cases slot <;> rfl

theorem Gives.eq_sequence_or_named {fields : FieldNames} {slots : List (Option Document)}
    (h : Gives fields d slots) : (∃ items, d = .sequence items) ∨ ∃ entries, d = named entries := by
  cases h with
  | byName => exact .inr ⟨_, rfl⟩
  | inOrder => exact .inl ⟨_, rfl⟩

theorem LaysSchema.ofDocument?_eq {s : Schema} (h : LaysSchema d s) :
    Schema.ofDocument? d = some s := by
  cases h with
  | flat h hp =>
    have hn : Schema.ofNamespaced? d = none := by
      obtain ⟨tables, hg, -⟩ := h
      rcases hg.eq_sequence_or_named with ⟨items, rfl⟩ | ⟨entries, rfl⟩
      · rfl
      · exact ofNamespaced?_named none (hp entries rfl)
    rw [Schema.ofDocument?, hn, h.ofFlat?_eq]
    rfl
  | namespaced hp h =>
    rw [Schema.ofDocument?, ofNamespaced?_named (some _) hp, Option.bind_some, h.ofFlat?_eq]
    rfl

end Schemas

end Document

end NestedSelection
