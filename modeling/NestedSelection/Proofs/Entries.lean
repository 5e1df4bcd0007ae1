import Mathlib.Data.List.Induction
import Mathlib.Data.List.Nodup
import NestedSelection.OrderedMap

/-! # Entering and looking up

What an ordered map holds after a key was entered, and what is found under a key. In a map no key
occurs twice, so an entry is in the list exactly if it is found there.
-/

namespace NestedSelection

theorem mapM_eq_some_iff {α β : Type} {f : α → Option β} {l : List α} {r : List β} :
    l.mapM f = some r ↔ l.map f = r.map some := by
  induction l generalizing r with
  | nil => cases r <;> simp
  | cons a l ih =>
    rw [List.mapM_cons, List.map_cons]
    cases f a with
    | none => cases r <;> simp
    | some b =>
      cases r with
      | nil => cases l.mapM f <;> simp
      | cons c r =>
        rw [List.map_cons, List.cons.injEq, ← ih]
        cases l.mapM f <;> simp

namespace Entries

variable {α β : Type} {m : Entries α} {key : String} {value : α}

theorem mem_keys {e : String × α} (h : e ∈ m) : e.1 ∈ keys m := List.mem_map_of_mem h

theorem exists_of_mem_keys (h : key ∈ keys m) : ∃ value, (key, value) ∈ m := by
  obtain ⟨⟨k, value⟩, he, rfl⟩ := List.mem_map.1 h
  exact ⟨value, he⟩

theorem contains_iff : contains m key = true ↔ key ∈ keys m := by
  simp [contains]

theorem mem_insert {e : String × α} (h : e ∈ insert m key value) : e = (key, value) ∨ e ∈ m := by
  induction m with
  | nil => simpa [insert] using h
  | cons f m ih =>
    obtain ⟨k, v⟩ := f
    by_cases hk : k = key
    · subst hk
      rw [insert, if_pos rfl] at h
      rcases List.mem_cons.1 h with rfl | h
      · exact .inl rfl
      · exact .inr (List.mem_cons_of_mem _ h)
    · rw [insert, if_neg hk] at h
      rcases List.mem_cons.1 h with rfl | h
      · exact .inr List.mem_cons_self
      · rcases ih h with h | h
        · exact .inl h
        · exact .inr (List.mem_cons_of_mem _ h)

theorem insert_of_not_mem (h : key ∉ keys m) : insert m key value = m ++ [(key, value)] := by
  induction m with
  | nil => rfl
  | cons e m ih =>
    obtain ⟨k, v⟩ := e
    rw [keys_cons, List.mem_cons, not_or] at h
    rw [insert, if_neg (Ne.symm h.1), ih h.2, List.cons_append]

theorem foldl_insert (l : List (String × α)) (h : (keys (m ++ l)).Nodup) :
    l.foldl (fun m e => insert m e.1 e.2) m = m ++ l := by
  induction l generalizing m with
  | nil => simp
  | cons e l ih =>
    have hk : e.1 ∉ keys m := by
      simp only [keys, List.map_append, List.map_cons] at h
      exact fun hm => List.disjoint_of_nodup_append h hm List.mem_cons_self
    rw [List.foldl_cons, insert_of_not_mem hk, ih (by simpa using h), List.append_assoc,
      List.singleton_append]

theorem ofList_eq_self {l : List (String × α)} (h : (keys l).Nodup) : ofList l = l :=
  foldl_insert l h

theorem mem_of_mem_foldl_insert (l : List (String × α)) {e : String × α}
    (h : e ∈ l.foldl (fun m e => insert m e.1 e.2) m) : e ∈ m ∨ e ∈ l := by
  induction l generalizing m with
  | nil => exact .inl h
  | cons f l ih =>
    rcases ih h with h | h
    · rcases mem_insert h with rfl | h
      · exact .inr List.mem_cons_self
      · exact .inl h
    · exact .inr (List.mem_cons_of_mem _ h)

theorem mem_ofList {l : List (String × α)} {e : String × α} (h : e ∈ ofList l) : e ∈ l := by
  rcases mem_of_mem_foldl_insert l h with h | h
  · cases h
  · exact h

theorem lookup_eq_some_iff (h : (keys m).Nodup) : get? m key = some value ↔ (key, value) ∈ m := by
  rw [get?, List.lookup_eq_some_iff]
  constructor
  · rintro ⟨l, r, rfl, -⟩
    exact List.mem_append_right _ List.mem_cons_self
  · intro hm
    obtain ⟨l, r, rfl⟩ := List.append_of_mem hm
    refine ⟨l, r, rfl, fun e he => ?_⟩
    simp only [keys, List.map_append, List.map_cons] at h
    have hne : key ≠ e.1 := by
      rintro rfl
      exact List.disjoint_of_nodup_append h (List.mem_map_of_mem he) List.mem_cons_self
    simpa using hne

@[simp] theorem keys_mapValues (f : α → β) (m : Entries α) : keys (mapValues f m) = keys m := by
  simp [keys, mapValues, Function.comp_def]

theorem get?_mapValues {f : α → β} : get? (mapValues f m) key = (get? m key).map f := by
  induction m with
  | nil => rfl
  | cons e m ih =>
    obtain ⟨k, v⟩ := e
    simp only [get?, mapValues, List.map_cons, List.lookup_cons] at ih ⊢
    split
    · rfl
    · exact ih

/-- In a map that the entries of a list settle, each key has its first place and its last value. -/
structure Settles (l : List (String × α)) (m : Entries α) : Prop where
  keys_eq : keys m = (keys l).eraseDups
  get?_eq : ∀ key, get? m key = List.lookup key l.reverse

theorem get?_cons (k : String) (v : α) :
    get? ((k, v) :: m) key = if key = k then some v else get? m key := by
  by_cases h : key = k
  · simp [get?, h]
  · rw [get?, List.lookup_cons, beq_eq_false_iff_ne.2 h, if_neg h]
    rfl

theorem get?_insert (k : String) :
    get? (insert m key value) k = if k = key then some value else get? m k := by
  induction m with
  | nil => exact get?_cons key value
  | cons e m ih =>
    obtain ⟨k', v⟩ := e
    by_cases hk : k' = key
    · rw [insert, if_pos hk, get?_cons, get?_cons, hk]
      split <;> rfl
    · rw [insert, if_neg hk, get?_cons, get?_cons, ih]
      by_cases h : k = k'
      · rw [if_pos h, if_pos h, if_neg (h ▸ hk)]
      · rw [if_neg h, if_neg h]

theorem ofList_concat (l : List (String × α)) (e : String × α) :
    ofList (l ++ [e]) = insert (ofList l) e.1 e.2 := by
  rw [ofList, List.foldl_append]
  rfl

theorem keys_insert_eraseDups {l : List String} (h : keys m = l.eraseDups) :
    keys (insert m key value) = (l ++ [key]).eraseDups := by
  have hm : key ∈ keys m ↔ key ∈ l := by rw [h, List.mem_eraseDups]
  rw [List.eraseDups_append, ← h]
  by_cases hk : key ∈ l
  · rw [keys_insert_of_mem value (hm.2 hk)]
    simp [List.removeAll, hk]
  · rw [keys_insert_of_not_mem value (fun hc => hk (hm.1 hc))]
    simp [List.removeAll, hk, List.eraseDups_cons]

theorem settles_ofList (l : List (String × α)) : Settles l (ofList l) := by
  induction l using List.reverseRecOn with
  | nil => exact ⟨rfl, fun _ => rfl⟩
  | append_singleton l e ih =>
    rw [ofList_concat]
    constructor
    · rw [keys_insert_eraseDups ih.keys_eq, keys, keys, List.map_append, List.map_singleton]
    · intro key
      rw [get?_insert, ih.get?_eq, List.reverse_append, List.reverse_singleton]
      exact (get?_cons e.1 e.2).symm

theorem get?_eq_none (h : key ∉ keys m) : get? m key = none := by
  rw [get?, List.lookup_eq_none_iff]
  intro e he
  rw [bne_iff_ne]
  rintro rfl
  exact h (mem_keys he)

theorem Settles.of_ofList {l : List (String × α)} (h : ofList l = m) : Settles l m :=
  h ▸ settles_ofList l

theorem ext_get? {n : Entries α} (hm : (keys m).Nodup) (hk : keys m = keys n)
    (h : ∀ key, get? m key = get? n key) : m = n := by
  induction m generalizing n with
  | nil => exact (List.map_eq_nil_iff.1 hk.symm).symm
  | cons e m ih =>
    cases n with
    | nil => cases hk
    | cons f n =>
      obtain ⟨k, v⟩ := e
      obtain ⟨k', u⟩ := f
      obtain ⟨rfl, hkm⟩ : k = k' ∧ keys m = keys n := List.cons.inj hk
      obtain ⟨hn, hm⟩ := List.nodup_cons.1 hm
      have hv := h k
      rw [get?_cons, get?_cons, if_pos rfl, if_pos rfl] at hv
      obtain rfl := Option.some.inj hv
      refine congrArg _ (ih hm hkm fun key => ?_)
      by_cases he : key = k
      · subst he
        rw [get?_eq_none hn, get?_eq_none (hkm ▸ hn)]
      · simpa [get?_cons, he] using h key

theorem Settles.eq_ofList {l : List (String × α)} (h : Settles l m) : m = ofList l := by
  have ho := settles_ofList l
  refine (ext_get? (nodup_keys_ofList l) (ho.keys_eq.trans h.keys_eq.symm) fun key => ?_).symm
  rw [ho.get?_eq, h.get?_eq]

/-- A map is what is found under its keys, in their order. -/
theorem filterMap_keys (h : (keys m).Nodup) :
    (keys m).filterMap (fun key => (get? m key).map (key, ·)) = m := by
  have hm : ∀ e ∈ m, (get? m e.1).map (e.1, ·) = some e := by
    intro e he
    rw [(lookup_eq_some_iff h).2 he]
    rfl
  rw [keys, List.filterMap_map]
  exact (List.filterMap_congr hm).trans List.filterMap_some

/-- A list settles for each key its first place and its last value. -/
theorem ofList_eq_filterMap (l : List (String × α)) : ofList l =
    (keys l).eraseDups.filterMap fun key => (List.lookup key l.reverse).map (key, ·) := by
  have hs := settles_ofList l
  simp only [← hs.keys_eq, ← hs.get?_eq]
  exact (filterMap_keys (nodup_keys_ofList l)).symm

/-- A known key takes the new value, and nothing else changes. -/
theorem insert_of_mem (hm : (keys m).Nodup) (h : key ∈ keys m) : insert m key value =
    List.map (fun e => if e.1 = key then (key, value) else e) m := by
  induction m with
  | nil => simp at h
  | cons e m ih =>
    obtain ⟨k, v⟩ := e
    obtain ⟨hk, hm⟩ : k ∉ keys m ∧ (keys m).Nodup := List.nodup_cons.1 hm
    by_cases he : k = key
    · subst he
      have hr : ∀ e ∈ m, (if e.1 = k then (k, value) else e) = e := by
        intro e hr
        apply if_neg
        rintro rfl
        exact hk (mem_keys hr)
      rw [insert, if_pos rfl, List.map_cons, if_pos rfl, List.map_congr_left hr, List.map_id']
    · have hk : key ∈ keys m := by simpa [Ne.symm he] using h
      rw [insert, if_neg he, List.map_cons, if_neg he, ih hm hk]

end Entries

namespace OrderedMap

variable {α : Type} {m : OrderedMap α} {key : String} {value : α}

theorem get?_eq_some_iff : m.get? key = some value ↔ (key, value) ∈ m.entries :=
  Entries.lookup_eq_some_iff m.distinct

theorem contains_iff : m.contains key = true ↔ key ∈ m.keys := Entries.contains_iff

theorem mem_keys_iff : key ∈ m.keys ↔ ∃ value, (key, value) ∈ m.entries :=
  ⟨Entries.exists_of_mem_keys, fun ⟨_, h⟩ => Entries.mem_keys h⟩

theorem entries_foldl_insert (m : OrderedMap α) (l : List (String × α)) :
    (l.foldl (fun m e => m.insert e.1 e.2) m).entries =
      l.foldl (fun m e => Entries.insert m e.1 e.2) m.entries := by
  induction l generalizing m with
  | nil => rfl
  | cons e l ih => exact ih (m.insert e.1 e.2)

theorem ofList_concat (l : List (String × α)) (e : String × α) :
    ofList (l ++ [e]) = (ofList l).insert e.1 e.2 :=
  ext (Entries.ofList_concat l e)

theorem foldl_insert_empty (l : List (String × α)) :
    l.foldl (fun m e => m.insert e.1 e.2) ∅ = ofList l :=
  ext (entries_foldl_insert ∅ l)

end OrderedMap

end NestedSelection
