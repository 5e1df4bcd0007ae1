/-! # Ordered maps

Association lists with string keys, read in the order in which keys were first entered. Entering
a key again replaces its value and leaves it in its place. `Entries` is the plain list, which
recursive types can nest; `OrderedMap` adds the proof that no key occurs twice.
-/

namespace NestedSelection

abbrev Entries (α : Type) := List (String × α)

namespace Entries

variable {α β : Type}

def keys (m : Entries α) : List String := List.map Prod.fst m

def get? (m : Entries α) (key : String) : Option α := List.lookup key m

def contains (m : Entries α) (key : String) : Bool := (keys m).contains key

/-- A new key goes to the end; a known key keeps its place and takes the new value. -/
def insert (m : Entries α) (key : String) (value : α) : Entries α :=
  match m with
  | [] => [(key, value)]
  | (k, v) :: rest =>
    if k = key then (k, value) :: rest else (k, v) :: insert rest key value

/-- The entries of a list entered one after the other. -/
def ofList (l : List (String × α)) : Entries α :=
  l.foldl (fun m e => insert m e.1 e.2) []

def mapValues (f : α → β) (m : Entries α) : Entries β := List.map (fun e => (e.1, f e.2)) m

@[simp] theorem keys_nil : keys ([] : Entries α) = [] := rfl

@[simp] theorem keys_cons (e : String × α) (m : Entries α) : keys (e :: m) = e.1 :: keys m := rfl

theorem keys_insert_of_mem {m : Entries α} {key : String} (value : α) (h : key ∈ keys m) :
    keys (insert m key value) = keys m := by
  induction m with
  | nil => simp at h
  | cons e m ih =>
    obtain ⟨k, v⟩ := e
    by_cases hk : k = key
    · simp [insert, hk]
    · have : key ∈ keys m := by simpa [Ne.symm hk] using h
      simp [insert, hk, ih this]

theorem keys_insert_of_not_mem {m : Entries α} {key : String} (value : α) (h : key ∉ keys m) :
    keys (insert m key value) = keys m ++ [key] := by
  induction m with
  | nil => simp [insert]
  | cons e m ih =>
    obtain ⟨k, v⟩ := e
    simp only [keys_cons, List.mem_cons, not_or] at h
    simp [insert, Ne.symm h.1, ih h.2]

theorem nodup_keys_insert {m : Entries α} (key : String) (value : α) (h : (keys m).Nodup) :
    (keys (insert m key value)).Nodup := by
  by_cases hk : key ∈ keys m
  · rwa [keys_insert_of_mem value hk]
  · rw [keys_insert_of_not_mem value hk]
    refine List.nodup_append.2 ⟨h, by simp, ?_⟩
    intro a ha b hb
    obtain rfl : b = key := by simpa using hb
    exact fun hab => hk (hab ▸ ha)

theorem nodup_keys_foldl_insert (l : List (String × α)) {m : Entries α} (h : (keys m).Nodup) :
    (keys (l.foldl (fun m e => insert m e.1 e.2) m)).Nodup := by
  induction l generalizing m with
  | nil => exact h
  | cons e l ih => exact ih (nodup_keys_insert e.1 e.2 h)

theorem nodup_keys_ofList (l : List (String × α)) : (keys (ofList l)).Nodup :=
  nodup_keys_foldl_insert l (by simp)

end Entries

/-- A map that remembers the order in which its keys were first entered. -/
structure OrderedMap (α : Type) where
  entries : Entries α
  distinct : entries.keys.Nodup

namespace OrderedMap

variable {α β : Type}

@[ext] theorem ext {m n : OrderedMap α} (h : m.entries = n.entries) : m = n := by
  cases m; cases n; cases h; rfl

instance [DecidableEq α] : DecidableEq (OrderedMap α) := fun m n =>
  if h : m.entries = n.entries then isTrue (ext h) else isFalse fun e => h (e ▸ rfl)

def empty : OrderedMap α := ⟨[], by simp⟩

instance : EmptyCollection (OrderedMap α) := ⟨empty⟩

instance : Inhabited (OrderedMap α) := ⟨empty⟩

def keys (m : OrderedMap α) : List String := m.entries.keys

def size (m : OrderedMap α) : Nat := m.entries.length

def isEmpty (m : OrderedMap α) : Bool := m.entries.isEmpty

def get? (m : OrderedMap α) (key : String) : Option α := m.entries.get? key

def contains (m : OrderedMap α) (key : String) : Bool := m.entries.contains key

def insert (m : OrderedMap α) (key : String) (value : α) : OrderedMap α :=
  ⟨m.entries.insert key value, Entries.nodup_keys_insert key value m.distinct⟩

def ofList (l : List (String × α)) : OrderedMap α :=
  ⟨Entries.ofList l, Entries.nodup_keys_ofList l⟩

end OrderedMap

end NestedSelection
