import Mathlib.Data.List.Nodup
import NestedSelection.Identifier.Allocator

/-! # Fresh identifiers

The candidates for a name are all different, so among one more of them than there are identifiers
taken one is free, and the search gives out the first that is. Hence no identifier is given out
twice in a scope.
-/

namespace NestedSelection

namespace Identifier.Allocator

variable {taken : List String} {base : String} {a : Allocator}

theorem candidate_injective (base : String) : Function.Injective (candidate base) := by
  intro i j h
  have hl := congrArg String.toList h
  cases i with
  | zero =>
    cases j with
    | zero => rfl
    | succ j => simp [candidate] at hl
  | succ i =>
    cases j with
    | zero => simp [candidate] at hl
    | succ j =>
      simp only [candidate, String.toList_append, List.append_cancel_left_eq,
        Nat.toString_eq_ofList_toDigits, String.toList_ofList] at hl
      have hn := congrArg (Nat.ofDigitChars 10 · 0) hl
      simpa only [Nat.ofDigitChars_ten_toDigits, Nat.add_right_cancel_iff] using hn

theorem seek_eq_some {n count : Nat} {x : String} (h : seek taken base n count = some x) :
    ∃ k, n ≤ k ∧ k < n + count ∧ x = candidate base k ∧ x ∉ taken ∧
      ∀ j, n ≤ j → j < k → candidate base j ∈ taken := by
  induction count generalizing n with
  | zero => cases h
  | succ count ih =>
    rw [seek] at h
    split at h
    · rename_i hn
      obtain ⟨k, hk, hlt, hx, hf, ht⟩ := ih h
      refine ⟨k, by omega, by omega, hx, hf, fun j hj hjk => ?_⟩
      rcases Nat.eq_or_lt_of_le hj with rfl | hj
      · simpa using hn
      · exact ht j hj hjk
    · rename_i hn
      cases h
      exact ⟨n, Nat.le_refl n, by omega, rfl, by simpa using hn, fun j hj hjn => by omega⟩

theorem seek_eq_none {n count : Nat} (h : seek taken base n count = none) :
    ∀ j, n ≤ j → j < n + count → candidate base j ∈ taken := by
  induction count generalizing n with
  | zero => intro j hj hlt; omega
  | succ count ih =>
    rw [seek] at h
    split at h
    · rename_i hn
      intro j hj hlt
      rcases Nat.eq_or_lt_of_le hj with rfl | hj
      · simpa using hn
      · exact ih h j hj (by omega)
    · cases h

/-- More candidates than there are identifiers taken cannot all be taken. -/
theorem seek_ne_none (taken : List String) (base : String) :
    seek taken base 0 (taken.length + 1) ≠ none := by
  intro h
  have hd : ((List.range (taken.length + 1)).map (candidate base)).Nodup :=
    List.nodup_range.map (candidate_injective base)
  have hs : (List.range (taken.length + 1)).map (candidate base) ⊆ taken := by
    intro x hx
    obtain ⟨j, hj, rfl⟩ := List.mem_map.1 hx
    exact seek_eq_none h j (Nat.zero_le _) (by simpa using hj)
  have hle := hd.length_le_of_subset hs
  rw [List.length_map, List.length_range] at hle
  omega

theorem seek_eq_some_next (a : Allocator) (name : String) :
    seek a.taken (ofName name) 0 (a.taken.length + 1) = some (a.next name) := by
  obtain ⟨x, hx⟩ := Option.ne_none_iff_exists'.1 (seek_ne_none a.taken (ofName name))
  rw [next, hx, Option.getD_some]

theorem next_spec (a : Allocator) (name : String) :
    ∃ k ≤ a.taken.length, a.next name = candidate (ofName name) k ∧ a.next name ∉ a.taken ∧
      ∀ j < k, candidate (ofName name) j ∈ a.taken := by
  obtain ⟨k, -, hk, hc, hf, ht⟩ := seek_eq_some (a.seek_eq_some_next name)
  exact ⟨k, by omega, hc, hf, fun j hj => ht j (Nat.zero_le _) hj⟩

theorem next_not_mem (a : Allocator) (name : String) : a.next name ∉ a.taken := by
  obtain ⟨k, -, -, h, -⟩ := a.next_spec name
  exact h

theorem allocateAll_cons (a : Allocator) (name : String) (names : List String) :
    a.allocateAll (name :: names) =
      (a.next name :: ((a.allocate name).2.allocateAll names).1,
        ((a.allocate name).2.allocateAll names).2) := rfl

@[simp] theorem length_allocateAll (a : Allocator) (names : List String) :
    (a.allocateAll names).1.length = names.length := by
  induction names generalizing a with
  | nil => rfl
  | cons name names ih => rw [allocateAll_cons, List.length_cons, ih, List.length_cons]

theorem not_mem_taken_of_mem {names : List String} {x : String}
    (h : x ∈ (a.allocateAll names).1) : x ∉ a.taken := by
  induction names generalizing a with
  | nil => cases h
  | cons name names ih =>
    rw [allocateAll_cons] at h
    rcases List.mem_cons.1 h with rfl | h
    · exact a.next_not_mem name
    · exact fun ht => ih h (List.mem_cons_of_mem _ ht)

theorem mem_taken_allocateAll {names : List String} {x : String}
    (h : x ∈ (a.allocateAll names).1 ∨ x ∈ a.taken) : x ∈ (a.allocateAll names).2.taken := by
  induction names generalizing a with
  | nil => exact h.resolve_left List.not_mem_nil
  | cons name names ih =>
    rw [allocateAll_cons] at h ⊢
    refine ih ?_
    rcases h with h | h
    · rcases List.mem_cons.1 h with rfl | h
      · exact .inr List.mem_cons_self
      · exact .inl h
    · exact .inr (List.mem_cons_of_mem _ h)

theorem nodup_allocateAll (a : Allocator) (names : List String) :
    (a.allocateAll names).1.Nodup := by
  induction names generalizing a with
  | nil => exact List.nodup_nil
  | cons name names ih =>
    rw [allocateAll_cons]
    refine List.nodup_cons.2 ⟨fun h => ?_, ih _⟩
    exact not_mem_taken_of_mem h List.mem_cons_self

theorem allocateAll_append (a : Allocator) (l r : List String) :
    a.allocateAll (l ++ r) = ((a.allocateAll l).1 ++ ((a.allocateAll l).2.allocateAll r).1,
      ((a.allocateAll l).2.allocateAll r).2) := by
  induction l generalizing a with
  | nil => rfl
  | cons name l ih =>
    rw [List.cons_append, allocateAll_cons, allocateAll_cons, ih, List.cons_append]

theorem next_eq_candidate {name : String} {k : Nat} (hf : candidate (ofName name) k ∉ a.taken)
    (ht : ∀ j < k, candidate (ofName name) j ∈ a.taken) :
    a.next name = candidate (ofName name) k := by
  obtain ⟨i, -, hi, hn, hb⟩ := a.next_spec name
  rcases Nat.lt_trichotomy i k with h | rfl | h
  · rw [hi] at hn
    exact absurd (ht i h) hn
  · exact hi
  · exact absurd (hb k h) hf

section Larger

variable {b : Allocator} {x : String}

/-- In a larger scope a name gets the same as before, if that is not taken there. -/
theorem next_eq_of_not_mem {name : String} (h : ∀ y ∈ a.taken, y ∈ b.taken)
    (hx : a.next name ∉ b.taken) : b.next name = a.next name := by
  obtain ⟨k, -, hk, -, ht⟩ := a.next_spec name
  rw [hk] at hx ⊢
  exact next_eq_candidate hx fun j hj => h _ (ht j hj)

theorem next_congr (h : ∀ y, y ∈ b.taken ↔ y ∈ a.taken) (name : String) :
    b.next name = a.next name :=
  next_eq_of_not_mem (fun y => (h y).2) fun hm => a.next_not_mem name ((h _).1 hm)

theorem next_eq_of_ne (h : ∀ y, y ∈ b.taken ↔ y = x ∨ y ∈ a.taken) {name : String}
    (hx : a.next name ≠ x) : b.next name = a.next name := by
  refine next_eq_of_not_mem (fun y hy => (h y).2 (.inr hy)) fun hm => ?_
  rcases (h _).1 hm with he | hm
  · exact hx he
  · exact a.next_not_mem name hm

/-- Two runs stay together as long as neither gives out what only the other one has taken. -/
theorem allocateAll_eq_of_not_mem (h : ∀ y, y ∈ b.taken ↔ y = x ∨ y ∈ a.taken)
    {names : List String} (hx : x ∉ (a.allocateAll names).1) :
    (b.allocateAll names).1 = (a.allocateAll names).1 := by
  induction names generalizing a b with
  | nil => rfl
  | cons name names ih =>
    rw [allocateAll_cons, List.mem_cons, not_or] at hx
    obtain ⟨hn, hr⟩ := hx
    have he := next_eq_of_ne h (Ne.symm hn)
    rw [allocateAll_cons, allocateAll_cons, he, ih _ hr]
    intro y
    simp [allocate, he, h, or_left_comm]

end Larger

end Identifier.Allocator

end NestedSelection
