import NestedSelection.Proofs.Identifiers

/-! # The identifiers of one scope

The search for a free candidate goes on as long as candidates are taken and sets itself no bound.
It ends all the same, behind at most one candidate more than there are identifiers in the scope.
From what one call gives out follows what a whole run of them does: the `i`-th name is told apart
from the identifiers of the `i` names before it, whatever these names were.
-/

namespace NestedSelection

namespace Identifier.Allocator

variable {taken : List String} {base x : String}

/--
The search from the `n`-th candidate on, which ends at the first one that is free: the number of
candidates that it tries, and what it ends with.
-/
inductive Finds (taken : List String) (base : String) : Nat → Nat → String → Prop
  | free {n : Nat} : candidate base n ∉ taken → Finds taken base n 1 (candidate base n)
  | onward {n tries : Nat} {x : String} : candidate base n ∈ taken →
      Finds taken base (n + 1) tries x → Finds taken base n (tries + 1) x

theorem seek_eq_some_iff {n count : Nat} :
    seek taken base n count = some x ↔ ∃ tries ≤ count, Finds taken base n tries x := by
  induction count generalizing n with
  | zero =>
    constructor
    · intro h
      cases h
    · rintro ⟨tries, ht, hf⟩
      cases hf <;> omega
  | succ count ih =>
    rw [seek]
    split
    · rename_i hn
      have hn : candidate base n ∈ taken := by simpa using hn
      rw [ih]
      constructor
      · rintro ⟨tries, ht, hf⟩
        exact ⟨tries + 1, by omega, .onward hn hf⟩
      · rintro ⟨tries, ht, hf⟩
        cases hf with
        | free hf => exact absurd hn hf
        | onward _ hf => exact ⟨_, by omega, hf⟩
    · rename_i hn
      have hn : candidate base n ∉ taken := by simpa using hn
      constructor
      · intro h
        cases h
        exact ⟨1, by omega, .free hn⟩
      · rintro ⟨tries, ht, hf⟩
        cases hf with
        | free _ => rfl
        | onward hf _ => exact absurd hf hn

/-- What a name gets in a scope with these identifiers. -/
structure ToldApart (before : List String) (name x : String) : Prop where
  /-- The search ends, and tries one candidate more than there are identifiers at most. -/
  found : ∃ tries ≤ before.length + 1, Finds before (ofName name) 0 tries x
  plain : ofName name ∉ before → x = ofName name
  numbered : ofName name ∈ before →
    ∃ n, IsLeast {n : Nat | 2 ≤ n ∧ ofName name ++ toString n ∉ before} n ∧
      x = ofName name ++ toString n

theorem toldApart_next (a : Allocator) (name : String) : ToldApart a.taken name (a.next name) where
  found := seek_eq_some_iff.1 (a.seek_eq_some_next name)
  plain h := next_eq_candidate (k := 0) h fun j hj => absurd hj (Nat.not_lt_zero j)
  numbered h := by
    obtain ⟨k, -, hk, hn, ht⟩ := a.next_spec name
    rw [hk] at hn ⊢
    cases k with
    | zero => exact absurd h hn
    | succ k =>
      refine ⟨k + 2, ⟨⟨by omega, hn⟩, ?_⟩, rfl⟩
      rintro n ⟨h2, hf⟩
      by_contra hlt
      obtain ⟨j, rfl⟩ := Nat.exists_eq_add_of_le' h2
      exact hf (ht (j + 1) (by omega))

/-- A name in a run gets what it would get if just the identifiers before it were taken. -/
theorem getElem?_allocateAll (a : Allocator) {names : List String} {i : Nat} {name : String}
    (h : names[i]? = some name) : (a.allocateAll names).1[i]? =
      some (next ⟨(a.allocateAll names).1.take i ++ a.taken⟩ name) := by
  induction names generalizing a i with
  | nil => cases h
  | cons first names ih =>
    rw [allocateAll_cons]
    cases i with
    | zero =>
      cases h
      rfl
    | succ i =>
      rw [List.getElem?_cons_succ] at h ⊢
      rw [ih _ h]
      -- both scopes hold the same, only that the first identifier stands elsewhere in them
      refine congrArg some (next_congr (fun y => ?_) name)
      simp [allocate, or_left_comm]

/--
Names may repeat in a scope, and different ones may give the same identifier. Each of them gets its
own identifier if that is new, and otherwise the one with the least number that makes it new; the
search for it ends behind at most one candidate more than there are identifiers before. All that is
given out is different and legal.
-/
theorem identifiers_told_apart (names : List String) :
    let given := (({} : Allocator).allocateAll names).1
    given.length = names.length ∧
      (∀ i name, names[i]? = some name →
        ∃ x, given[i]? = some x ∧ ToldApart (given.take i) name x) ∧
      given.Nodup ∧ ∀ x ∈ given, IsLegal x := by
  refine ⟨length_allocateAll _ _, fun i name h => ?_, nodup_allocateAll _ _,
    fun x hx => isLegal_of_mem_allocateAll hx⟩
  have hg := getElem?_allocateAll {} h
  rw [List.append_nil] at hg
  exact ⟨_, hg, toldApart_next _ name⟩

/-- The second name gives what the third one would get with the number two. -/
def numberedUsers : List String := ["user", "user2", "User", "self", "user"]

theorem told_apart_numberedUsers :
    (numberedUsers[4]? = some "user" ∧ (({} : Allocator).allocateAll numberedUsers).1 =
      ["User", "User2", "User3", "Self_", "User4"]) ∧
    ToldApart ["User", "User2", "User3", "Self_"] "user" "User4" := by
  have hn : numberedUsers[4]? = some "user" := rfl
  have hg : (({} : Allocator).allocateAll numberedUsers).1 =
      ["User", "User2", "User3", "Self_", "User4"] := by decide
  obtain ⟨-, ht, -⟩ := identifiers_told_apart numberedUsers
  obtain ⟨x, hx, ht⟩ := ht 4 "user" hn
  rw [hg] at hx ht
  cases hx
  exact ⟨⟨hn, hg⟩, ht⟩

end Identifier.Allocator

end NestedSelection
