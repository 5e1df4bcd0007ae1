import NestedSelection.Proofs.Identifiers

/-! # Pascal case

A name is cut at every character that is no letter and no digit. Pascal case puts the runs between
these together, each with its first character in upper case. What comes out is one run that starts
in upper case, or with a digit, so it stays as it is when it is put into Pascal case again. Of an
identifier the underscore is dropped at the second time and then put back to its place.
-/

namespace NestedSelection

namespace Identifier

section Runs

/-- The longest runs of letters and digits in a text, in order. -/
def runs (l : List Char) : List (List Char) :=
  (l.splitOnP fun c => !c.isAlphanum).filter (· ≠ [])

/-- A run with its first character in upper case, which a digit does not have. -/
def capitalized : List Char → List Char
  | [] => []
  | c :: rest => c.toUpper :: rest

variable {l : List Char}

theorem exists_splitOnP (l : List Char) :
    ∃ run rest, l.splitOnP (!·.isAlphanum) = run :: rest :=
  List.exists_cons_of_ne_nil (List.splitOnP_ne_nil _ l)

theorem flatten_runs (l : List Char) : (runs l).flatten = l.filter Char.isAlphanum := by
  rw [runs, List.flatten_filter_ne_nil]
  induction l with
  | nil => rfl
  | cons c l ih =>
    obtain ⟨run, rest, h⟩ := exists_splitOnP l
    rw [List.splitOnP_cons_eq_if_modifyHead, List.filter_cons, ← ih, h]
    cases c.isAlphanum <;> rfl

/-- What stands before the first character that is dropped is a run, or the rest of one. -/
theorem pascalChars_of_splitOnP {run : List Char} {rest : List (List Char)}
    (h : l.splitOnP (!·.isAlphanum) = run :: rest) :
    pascalChars true l = capitalized run ++ rest.flatMap capitalized ∧
      pascalChars false l = run ++ rest.flatMap capitalized := by
  -- both at once: behind the first character of a run the other half is needed
  induction l generalizing run rest with
  | nil =>
    cases h
    exact ⟨rfl, rfl⟩
  | cons c l ih =>
    obtain ⟨run', rest', h'⟩ := exists_splitOnP l
    obtain ⟨ht, hf⟩ := ih h'
    rw [List.splitOnP_cons_eq_if_modifyHead, h'] at h
    cases hc : c.isAlphanum with
    | true =>
      obtain ⟨rfl, rfl⟩ : c :: run' = run ∧ rest' = rest := by simpa [hc] using h
      simp [pascalChars, hc, hf, capitalized]
    | false =>
      obtain ⟨rfl, rfl⟩ : [] = run ∧ run' :: rest' = rest := by simpa [hc] using h
      simp [pascalChars, hc, ht, capitalized]

theorem flatMap_capitalized_filter (parts : List (List Char)) :
    (parts.filter (· ≠ [])).flatMap capitalized = parts.flatMap capitalized := by
  induction parts with
  | nil => rfl
  | cons part parts ih =>
    cases part with
    | nil => simpa [capitalized] using ih
    | cons c part => simpa using ih

theorem pascalChars_eq_runs (l : List Char) :
    pascalChars true l = (runs l).flatMap capitalized := by
  obtain ⟨run, rest, h⟩ := exists_splitOnP l
  rw [(pascalChars_of_splitOnP h).1, runs, flatMap_capitalized_filter, h, List.flatMap_cons]

theorem toList_pascalCase (name : String) :
    (pascalCase name).toList = (runs name.toList).flatMap capitalized := by
  rw [pascalCase, String.toList_ofList, pascalChars_eq_runs]

theorem pascalChars_eq_nil_iff {atStart : Bool} :
    pascalChars atStart l = [] ↔ l.any Char.isAlphanum = false := by
  induction l generalizing atStart with
  | nil => simp [pascalChars]
  | cons c l ih =>
    rw [pascalChars]
    split
    · rename_i hc
      simp [hc]
    · rename_i hc
      simp [hc, ih]

end Runs

section Again

variable {c : Char} {l rest : List Char}

theorem not_isAlpha_of_isDigit (h : c.isDigit = true) : ¬c.isAlpha = true := by
  grind [Char.isDigit, Char.isAlpha, Char.isUpper, Char.isLower]

theorem toUpper_eq_self (h : c.isUpper = true ∨ c.isDigit = true) : c.toUpper = c := by
  apply Char.toUpper_eq_of_not_isLower
  rcases h with h | h
  · exact Char.not_isLower_of_isUpper h
  · intro hl
    exact not_isAlpha_of_isDigit h (by rw [Char.isAlpha, hl, Bool.or_true])

theorem pascalChars_false_eq_self (h : ∀ d ∈ l, d.isAlphanum = true) :
    pascalChars false l = l := by
  induction l with
  | nil => rfl
  | cons d l ih =>
    obtain ⟨hd, hl⟩ := List.forall_mem_cons.1 h
    rw [pascalChars, if_pos hd, ih hl]
    rfl

theorem pascalChars_eq_self (hc : c.isUpper = true ∨ c.isDigit = true)
    (hr : ∀ d ∈ rest, d.isAlphanum = true) : pascalChars true (c :: rest) = c :: rest := by
  rw [pascalChars, if_pos (isAlphanum_of_isUpper_or_isDigit hc), if_pos rfl, toUpper_eq_self hc,
    pascalChars_false_eq_self hr]

theorem pascalChars_pascalChars (l : List Char) :
    pascalChars true (pascalChars true l) = pascalChars true l := by
  cases h : pascalChars true l with
  | nil => rfl
  | cons c rest =>
    refine pascalChars_eq_self (head_pascalChars h) fun d hd => ?_
    exact isAlphanum_of_mem_pascalChars (h ▸ List.mem_cons_of_mem c hd)

/-- Pascal case drops the underscore of an identifier, which is then put back to its place. -/
theorem Shape.legalize_pascalChars (h : Shape l) : legalize (pascalChars true l) = l := by
  cases h with
  | @word c rest hc hr hs =>
    have hd : ¬c.isDigit = true := fun hd => not_isAlpha_of_isDigit hd (isAlpha_of_isUpper hc)
    rw [pascalChars_eq_self (.inl hc) hr, legalize, if_neg hd, if_neg hs]
  | @number c rest hc hr =>
    rw [pascalChars, if_neg (by decide), pascalChars_eq_self (.inr hc) hr, legalize, if_pos hc]
  | ofSelf => rfl

/-- The names that are identifiers already are the texts of the three shapes. -/
theorem ofName_eq_self_iff {name : String} : ofName name = name ↔ Shape name.toList := by
  constructor
  · intro h
    rw [← h]
    exact shape_ofName name
  · intro h
    rw [ofName, pascalCase, String.toList_ofList, h.legalize_pascalChars, String.ofList_toList]

end Again

theorem filter_eq_self_of_isAlphanum {l : List Char} (h : ∀ c ∈ l, c.isAlphanum = true) :
    l.filter (· ≠ '_') = l := by
  rw [List.filter_eq_self]
  intro c hc
  rw [decide_eq_true_iff]
  rintro rfl
  cases h _ hc

theorem filter_legalize {l : List Char} (h : ∀ c ∈ l, c.isAlphanum = true) :
    (legalize l).filter (· ≠ '_') = if l = [] then unnamed else l := by
  cases l with
  | nil => rfl
  | cons c rest =>
    have hl := filter_eq_self_of_isAlphanum h
    rw [legalize, if_neg (List.cons_ne_nil _ _)]
    split
    · rwa [List.filter_cons_of_neg (by decide)]
    · split
      · rename_i hs
        rw [hs]
        rfl
      · exact hl

/--
The identifier for a name has one of the three shapes and is legal. Apart from an underscore it
consists of the runs of letters and digits of the name, each with its first character in upper case,
or of the word for names without any. Neither an identifier nor a text in Pascal case is changed
when it is taken for a name.
-/
theorem ofName_normalizes (name : String) :
    Shape (ofName name).toList ∧ IsLegal (ofName name) ∧
      (runs name.toList).flatten = name.toList.filter Char.isAlphanum ∧
      (pascalCase name).toList = (runs name.toList).flatMap capitalized ∧
      (ofName name).toList.filter (· ≠ '_') =
        (if name.toList.any Char.isAlphanum then (runs name.toList).flatMap capitalized
          else unnamed) ∧
      ofName (ofName name) = ofName name ∧ pascalCase (pascalCase name) = pascalCase name := by
  refine ⟨shape_ofName name, Allocator.isLegal_candidate name 0, flatten_runs _,
    toList_pascalCase name, ?_, ofName_eq_self_iff.2 (shape_ofName name), ?_⟩
  · have ha : ∀ c ∈ (pascalCase name).toList, c.isAlphanum = true := by
      rw [pascalCase, String.toList_ofList]
      exact fun c hc => isAlphanum_of_mem_pascalChars hc
    rw [ofName, String.toList_ofList, filter_legalize ha, toList_pascalCase]
    by_cases h : name.toList.any Char.isAlphanum = true
    · rw [if_pos h, if_neg]
      rw [← pascalChars_eq_runs, pascalChars_eq_nil_iff]
      simpa using h
    · rw [if_neg h, if_pos]
      rw [← pascalChars_eq_runs, pascalChars_eq_nil_iff]
      simpa using h
  · rw [pascalCase, pascalCase, String.toList_ofList, pascalChars_pascalChars]

example : ["2fa_codes", "_2faCodes", "self", "Self_", "firstName", "é"].map ofName =
    ["_2faCodes", "_2faCodes", "Self_", "Self_", "FirstName", "Unnamed"] := by decide

end Identifier

end NestedSelection
