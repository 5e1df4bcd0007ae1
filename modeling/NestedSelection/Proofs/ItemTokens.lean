import Mathlib.Logic.Function.Defs
import NestedSelection.Code.Item

/-! # Tokens of items

The tokens of an item can be told apart at the front of whatever follows them: they say what kind of
item it is, and then each of its parts. So items written one after the other can be told apart, and
the tokens of a module determine its items.
-/

namespace NestedSelection

namespace Code

/-- Pieces that are told apart in front of anything are told apart one after the other. -/
theorem flatMap_injective {α β : Type} {f : α → List β} (hn : ∀ a, f a ≠ [])
    (hf : ∀ {a b l r}, f a ++ l = f b ++ r → a = b ∧ l = r) :
    Function.Injective fun l : List α => l.flatMap f := by
  intro l r h
  dsimp only at h
  induction l generalizing r with
  | nil =>
    cases r with
    | nil => rfl
    | cons b r => exact absurd (List.append_eq_nil_iff.1 h.symm).1 (hn b)
  | cons a l ih =>
    cases r with
    | nil => exact absurd (List.append_eq_nil_iff.1 h).1 (hn a)
    | cons b r =>
      obtain ⟨rfl, hlr⟩ := hf h
      rw [ih hlr]

theorem flatMap_variants_injective :
    Function.Injective fun l : List String => l.flatMap fun v => words [v, ","] := by
  refine flatMap_injective (fun v => List.cons_ne_nil _ _) fun h => ?_
  simpa [words] using h

theorem flatMap_arms_injective (type : String) :
    Function.Injective fun l : List TypedColumn => l.flatMap (arm type) := by
  refine flatMap_injective (fun c => List.cons_ne_nil _ _) ?_
  rintro ⟨name, variant⟩ ⟨name', variant'⟩ l r h
  obtain ⟨rfl, rfl, rfl⟩ : variant = variant' ∧ name = name' ∧ l = r := by
    simpa [arm, words] using h
  exact ⟨rfl, rfl⟩

theorem append_append_injective (l r : String) : Function.Injective fun s => l ++ s ++ r := by
  intro s t h
  refine String.toList_injective ?_
  simpa using congrArg String.toList h

namespace Item

theorem tokens_ne_nil (i : Item) : i.tokens ≠ [] := by
  cases i <;> exact List.cons_ne_nil _ _

/-- Each kind of item starts in its own way, and goes on with its parts. -/
theorem tokens_append_inj {i j : Item} {l r : List Token} (h : i.tokens ++ l = j.tokens ++ r) :
    i = j ∧ l = r := by
  cases i with
  | unitStruct name type =>
    cases j with
    | unitStruct name' type' =>
      obtain ⟨hn, rfl, rfl⟩ : " `" ++ name ++ "` table" = " `" ++ name' ++ "` table" ∧
          type = type' ∧ l = r := by
        simpa [tokens, doc, derive, words, parens, brackets] using h
      exact ⟨by rw [append_append_injective _ _ hn], rfl⟩
    | _ => simp [tokens, doc, derive, layerPath, words, parens, brackets] at h
  | fieldEnum name type variants =>
    cases j with
    | fieldEnum name' type' variants' =>
      obtain ⟨hn, rfl, hv, rfl⟩ : " Row fields of `" ++ name ++ "`" =
          " Row fields of `" ++ name' ++ "`" ∧ type = type' ∧
          variants.flatMap (fun v => words [v, ","]) =
            variants'.flatMap (fun v => words [v, ","]) ∧ l = r := by
        simpa [tokens, doc, derive, words, parens, brackets, braces] using h
      exact ⟨by rw [append_append_injective _ _ hn, flatMap_variants_injective hv], rfl⟩
    | _ => simp [tokens, doc, derive, layerPath, words, parens, brackets] at h
  | fieldImpl type columns =>
    cases j with
    | fieldImpl type' columns' =>
      obtain ⟨rfl, hc, rfl⟩ : type = type' ∧
          columns.flatMap (arm type) = columns'.flatMap (arm type') ∧ l = r := by
        simpa [tokens, layerPath, words, parens, braces, staticText] using h
      exact ⟨by rw [flatMap_arms_injective type hc], rfl⟩
    | _ => simp [tokens, doc, layerPath, words] at h
  | tableImpl marker name fieldType =>
    cases j with
    | tableImpl marker' name' fieldType' =>
      obtain ⟨rfl, ⟨rfl, rfl⟩, rfl⟩ : marker = marker' ∧ (name = name' ∧ fieldType = fieldType') ∧
          l = r := by
        simpa [tokens, layerPath, words, braces, staticText] using h
      exact ⟨rfl, rfl⟩
    | _ => simp [tokens, doc, layerPath, words] at h
  | includableImpl related marker =>
    cases j with
    | includableImpl related' marker' =>
      obtain ⟨rfl, rfl, rfl⟩ : related = related' ∧ marker = marker' ∧ l = r := by
        simpa [tokens, layerPath, words, braces] using h
      exact ⟨rfl, rfl⟩
    | _ => simp [tokens, doc, layerPath, words] at h

theorem flatMap_tokens_injective :
    Function.Injective fun items : List Item => items.flatMap Item.tokens :=
  flatMap_injective tokens_ne_nil tokens_append_inj

end Item

end Code

end NestedSelection
