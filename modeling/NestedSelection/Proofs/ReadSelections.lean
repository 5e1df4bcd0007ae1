import NestedSelection.Proofs.Tree
import NestedSelection.Selection.Reader

/-! # Selections that are read

What holds of everything that a reader gives out is followed through the combinators, of an object
as what each of its members keeps true of the state. A related table that is given twice is entered
once, so no text gives a selection that is not well formed.
-/

namespace NestedSelection

theorem exists_of_map_eq_ok {ε α β : Type} {f : α → β} {e : Except ε α} {y : β}
    (h : e.map f = .ok y) : ∃ x, e = .ok x ∧ f x = y := by
  cases e with
  | error _ => cases h
  | ok x => exact ⟨x, rfl, Except.ok.inj h⟩

namespace Json

variable {α β σ : Type} {P : α → Prop} {Q : β → Prop} {I : σ → Prop}

def Ensures (P : α → Prop) (value : Reader α) : Prop := ∀ s p, value s = .ok p → P p.value

def Keeps (I : σ → Prop) (member : MemberReader σ) : Prop :=
  ∀ state name, I state → Ensures I (member state name)

theorem ensures_optional {value : Reader α} (h : Ensures P value) :
    Ensures (fun v => ∀ x ∈ v, P x) (optional value) := by
  intro s p hp
  unfold optional at hp
  split at hp
  · obtain ⟨q, -, rfl⟩ := exists_of_map_eq_ok hp
    exact fun x hx => by cases hx
  · obtain ⟨q, hq, rfl⟩ := exists_of_map_eq_ok hp
    intro x hx
    cases hx
    exact h _ q hq

theorem ensures_memberValue {value : Reader α} {add : α → σ} (h : Ensures P value)
    (ha : ∀ v, P v → I (add v)) : Ensures I (memberValue value add) := by
  intro s p hp
  unfold memberValue at hp
  split at hp
  · cases hp
  · obtain ⟨q, hq, rfl⟩ := exists_of_map_eq_ok hp
    exact ha _ (h _ q hq)

theorem ensures_skipMember {state : σ} (h : I state) : Ensures I (skipMember state) := by
  intro s p hp
  unfold skipMember at hp
  split at hp
  · cases hp
  · obtain ⟨t, -, rfl⟩ := exists_of_map_eq_ok hp
    exact h

theorem keeps_keepMember {value : Reader α} (h : Ensures P value) :
    Keeps (fun l => ∀ e ∈ l, P e.2) (keepMember value) := by
  intro before name hb s p hp
  unfold keepMember at hp
  cases hc : afterColon s with
  | error e => rw [hc] at hp; cases hp
  | ok colon =>
    cases hv : value colon.rest with
    | error e => rw [hc] at hp; simp only [bind, Except.bind, hv] at hp; cases hp
    | ok q =>
      simp only [hc, bind, Except.bind, hv] at hp
      cases hp
      exact List.forall_mem_cons.2 ⟨h _ q hv, hb⟩

theorem members_keeps {member : MemberReader σ} (hm : Keeps I member) {s₀ s : List Char}
    {h : s.length ≤ s₀.length} {state : σ} {p : Piece σ s₀} (hs : I state)
    (hp : members member state s h = .ok p) : I p.value := by
  fun_induction members member state s h with
  | case6 state _ _ _ _ name _ q hq =>
    cases hp
    exact hm state name.value hs _ q hq
  | case7 state _ _ _ _ name _ q hq _ _ _ _ _ _ _ ih =>
    exact ih (hm state name.value hs _ q hq) hp
  | _ => cases hp

theorem objectOf_keeps {member : MemberReader σ} (hm : Keeps I member) {s : List Char} {state : σ}
    {p : Piece σ s} (hs : I state) (hp : objectOf member state s = .ok p) : I p.value := by
  unfold objectOf at hp
  split at hp
  · cases hp
  · split at hp
    · cases hp
      exact hs
    · exact members_keeps hm hs hp

theorem ensures_mapOf {value? : Option (Reader α)} (h : ∀ value ∈ value?, Ensures P value) :
    Ensures (fun l => ∀ e ∈ l, P e.2) (mapOf value?) := by
  intro s p hp
  unfold mapOf at hp
  split at hp
  · split at hp
    · cases hp
    · rename_i value
      obtain ⟨q, hq, rfl⟩ := exists_of_map_eq_ok hp
      have hk := objectOf_keeps (keeps_keepMember (h value rfl)) (fun e he => by cases he) hq
      exact fun e he => hk e (List.mem_reverse.1 he)
  · cases hp

theorem nextItem_ensures {item : Reader α} (h : Ensures P item) {s : List Char}
    {r : Option α × Tail s} (hr : nextItem item s = .ok r) : ∀ x ∈ r.1, P x := by
  unfold nextItem at hr
  split at hr
  · cases hr
  · split at hr
    · cases hr
      exact fun x hx => by cases hx
    · split at hr
      · split at hr
        · cases hr
        · split at hr
          · cases hr
          · obtain ⟨q, hq, rfl⟩ := exists_of_map_eq_ok hr
            intro x hx
            cases hx
            exact h _ q hq
      · cases hr

theorem pairOf_ensures {first : Reader α} {second : Reader β} (h : Ensures Q second)
    {s : List Char} {p : Piece (Option α × Option β) s} (hp : pairOf first second s = .ok p) :
    ∀ y ∈ p.value.2, Q y := by
  unfold pairOf at hp
  split at hp
  · cases hp
  · split at hp
    · cases hp
      exact fun y hy => by cases hy
    · split at hp
      · cases hp
      · split at hp
        · cases hp
        · rename_i hn
          obtain ⟨e, -, rfl⟩ := exists_of_map_eq_ok hp
          exact nextItem_ensures h hn

theorem readText_ensures {value : Reader α} (h : Ensures P value) {text : String} {v : α}
    (hv : readText value text = .ok v) : P v := by
  unfold readText at hv
  cases hp : value (skipSpace text.toList) with
  | error e => rw [hp] at hv; cases hv
  | ok p =>
    rw [hp] at hv
    simp only [bind, Except.bind] at hv
    split at hv
    · cases hv
      exact h _ p hp
    · cases hv

end Json

namespace Selection

open Json

/-- The nested selections that were met are well formed. -/
def Parts.Sound (p : Parts) : Prop :=
  ∀ nested ∈ p.nested, ∀ children ∈ nested, ∀ e ∈ children, e.2.WellFormed

theorem Parts.Sound.wellFormed {p : Parts} (h : p.Sound) : p.selection.WellFormed := by
  obtain ⟨select, _ | _ | children⟩ := p
  · exact ⟨List.nodup_nil, fun e he => by cases he⟩
  · exact ⟨List.nodup_nil, fun e he => by cases he⟩
  · refine ⟨Entries.nodup_keys_ofList children, fun e he => ?_⟩
    exact h _ rfl _ rfl e (Entries.mem_ofList he)

variable {flags : Reader (List (String × Bool))} {children : Reader (List (String × Selection))}

theorem keeps_member (h : Ensures (fun l => ∀ e ∈ l, e.2.WellFormed) children) :
    Keeps Parts.Sound (member flags children) := by
  intro parts name hp
  unfold member
  split
  · intro s p hs
    split at hs
    · cases hs
    · have hf : Ensures (fun _ => True) (optional flags) := fun _ _ _ => trivial
      refine ensures_memberValue hf (fun v _ nested hn => ?_) s p hs
      exact hp nested hn
  · split
    · intro s p hs
      split at hs
      · cases hs
      · refine ensures_memberValue (ensures_optional h) (fun v hv nested hn => ?_) s p hs
        cases hn
        exact hv
    · exact ensures_skipMember hp

theorem ensures_layout (h : Ensures (fun l => ∀ e ∈ l, e.2.WellFormed) children) :
    Ensures WellFormed (layout flags children) := by
  intro s p hp
  unfold layout at hp
  split at hp
  · obtain ⟨q, hq, rfl⟩ := exists_of_map_eq_ok hp
    have hs : q.value.Sound := objectOf_keeps (keeps_member h) (fun _ hn => by cases hn) hq
    exact hs.wellFormed
  · obtain ⟨q, hq, rfl⟩ := exists_of_map_eq_ok hp
    have hs : Parts.Sound ⟨q.value.1, q.value.2⟩ := pairOf_ensures (ensures_optional h) hq
    exact hs.wellFormed
  · cases hp

theorem ensures_reader (depth : Nat) : Ensures WellFormed (reader depth) := by
  fun_induction reader depth with
  | case1 =>
    intro s p hp
    dsimp only at hp
    split at hp <;> cases hp
  | case2 => exact ensures_layout (ensures_mapOf fun _ hv => by cases hv)
  | case3 depth ih =>
    refine ensures_layout (ensures_mapOf fun value hv => ?_)
    cases hv
    exact ih

/-- Every selection that is read from a text is well formed. -/
theorem wellFormed_of_ofJsonText {text : String} {s : Selection} (h : ofJsonText text = .ok s) :
    s.WellFormed := readText_ensures (ensures_reader maxDepth) h

end Selection

end NestedSelection
