import IntCalc.Expr

/-!
# Trees are read back from their postorder

A postorder ends with the token of the root, which tells a leaf from an inner node, so
no two trees have a postorder of which one is the end of the other
(`Tree.append_postorder_inj`). In particular the postorder determines the tree
(`Tree.postorder_injective`, `Expr.postorder_injective`).
-/

namespace IntCalc

namespace Tree

variable {ω : Type} {token : ω → Token} {s t : Tree ω} {front front' : List Token}

/-- The trees at the ends of two equal lists are equal, and so is what stands in front
of them. -/
theorem append_postorder_inj (hinj : Function.Injective token)
    (hkind : ∀ op, (token op).kind ≠ .operand)
    (h : front ++ s.postorder token = front' ++ t.postorder token) : front = front' ∧ s = t := by
  induction s generalizing t front front' with
  | leaf text =>
    cases t with
    | leaf text' =>
      obtain ⟨hfront, htoken⟩ := List.append_inj' h rfl
      cases htoken
      exact ⟨hfront, rfl⟩
    | node op l r =>
      rw [postorder, postorder, ← List.append_assoc] at h
      obtain ⟨-, htoken⟩ := List.append_inj' h rfl
      have hop := hkind op
      rw [← List.singleton_inj.1 htoken] at hop
      exact absurd rfl hop
  | node op l r ihl ihr =>
    cases t with
    | leaf text =>
      rw [postorder, postorder, ← List.append_assoc] at h
      obtain ⟨-, htoken⟩ := List.append_inj' h rfl
      have hop := hkind op
      rw [List.singleton_inj.1 htoken] at hop
      exact absurd rfl hop
    | node op' l' r' =>
      simp only [postorder, ← List.append_assoc] at h
      obtain ⟨hargs, htoken⟩ := List.append_inj' h rfl
      obtain ⟨hleft, rfl⟩ := ihr hargs
      obtain ⟨hfront, rfl⟩ := ihl hleft
      exact ⟨hfront, by rw [hinj (List.singleton_inj.1 htoken)]⟩

theorem postorder_injective (hinj : Function.Injective token)
    (hkind : ∀ op, (token op).kind ≠ .operand) :
    Function.Injective (Tree.postorder token) := fun s t h => by
  have happend : [] ++ s.postorder token = [] ++ t.postorder token := by simpa using h
  exact (append_postorder_inj hinj hkind happend).2

end Tree

/-- Different operators have different tokens. -/
theorem Token.ofOperator_injective : Function.Injective Token.ofOperator := by
  intro op op' h
  have hop := congrArg Token.operator? h
  simpa [Token.operator?, Token.ofOperator] using hop

namespace Expr

theorem postorder_injective : Function.Injective Expr.postorder :=
  Tree.postorder_injective Token.ofOperator_injective fun _ => by simp [Token.ofOperator]

/-- A postorder has operands and operators only. -/
theorem kind_of_mem_postorder {e : Expr} {t : Token} (h : t ∈ e.postorder) :
    t.kind = .operand ∨ t.kind = .operator := by
  induction e with
  | leaf text =>
    rw [List.mem_singleton.1 h]
    exact Or.inl rfl
  | node op l r ihl ihr =>
    rcases List.mem_append.1 h with h | h
    · rcases List.mem_append.1 h with h | h
      · exact ihl h
      · exact ihr h
    · rw [List.mem_singleton.1 h]
      exact Or.inr rfl

end Expr

end IntCalc
