import IntCalc.Proofs.Depth
import IntCalc.Proofs.Postorder
import Mathlib.Data.List.Basic

/-!
# Lists with a depth are forests

A list of tokens has a depth exactly if it is the postorder of a forest, written tree by
tree, and the depth is the number of trees (`Tokens.depth?_eq_some_iff`). Its trees have
operands at the leaves and operators at the inner nodes, with any text at all. The list
determines the forest (`Tree.spell_injective`), so that a well-formed list is the postorder
of exactly one tree (`Tokens.wellFormed_iff_exists_tree`).
-/

namespace IntCalc

/-- The operator token with a given symbol, known or not. -/
def Token.ofSymbol (symbol : String) : Token :=
  ⟨symbol, .operator⟩

theorem Token.ofSymbol_injective : Function.Injective Token.ofSymbol :=
  fun _ _ h => congrArg Token.text h

variable {ts : List Token} {t : Token} {n : Nat} {forest forest' : List (Tree String)}

namespace Tree

/-- The tokens of a forest, whose last tree stands first as on a stack. -/
def spell (forest : List (Tree String)) : List Token :=
  forest.reverse.flatMap (postorder Token.ofSymbol)

@[simp] theorem spell_nil : spell [] = [] :=
  rfl

@[simp] theorem spell_cons (e : Tree String) (forest : List (Tree String)) :
    spell (e :: forest) = spell forest ++ e.postorder Token.ofSymbol := by
  simp [spell]

/-- A forest is as deep as it has trees. -/
theorem depth?_spell (forest : List (Tree String)) :
    Tokens.depth? (spell forest) = some forest.length := by
  induction forest with
  | nil => rfl
  | cons e forest ih =>
    rw [Tokens.depth?] at ih ⊢
    rw [spell_cons, List.foldlM_append, ih]
    exact e.foldlM_depthStep_postorder (fun _ => rfl) _

/-- The tokens determine the forest : its last tree stands at the end. -/
theorem spell_injective : Function.Injective spell := by
  intro forest forest' h
  induction forest generalizing forest' with
  | nil =>
    cases forest' with
    | nil => rfl
    | cons e' forest' => simp [postorder_ne_nil] at h
  | cons e forest ih =>
    cases forest' with
    | nil => simp [postorder_ne_nil] at h
    | cons e' forest' =>
      rw [spell_cons, spell_cons] at h
      obtain ⟨hspell, rfl⟩ :=
        append_postorder_inj Token.ofSymbol_injective (fun _ => by simp [Token.ofSymbol]) h
      rw [ih hspell]

/-- A token with a depth makes a forest of a forest : an operand is a new tree, and an
operator joins the last two. -/
theorem exists_spell_concat (h : Tokens.depthStep forest.length t = some n) :
    ∃ forest', forest'.length = n ∧ spell forest' = spell forest ++ [t] := by
  obtain ⟨text, kind⟩ := t
  cases kind with
  | operand => exact ⟨.leaf text :: forest, Option.some.inj h, spell_cons _ _⟩
  | operator =>
    rcases forest with - | ⟨right, - | ⟨left, forest⟩⟩
    · cases h
    · cases h
    · exact ⟨.node text left right :: forest, Option.some.inj h,
        by simp [postorder, Token.ofSymbol]⟩
  | opening | closing | other => cases h

/-- So does a list with a depth. -/
theorem exists_spell_append (forest : List (Tree String))
    (h : ts.foldlM Tokens.depthStep forest.length = some n) :
    ∃ forest', forest'.length = n ∧ spell forest' = spell forest ++ ts := by
  induction ts generalizing forest with
  | nil => exact ⟨forest, Option.some.inj h, by simp⟩
  | cons t ts ih =>
    obtain ⟨d, hstep, hrest⟩ := Tokens.foldlM_depthStep_cons_iff.1 h
    obtain ⟨forest', rfl, hforest'⟩ := exists_spell_concat hstep
    obtain ⟨forest'', hlength, hforest''⟩ := ih forest' hrest
    exact ⟨forest'', hlength, by simp [hforest'', hforest']⟩

end Tree

namespace Tokens

/-- The lists of depth `n` are the forests of `n` trees. -/
theorem depth?_eq_some_iff :
    depth? ts = some n ↔ ∃ forest, forest.length = n ∧ Tree.spell forest = ts := by
  constructor
  · intro h
    obtain ⟨forest, hlength, hspell⟩ := Tree.exists_spell_append [] h
    exact ⟨forest, hlength, hspell⟩
  · rintro ⟨forest, rfl, rfl⟩
    exact Tree.depth?_spell forest

/-- The well-formed lists are the postorders of trees with operands at the leaves and
operators at the inner nodes, and no list is the postorder of two such trees. -/
theorem wellFormed_iff_exists_tree (ts : List Token) :
    (wellFormed ts = true ↔ ∃ e : Tree String, e.postorder .ofSymbol = ts) ∧
      ∀ e e' : Tree String, e.postorder .ofSymbol = ts → e'.postorder .ofSymbol = ts → e = e' := by
  refine ⟨?_, fun e e' he he' => ?_⟩
  · rw [wellFormed_iff, depth?_eq_some_iff]
    constructor
    · rintro ⟨forest, hlength, rfl⟩
      obtain ⟨e, rfl⟩ := List.length_eq_one_iff.1 hlength
      exact ⟨e, by simp⟩
    · rintro ⟨e, rfl⟩
      exact ⟨[e], rfl, by simp⟩
  · have hspell : Tree.spell [e] = Tree.spell [e'] := by simp [he, he']
    exact List.singleton_inj.1 (Tree.spell_injective hspell)

end Tokens

end IntCalc
