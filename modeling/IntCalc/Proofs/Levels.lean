import IntCalc.Brackets
import Mathlib.Data.List.Basic
import Mathlib.Data.List.Induction

/-!
# Open levels

As long as no bracket is closed that is not open (`Tokens.Nested`), `openLevels` has one
entry for each open level, one more than there are unclosed brackets, and the entry says
whether the level is marked (`Tokens.Nested.marked_iff`).
-/

namespace IntCalc.Tokens

variable {ts : List Token} {t : Token} {i : Nat}

/-! ## One more token -/

theorem unclosed_concat (ts : List Token) (t : Token) :
    unclosed (ts ++ [t]) = unclosedStep (unclosed ts) t := by
  simp [unclosed]

theorem openLevels_concat (ts : List Token) (t : Token) :
    openLevels (ts ++ [t]) = levelStep (openLevels ts) t := by
  simp [openLevels]

theorem endsTerm_concat (ts : List Token) (t : Token) :
    endsTerm (ts ++ [t]) = (t.isOperand || t.isClosing) := by
  simp [endsTerm]

/-- No bracket is closed that is not open. -/
def Nested (tokens : List Token) : Prop :=
  ∀ before, before <+: tokens → openLevels before ≠ []

theorem nested_nil : Nested [] := by
  intro before hprefix
  simp [List.prefix_nil.1 hprefix, openLevels]

theorem nested_concat_iff : Nested (ts ++ [t]) ↔ Nested ts ∧ openLevels (ts ++ [t]) ≠ [] := by
  simp only [Nested, List.prefix_concat_iff]
  constructor
  · exact fun h => ⟨fun before hprefix => h before (Or.inr hprefix), h _ (Or.inl rfl)⟩
  · rintro ⟨h, hlast⟩ before (rfl | hprefix)
    · exact hlast
    · exact h before hprefix

theorem Nested.exists_cons (h : Nested ts) : ∃ b levels, openLevels ts = b :: levels :=
  List.exists_cons_of_ne_nil (h ts List.prefix_rfl)

/-- Every unclosed bracket opens a level. -/
theorem Nested.length_openLevels (h : Nested ts) :
    (openLevels ts).length = (unclosed ts).length + 1 := by
  induction ts using List.reverseRecOn with
  | nil => rfl
  | append_singleton ts t ih =>
    obtain ⟨hts, hne⟩ := nested_concat_iff.1 h
    have hlen := ih hts
    obtain ⟨b, levels, hlevels⟩ := hts.exists_cons
    rw [openLevels_concat, hlevels] at hne ⊢
    rw [unclosed_concat]
    rw [hlevels, List.length_cons] at hlen
    unfold levelStep at hne ⊢
    unfold unclosedStep
    cases ht : t.kind with
    | closing =>
      simp only [ht, List.tail_cons] at hne ⊢
      have hpos := List.length_pos_iff.2 hne
      rw [List.length_tail]
      omega
    | opening => simpa [ht] using hlen
    | operator => simpa [ht] using hlen
    | operand => simpa [ht] using hlen
    | other name => simpa [ht] using hlen

/-! ## Marked levels -/

/-- With one more token a level stays marked unless it is closed, and an operator marks
the innermost level. -/
theorem marked_concat_iff : Marked (ts ++ [t]) i ↔
    (Marked ts i ∨ t.isOperator ∧ (unclosed ts).length = i) ∧
      i ≤ (unclosed (ts ++ [t])).length := by
  constructor
  · rintro ⟨before, op, after, hsplit, hop, hlevel, hopen⟩
    rcases List.eq_nil_or_concat after with rfl | ⟨after, u, rfl⟩
    · obtain ⟨rfl, heq⟩ := List.append_inj' hsplit rfl
      obtain rfl := List.singleton_inj.1 heq
      exact ⟨Or.inr ⟨hop, hlevel⟩, hopen [] List.nil_prefix⟩
    · rw [List.concat_eq_append] at hsplit hopen
      have hsplit' : ts ++ [t] = before ++ op :: after ++ [u] := by simpa using hsplit
      obtain ⟨rfl, heq⟩ := List.append_inj' hsplit' rfl
      obtain rfl := List.singleton_inj.1 heq
      refine ⟨Or.inl ⟨before, op, after, rfl, hop, hlevel, fun more hmore => ?_⟩, ?_⟩
      · exact hopen more (hmore.trans (List.prefix_append _ _))
      · simpa using hopen _ List.prefix_rfl
  · rintro ⟨⟨before, op, after, rfl, hop, hlevel, hopen⟩ | ⟨hop, hlevel⟩, hle⟩
    · refine ⟨before, op, after ++ [t], by simp, hop, hlevel, fun more hmore => ?_⟩
      rcases List.prefix_concat_iff.1 hmore with rfl | hmore
      · simpa using hle
      · exact hopen more hmore
    · refine ⟨ts, t, [], rfl, hop, hlevel, fun more hmore => ?_⟩
      rw [List.prefix_nil.1 hmore]
      exact hle

/-- What one more token does to the entries, the outermost first. -/
theorem getElem?_levelStep (b : Bool) (levels : List Bool) (t : Token) (i : Nat) :
    (levelStep (b :: levels) t).reverse[i]? = some true ↔
      ((b :: levels).reverse[i]? = some true ∨ t.isOperator ∧ levels.length = i) ∧
        i + 1 ≤ (levelStep (b :: levels) t).length := by
  unfold levelStep
  cases ht : t.kind <;> simp only [ht, Token.isOperator] <;> grind

/-- A level is marked exactly if its entry says so. The levels count from the outermost. -/
theorem Nested.marked_iff (h : Nested ts) :
    Marked ts i ↔ (openLevels ts).reverse[i]? = some true := by
  induction ts using List.reverseRecOn generalizing i with
  | nil =>
    constructor
    · rintro ⟨before, op, after, hsplit, -⟩
      simp at hsplit
    · rcases i with - | i <;> simp [openLevels]
  | append_singleton ts t ih =>
    obtain ⟨hts, -⟩ := nested_concat_iff.1 h
    have hlen := hts.length_openLevels
    have hlen' := h.length_openLevels
    obtain ⟨b, levels, hlevels⟩ := hts.exists_cons
    rw [openLevels_concat, hlevels] at hlen'
    rw [marked_concat_iff, ih hts, openLevels_concat, hlevels, getElem?_levelStep]
    rw [hlevels, List.length_cons] at hlen
    rw [hlen', Nat.succ_le_succ_iff, Nat.succ.inj hlen]

/-- Some open level is marked exactly if some entry says so. -/
theorem Nested.exists_marked_le_iff (h : Nested ts) :
    (∃ i ≤ (unclosed ts).length, Marked ts i) ↔ true ∈ openLevels ts := by
  have hlen := h.length_openLevels
  simp only [h.marked_iff]
  constructor
  · rintro ⟨i, -, hi⟩
    exact List.mem_reverse.1 (List.mem_of_getElem? hi)
  · intro hmem
    obtain ⟨i, hi⟩ := List.mem_iff_getElem?.1 (List.mem_reverse.2 hmem)
    have hlt := (List.getElem?_eq_some_iff.1 hi).1
    rw [List.length_reverse] at hlt
    exact ⟨i, by omega, hi⟩

/-- Some open level but the innermost is marked exactly if some entry but the first says so. -/
theorem Nested.exists_marked_lt_iff (h : Nested ts) :
    (∃ i < (unclosed ts).length, Marked ts i) ↔ true ∈ (openLevels ts).tail := by
  have hlen := h.length_openLevels
  simp only [h.marked_iff]
  obtain ⟨b, levels, hlevels⟩ := h.exists_cons
  rw [hlevels, List.length_cons, Nat.succ_inj] at hlen
  rw [hlevels, List.tail_cons, List.reverse_cons, ← hlen]
  constructor
  · rintro ⟨i, hlt, hi⟩
    rw [List.getElem?_append_left (by simpa using hlt)] at hi
    exact List.mem_reverse.1 (List.mem_of_getElem? hi)
  · intro hmem
    obtain ⟨i, hi⟩ := List.mem_iff_getElem?.1 (List.mem_reverse.2 hmem)
    have hlt := (List.getElem?_eq_some_iff.1 hi).1
    exact ⟨i, by simpa using hlt, by rwa [List.getElem?_append_left hlt]⟩

end IntCalc.Tokens
