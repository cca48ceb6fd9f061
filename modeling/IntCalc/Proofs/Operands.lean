import IntCalc.Expr
import IntCalc.Grammar.Precedence
import IntCalc.Grammar.Text
import IntCalc.Proofs.Numerals

/-!
# The operands of accepted texts

A literal has the text of an operand that the grammar of token lists calls canonical,
so the tokens of an accepted text are an expression of canonical operands
(`derives_of_written`). Such an operand is the numeral of `0` or of an integer strictly
inside the range (`toInt?_of_canonical`), as long as these can be written
(`Range.InteriorPrintable`), which those of an integer type can. The leaves of a syntax tree are
operands of its tokens, so in a tree of an accepted text they are all numerals
(`canonical_of_mem_leaves`).
-/

namespace IntCalc

open Grammar

variable {range : Range} {p : String → Prop} {phrase : Phrase} {level : Level}
  {body digits : List Char} {text : String} {ts : List Token} {e : Expr}

/-- What lies strictly inside the range can be written. -/
def Range.InteriorPrintable (range : Range) : Prop :=
  ∀ n, range.Interior n → Numeral.Printable n

theorem IntType.interiorPrintable (t : IntType) : t.range.InteriorPrintable :=
  fun _ h => printable_of_contains h.contains

/-- A canonical operand is `0` or an integer strictly inside the range. -/
theorem toInt?_of_canonical (hprintable : range.InteriorPrintable) (h : Canonical range text) :
    ∃ n, Numeral.toInt? text = some n ∧ (n = 0 ∨ range.Interior n) := by
  rcases h with rfl | ⟨digits, hdigits, ⟨rfl, hrange⟩ | ⟨rfl, hrange⟩⟩
  · exact ⟨0, by decide, Or.inl rfl⟩
  all_goals
    obtain ⟨hne, hall⟩ := hdigits.ne_nil_and_isDigit
  · have hlength := Numeral.length_le_of_isNatural hdigits (hprintable _ hrange)
    exact ⟨_, Numeral.toInt?_of_isDigit hne hall hlength, Or.inr hrange⟩
  · have hlength := Numeral.length_le_of_isNatural hdigits
      ((hprintable _ hrange).of_natAbs_le (by simp))
    exact ⟨_, Numeral.toInt?_minus_of_isDigit hne hall hlength, Or.inr hrange⟩

/-- A tree with canonical leaves can be evaluated. -/
theorem Expr.numeric_of_canonical (hprintable : range.InteriorPrintable)
    (h : ∀ text ∈ e.leaves, Canonical range text) : e.Numeric := by
  intro text ht
  obtain ⟨n, hn, -⟩ := toInt?_of_canonical hprintable (h text ht)
  simp [hn]

/-! ## Accepted texts -/

theorem canonical_of_literal (h : Literal range body text) : Canonical range text := by
  cases h with
  | zero => exact Or.inl rfl
  | @signed n run digits _ hdigits hrange =>
    refine Or.inr ⟨digits, hdigits, ?_⟩
    by_cases hn : n % 2 = 1
    · exact Or.inr ⟨by simp [signedText, hn], by simpa [signedValue, hn] using hrange⟩
    · exact Or.inl ⟨by simp [signedText, hn], by simpa [signedValue, hn] using hrange⟩

/-- The tokens of a phrase are a phrase of canonical operands. -/
theorem derives_of_written (h : Written range phrase body ts) :
    Derives (Canonical range) phrase ts := by
  induction h with
  | literal h => exact .operand (canonical_of_literal h)
  | scope _ _ _ ih => exact .scope ih
  | term _ ih => exact .term ih
  | chain op _ _ _ _ ihl ihr => exact .chain op ihl ihr

/-! ## Leaves -/

/-- An operand of a phrase has a text that satisfies `p`. -/
theorem of_operand_mem (h : Derives p phrase ts) (ht : .operand text ∈ ts) : p text := by
  induction h with
  | operand hp =>
    obtain rfl := congrArg Token.text (List.mem_singleton.1 ht)
    exact hp
  | scope _ ih =>
    simp only [List.cons_append, List.mem_cons, List.mem_append, List.not_mem_nil, or_false] at ht
    rcases ht with ht | ht | ht
    · exact absurd ht (by simp [Token.operand, Token.opening])
    · exact ih ht
    · exact absurd ht (by simp [Token.operand, Token.closing])
  | term _ ih => exact ih ht
  | chain op _ _ ihl ihr =>
    rcases List.mem_append.1 ht with ht | ht
    · exact ihl ht
    · rcases List.mem_cons.1 ht with ht | ht
      · exact absurd ht (by simp [Token.operand, Token.ofOperator])
      · exact ihr ht

/-- A leaf of a tree is an operand of its tokens. -/
theorem operand_mem_of_mem_leaves (h : Parses level ts e) (ht : text ∈ e.leaves) :
    .operand text ∈ ts := by
  induction h with
  | operand text =>
    rw [List.mem_singleton.1 ht]
    exact List.mem_singleton_self _
  | scope _ ih => exact List.mem_append_left _ (List.mem_cons_of_mem _ (ih ht))
  | ofAtom _ ih | ofPower _ ih | ofProduct _ ih => exact ih ht
  | power _ _ ihl ihr | product _ _ _ _ ihl ihr | sum _ _ _ _ ihl ihr =>
    rcases List.mem_append.1 ht with ht | ht
    · exact List.mem_append_left _ (ihl ht)
    · exact List.mem_append_right _ (List.mem_cons_of_mem _ (ihr ht))

/-- The leaves of a tree of an accepted text are canonical. -/
theorem canonical_of_mem_leaves (h : Written range .expression body ts) (he : HasTree ts e)
    (ht : text ∈ e.leaves) : Canonical range text :=
  of_operand_mem (derives_of_written h) (operand_mem_of_mem_leaves he ht)

end IntCalc
