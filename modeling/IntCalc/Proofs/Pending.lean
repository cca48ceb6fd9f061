import IntCalc.Proofs.Rearrangement
import IntCalc.Proofs.Shunting
import Mathlib.Data.List.Chain

/-!
# Pending operators

Operators wait for tighter ones only. An operator that is put on top of what is pending has sent
everything to the output that binds as tightly, so it binds more tightly than the operator
below it, unless both are powers (`Conversion.Climbs`). Any list keeps this, expression or not,
as long as its operator tokens name operators (`Conversion.State.Climbing`).

Since there are two precedences below that of a power, at most two operators that are no powers
are pending side by side (`Conversion.countOthers_le_two`).
-/

namespace IntCalc

/-! ## Precedence of operators -/

namespace Operator

variable {op : Operator}

theorem precedence_pos (op : Operator) : 0 < op.precedence := by
  cases op <;> decide

theorem precedence_le_two_iff : op.precedence ≤ 2 ↔ op ≠ .pow := by
  cases op <;> decide

theorem eq_pow_of_rightAssoc (h : op.rightAssoc = true) : op = .pow := by
  cases op <;> simp_all [rightAssoc]

end Operator

namespace Conversion

open Tokens

variable {ts before segment rest : List Token} {t u top below : Token} {s s' : State}

/-- The operator `top` may be pending on top of the operator `below`. -/
def Climbs (top below : Token) : Prop :=
  top.isOperator → below.isOperator →
    below.precedence < top.precedence ∨
      (top = .ofOperator .pow ∧ below = .ofOperator .pow)

/-- The token names an operator if it is one. -/
def NamesOperator (t : Token) : Prop :=
  t.isOperator → ∃ op, t = .ofOperator op

/-- What does not yield to an operator may stay below it. -/
theorem climbs_of_not_yieldsTo (ht : NamesOperator t) (hu : NamesOperator u)
    (h : yieldsTo t u = false) : Climbs t u := by
  intro htop hbelow
  obtain ⟨op, rfl⟩ := ht htop
  obtain ⟨op', rfl⟩ := hu hbelow
  simp only [yieldsTo, hbelow, Bool.true_and, Token.bindsBefore, Token.precedence_ofOperator,
    Token.rightAssoc_ofOperator] at h ⊢
  split at h
  · next hsame =>
    -- Only a power leaves an operator of its own precedence where it is.
    obtain rfl := Operator.eq_pow_of_rightAssoc hsame.2
    have hle : 3 ≤ op'.precedence := by rw [hsame.1]; decide
    obtain rfl := Operator.eq_pow_of_le hle
    exact Or.inr ⟨rfl, rfl⟩
  · exact Or.inl (Nat.not_le.1 (of_decide_eq_false h))

theorem climbs_opening (ht : t.kind = .opening) : Climbs t u := by
  intro htop
  simp [Token.isOperator, ht] at htop

/-! ## What is pending -/

/-- The pending operators climb from the bottom to the top. -/
structure State.Climbing (s : State) : Prop where
  names : ∀ u ∈ s.pending, NamesOperator u
  climbs : s.pending.IsChain Climbs

theorem climbing_nil : State.Climbing {} :=
  ⟨by simp, .nil⟩

namespace State.Climbing

/-- Pending tokens may be taken off from the top. -/
theorem drop (h : s.Climbing) (hrest : rest <:+ s.pending) (output : List Token) :
    State.Climbing ⟨output, rest⟩ :=
  ⟨fun u hu => h.names u (hrest.subset hu), h.climbs.suffix hrest⟩

/-- A token may be put on top if it climbs. -/
theorem push (h : s.Climbing) (ht : NamesOperator t) (hclimbs : ∀ u ∈ s.pending.head?, Climbs t u) :
    State.Climbing ⟨s.output, t :: s.pending⟩ :=
  ⟨List.forall_mem_cons.2 ⟨ht, h.names⟩, List.isChain_cons.2 ⟨hclimbs, h.climbs⟩⟩

/-- Every token that is read keeps the order. -/
theorem step (h : s.Climbing) (ht : NamesOperator t) (hstep : Conversion.step s t = .ok s') :
    s'.Climbing := by
  rcases step_cases hstep with ⟨-, rfl⟩ | ⟨hkind, rfl⟩ |
    ⟨-, flushed, rest, hpending, -, hrest, rfl⟩ | ⟨-, flushed, o, rest, hpending, -, -, rfl⟩
  · exact ⟨h.names, h.climbs⟩
  · exact h.push ht fun _ _ => climbs_opening hkind
  · have hsuffix : rest <:+ s.pending := hpending ▸ List.suffix_append flushed rest
    refine (h.drop hsuffix (flushed.reverse ++ s.output)).push ht fun u hu => ?_
    have hu' : NamesOperator u := h.names u (hsuffix.subset (List.mem_of_mem_head? hu))
    exact climbs_of_not_yieldsTo ht hu' (hrest u hu)
  · have hsuffix : o :: rest <:+ s.pending := hpending ▸ List.suffix_append flushed (o :: rest)
    exact h.drop ((List.suffix_cons o rest).trans hsuffix) _

theorem run (hts : ∀ t ∈ ts, NamesOperator t) (h : Conversion.run {} ts = .ok s) :
    s.Climbing := by
  induction ts using List.reverseRecOn generalizing s with
  | nil =>
    cases h
    exact climbing_nil
  | append_singleton ts t ih =>
    obtain ⟨s', hs', hstep⟩ := foldlM_concat_eq_ok_iff.1 h
    obtain ⟨hts, ht⟩ := List.forall_mem_append.1 hts
    exact (ih hts hs').step (ht t (List.mem_singleton_self t)) hstep

end State.Climbing

/-! ## Operators side by side -/

/-- The number of operators that are no powers. -/
def countOthers (segment : List Token) : Nat :=
  segment.countP (· ≠ .ofOperator .pow)

theorem countOthers_cons_pow (segment : List Token) :
    countOthers (.ofOperator .pow :: segment) = countOthers segment :=
  List.countP_cons_of_neg (by simp)

theorem countOthers_cons {op : Operator} (hop : op ≠ .pow) (segment : List Token) :
    countOthers (.ofOperator op :: segment) = countOthers segment + 1 :=
  List.countP_cons_of_pos (by simpa using fun h => hop (Token.ofOperator_injective h))

/-- Below an operator that is no power there are fewer others than its precedence says, and there
are two at most in any case. -/
theorem countOthers_le_precedence {op : Operator}
    (h : (.ofOperator op :: segment).IsChain Climbs)
    (hsegment : ∀ u ∈ segment, ∃ op, u = .ofOperator op) :
    countOthers (.ofOperator op :: segment) ≤ 2 ∧
      (op ≠ .pow → countOthers (.ofOperator op :: segment) ≤ op.precedence) := by
  induction segment generalizing op with
  | nil =>
    have hpos := op.precedence_pos
    have hle : countOthers [.ofOperator op] ≤ 1 := List.countP_le_length
    omega
  | cons u segment ih =>
    obtain ⟨hu, hrest⟩ := List.forall_mem_cons.1 hsegment
    obtain ⟨op', rfl⟩ := hu
    obtain ⟨hclimbs, hchain⟩ := List.isChain_cons_cons.1 h
    obtain ⟨hle, hle'⟩ := ih hchain hrest
    by_cases hop : op = .pow
    · subst hop
      rw [countOthers_cons_pow]
      exact ⟨hle, fun hne => absurd rfl hne⟩
    · -- Below an operator that is no power stands a looser one.
      have htwo := Operator.precedence_le_two_iff.2 hop
      have hlt : op'.precedence < op.precedence := by
        rcases hclimbs rfl rfl with hlt | ⟨hpow, -⟩
        · simpa using hlt
        · exact absurd (Token.ofOperator_injective hpow) hop
      have hcount := hle' (Operator.precedence_le_two_iff.1 (by omega))
      rw [countOthers_cons hop]
      omega

/-- At most two operators that are no powers stand side by side in a chain that climbs. -/
theorem countOthers_le_two (h : segment.IsChain Climbs)
    (hsegment : ∀ u ∈ segment, ∃ op, u = .ofOperator op) : countOthers segment ≤ 2 := by
  cases segment with
  | nil => exact Nat.zero_le 2
  | cons u segment =>
    obtain ⟨hu, hrest⟩ := List.forall_mem_cons.1 hsegment
    obtain ⟨op, rfl⟩ := hu
    exact (countOthers_le_precedence h hrest).1

/-- Whatever list is read, operators and opening brackets are pending, and the brackets are those
that are not closed. Pending operators bind the more tightly the higher they stand, and only
powers stand on their like, so at most two other operators are pending side by side. -/
theorem pending_climbs (hts : ∀ t ∈ ts, t.isOperator → ∃ op, t = .ofOperator op)
    (hbefore : before <+: ts) (h : run {} before = .ok s) :
    (∀ u ∈ s.pending, u.isOperator ∨ u.isOpening) ∧
      s.pending.filter (·.isOpening) = unclosed before ∧
      (∀ above below top under, s.pending = above ++ top :: under :: below →
        top.isOperator → under.isOperator →
        under.precedence < top.precedence ∨
          (top = .ofOperator .pow ∧ under = .ofOperator .pow)) ∧
      ∀ above segment below, s.pending = above ++ segment ++ below →
        (∀ u ∈ segment, u.isOperator) → segment.countP (· ≠ .ofOperator .pow) ≤ 2 := by
  have hholds := State.Holds.run h
  have hclimbing := State.Climbing.run (fun t ht => hts t (hbefore.subset ht)) h
  refine ⟨fun u hu => ?_, hholds.brackets, ?_, fun above segment below hpending hsegment => ?_⟩
  · rcases hholds.pending_kind u hu with hkind | hkind <;>
      simp [Token.isOperator, Token.isOpening, hkind]
  · intro above below top under hpending
    have hchain := hclimbing.climbs
    rw [hpending] at hchain
    exact (List.isChain_cons_cons.1 hchain.right_of_append).1
  · have hchain := hclimbing.climbs
    rw [hpending] at hchain
    refine countOthers_le_two hchain.left_of_append.right_of_append fun u hu => ?_
    exact hclimbing.names u (by simp [hpending, hu]) (hsegment u hu)

/-- Seven tokens of a list that is no expression : a sum, a product and two powers are pending
between two brackets, and a difference on top of them. -/
theorem pending_climbs_powers :
    let ts : List Token := [.opening, .ofOperator .add, .ofOperator .mul, .ofOperator .pow,
      .ofOperator .pow, .opening, .ofOperator .sub, .closing, .closing, .closing]
    let pending : List Token := [.ofOperator .sub, .opening, .ofOperator .pow, .ofOperator .pow,
      .ofOperator .mul, .ofOperator .add, .opening]
    (∀ t ∈ ts, t.isOperator → ∃ op, t = .ofOperator op) ∧ ts.take 7 <+: ts ∧
      run {} (ts.take 7) = .ok ⟨[], pending⟩ ∧
      (∀ u ∈ pending, u.isOperator ∨ u.isOpening) ∧
      pending.filter (·.isOpening) = unclosed (ts.take 7) ∧
      (∀ above below top under, pending = above ++ top :: under :: below →
        top.isOperator → under.isOperator →
        under.precedence < top.precedence ∨
          (top = .ofOperator .pow ∧ under = .ofOperator .pow)) ∧
      ∀ above segment below, pending = above ++ segment ++ below →
        (∀ u ∈ segment, u.isOperator) → segment.countP (· ≠ .ofOperator .pow) ≤ 2 := by
  intro ts pending
  have hts : ∀ t ∈ ts, t.isOperator → ∃ op, t = .ofOperator op := by
    simp [ts, Token.isOperator, Token.opening, Token.closing, Token.ofOperator]
  have hbefore : ts.take 7 <+: ts := List.take_prefix 7 ts
  have hrun : run {} (ts.take 7) = .ok ⟨[], pending⟩ := by decide +kernel
  exact ⟨hts, hbefore, hrun, pending_climbs hts hbefore hrun⟩

end Conversion

end IntCalc
