import IntCalc.Proofs.Cache
import IntCalc.Session.Objects

/-!
# Outcomes that share nothing

In a store to which outcomes are only added and in which they are only changed where they
are, no two outcomes have a part in common (`Store.Separate`). A new outcome then leaves
all others as they are, and so does a change of one. If outcomes shared a part, a change of it
would be seen in each of them (`Store.rpn_overwrite_of_shared`).
-/

namespace IntCalc

namespace Store

variable {s s' : Store} {p q : Place} {o : Outcome}

/-- The places of an outcome and of its parts. -/
structure Parts where
  outcome : Place
  parse : Place
  tokens : Place
  rpn : Place
  eval : Option Place

/-- The places of the outcome at a place. -/
def parts (s : Store) (p : Place) : Parts :=
  let object := s.outcomes.get p
  ⟨p, object.parse, (s.parses.get object.parse).tokens, object.rpn, object.eval⟩

/-- The places are those of objects of the store, and the two lists are not the same. -/
structure Parts.Within (a : Parts) (s : Store) : Prop where
  outcome : a.outcome < s.outcomes.next
  parse : a.parse < s.parses.next
  tokens : a.tokens < s.lists.next
  rpn : a.rpn < s.lists.next
  eval : ∀ e ∈ a.eval, e < s.evals.next
  lists : a.tokens ≠ a.rpn

/-- Two outcomes have no part in common. -/
structure Parts.Apart (a b : Parts) : Prop where
  outcome : a.outcome ≠ b.outcome
  parse : a.parse ≠ b.parse
  tokens : a.tokens ≠ b.tokens ∧ a.tokens ≠ b.rpn
  rpn : a.rpn ≠ b.tokens ∧ a.rpn ≠ b.rpn
  eval : ∀ e ∈ a.eval, e ∉ b.eval

theorem Parts.Apart.symm {a b : Parts} (h : a.Apart b) : b.Apart a :=
  ⟨h.outcome.symm, h.parse.symm, ⟨h.tokens.1.symm, h.rpn.1.symm⟩, ⟨h.tokens.2.symm, h.rpn.2.symm⟩,
    fun e hb ha => h.eval e ha hb⟩

theorem outcome_eq (s : Store) (p : Place) : s.outcome p =
    { expression := (s.outcomes.get p).expression
      parse := ⟨(s.parses.get (s.parts p).parse).status, (s.parses.get (s.parts p).parse).column,
        s.lists.get (s.parts p).tokens⟩
      rpn := s.lists.get (s.parts p).rpn
      eval := (s.parts p).eval.map s.evals.get } :=
  rfl

/-- Two stores have the same objects at the places. -/
structure Parts.SameIn (a : Parts) (s s' : Store) : Prop where
  outcome : s'.outcomes.get a.outcome = s.outcomes.get a.outcome
  parse : s'.parses.get a.parse = s.parses.get a.parse
  tokens : s'.lists.get a.tokens = s.lists.get a.tokens
  rpn : s'.lists.get a.rpn = s.lists.get a.rpn
  eval : ∀ e ∈ a.eval, s'.evals.get e = s.evals.get e

theorem Parts.SameIn.parts_eq (h : (s.parts p).SameIn s s') : s'.parts p = s.parts p := by
  have hobject : s'.outcomes.get p = s.outcomes.get p := h.outcome
  have hparse : s'.parses.get (s.outcomes.get p).parse = s.parses.get (s.outcomes.get p).parse :=
    h.parse
  simp [parts, hobject, hparse]

/-- An outcome is the same if its places hold the same objects. -/
theorem Parts.SameIn.outcome_eq (h : (s.parts p).SameIn s s') : s'.outcome p = s.outcome p := by
  have hobject : s'.outcomes.get p = s.outcomes.get p := h.outcome
  rw [Store.outcome_eq s' p, h.parts_eq, hobject, h.parse, h.tokens, h.rpn, Option.map_congr h.eval,
    ← Store.outcome_eq]

/-- The outcomes of the store have all their parts, and no part in common. -/
structure Separate (s : Store) : Prop where
  within : ∀ p < s.outcomes.next, (s.parts p).Within s
  apart : ∀ p < s.outcomes.next, ∀ q < s.outcomes.next, p ≠ q → (s.parts p).Apart (s.parts q)

theorem separate_empty : Separate {} :=
  ⟨fun _ h => absurd h (Nat.not_lt_zero _), fun _ h => absurd h (Nat.not_lt_zero _)⟩

/-! ## New outcomes -/

theorem next_evals_add_le : s.evals.next ≤ (s.add o).evals.next := by
  simp only [add]
  split <;> simp

theorem Parts.Within.add {a : Parts} (h : a.Within s) (o : Outcome) : a.Within (s.add o) where
  outcome := Nat.lt_succ_of_lt h.outcome
  parse := Nat.lt_succ_of_lt h.parse
  tokens := Nat.lt_succ_of_lt (Nat.lt_succ_of_lt h.tokens)
  rpn := Nat.lt_succ_of_lt (Nat.lt_succ_of_lt h.rpn)
  eval e he := Nat.lt_of_lt_of_le (h.eval e he) next_evals_add_le
  lists := h.lists

/-- A new outcome leaves the objects of the store as they are. -/
theorem Parts.Within.sameIn_add {a : Parts} (h : a.Within s) (o : Outcome) :
    a.SameIn s (s.add o) where
  outcome := Region.get_add_of_lt h.outcome
  parse := Region.get_add_of_lt h.parse
  tokens := (Region.get_add_of_lt (Nat.lt_succ_of_lt h.tokens)).trans
    (Region.get_add_of_lt h.tokens)
  rpn := (Region.get_add_of_lt (Nat.lt_succ_of_lt h.rpn)).trans (Region.get_add_of_lt h.rpn)
  eval e he := by
    simp only [Store.add]
    split
    · rfl
    · exact Region.get_add_of_lt (h.eval e he)

theorem parts_add_next : (s.add o).parts s.outcomes.next =
    ⟨s.outcomes.next, s.parses.next, s.lists.next, s.lists.next + 1,
      o.eval.map fun _ => s.evals.next⟩ := by
  simp [parts, add]

theorem outcome_add_next : (s.add o).outcome s.outcomes.next = o := by
  have hobject : ((s.add o).outcomes.get s.outcomes.next).expression = o.expression := by
    simp [add]
  have hparse : (s.add o).parses.get s.parses.next =
      ⟨o.parse.status, o.parse.column, s.lists.next⟩ := Region.get_add_next
  have htokens : (s.add o).lists.get s.lists.next = o.parse.tokens :=
    (Region.get_add_of_lt (Nat.lt_succ_self _)).trans Region.get_add_next
  have hrpn : (s.add o).lists.get (s.lists.next + 1) = o.rpn := Region.get_add_next
  have heval : (o.eval.map fun _ => s.evals.next).map (s.add o).evals.get = o.eval := by
    cases ho : o.eval <;> simp [add, ho]
  rw [outcome_eq, parts_add_next]
  simp only [hobject, hparse, htokens, hrpn, heval]

/-- The parts of a new outcome are new. -/
theorem Parts.Within.apart_add {a : Parts} (h : a.Within s) (o : Outcome) :
    a.Apart ((s.add o).parts s.outcomes.next) := by
  rw [parts_add_next]
  refine ⟨Nat.ne_of_lt h.outcome, Nat.ne_of_lt h.parse,
    ⟨Nat.ne_of_lt h.tokens, Nat.ne_of_lt (Nat.lt_succ_of_lt h.tokens)⟩,
    ⟨Nat.ne_of_lt h.rpn, Nat.ne_of_lt (Nat.lt_succ_of_lt h.rpn)⟩, fun e he hnew => ?_⟩
  obtain ⟨-, -, rfl⟩ := Option.map_eq_some_iff.1 hnew
  exact Nat.lt_irrefl _ (h.eval _ he)

theorem within_add_next : ((s.add o).parts s.outcomes.next).Within (s.add o) := by
  rw [parts_add_next]
  refine ⟨Nat.lt_succ_self _, Nat.lt_succ_self _, ?_, Nat.lt_succ_self _, fun e he => ?_, ?_⟩
  · exact Nat.lt_succ_of_lt (Nat.lt_succ_self _)
  · obtain ⟨r, hr, rfl⟩ := Option.map_eq_some_iff.1 he
    simp [add, hr]
  · exact Nat.ne_of_lt (Nat.lt_succ_self _)

theorem Separate.add (h : s.Separate) (o : Outcome) : (s.add o).Separate := by
  have hparts : ∀ p < s.outcomes.next, (s.add o).parts p = s.parts p := fun p hp =>
    ((h.within p hp).sameIn_add o).parts_eq
  constructor
  · intro p hp
    rcases Nat.lt_succ_iff_lt_or_eq.1 hp with hp | rfl
    · exact hparts p hp ▸ (h.within p hp).add o
    · exact within_add_next
  · intro p hp q hq hne
    rcases Nat.lt_succ_iff_lt_or_eq.1 hp with hp | rfl
    · rcases Nat.lt_succ_iff_lt_or_eq.1 hq with hq | rfl
      · exact hparts p hp ▸ hparts q hq ▸ h.apart p hp q hq hne
      · exact hparts p hp ▸ (h.within p hp).apart_add o
    · rcases Nat.lt_succ_iff_lt_or_eq.1 hq with hq | rfl
      · exact hparts q hq ▸ ((h.within q hq).apart_add o).symm
      · exact absurd rfl hne

/-! ## Changed outcomes -/

/-- A change of an outcome is seen in each one that shares its reverse Polish form. -/
theorem rpn_overwrite_of_shared (h : (s.parts q).rpn = (s.parts p).rpn) :
    ((s.overwrite p o).outcome q).rpn = o.rpn := by
  have hshared : (s.outcomes.get q).rpn = (s.outcomes.get p).rpn := h
  have hplace : ((s.overwrite p o).outcomes.get q).rpn = (s.outcomes.get p).rpn := by
    by_cases hqp : q = p
    · simp [overwrite, hqp]
    · simp [overwrite, Region.get_set_of_ne hqp, hshared]
  rw [outcome, hplace]
  exact Region.get_set_self

theorem next_evals_overwrite_le : s.evals.next ≤ (s.overwrite p o).evals.next := by
  simp only [overwrite]
  split <;> simp

theorem parts_overwrite_self : (s.overwrite p o).parts p =
    { s.parts p with eval := o.eval.map fun _ => (s.parts p).eval.getD s.evals.next } := by
  simp [parts, overwrite]

theorem outcome_overwrite_self (h : (s.parts p).Within s) : (s.overwrite p o).outcome p = o := by
  have hobject : ((s.overwrite p o).outcomes.get p).expression = o.expression := by
    simp [overwrite]
  have hparse : (s.overwrite p o).parses.get (s.parts p).parse =
      ⟨o.parse.status, o.parse.column, (s.parts p).tokens⟩ := Region.get_set_self
  have htokens : (s.overwrite p o).lists.get (s.parts p).tokens = o.parse.tokens :=
    (Region.get_set_of_ne h.lists).trans Region.get_set_self
  have hrpn : (s.overwrite p o).lists.get (s.parts p).rpn = o.rpn := Region.get_set_self
  have heval : (o.eval.map fun _ => (s.parts p).eval.getD s.evals.next).map
      (s.overwrite p o).evals.get = o.eval := by
    cases ho : o.eval with
    | none => rfl
    | some r => cases hold : (s.outcomes.get p).eval <;> simp [overwrite, parts, ho, hold]
  rw [outcome_eq, parts_overwrite_self]
  simp only [hobject, hparse, htokens, hrpn, heval]

/-- A change leaves what has no part in common with it as it is. -/
theorem Parts.Apart.sameIn_overwrite {a : Parts} (h : (s.parts p).Apart a) (ha : a.Within s)
    (o : Outcome) : a.SameIn s (s.overwrite p o) where
  outcome := Region.get_set_of_ne h.outcome.symm
  parse := Region.get_set_of_ne h.parse.symm
  tokens := (Region.get_set_of_ne h.rpn.1.symm).trans (Region.get_set_of_ne h.tokens.1.symm)
  rpn := (Region.get_set_of_ne h.rpn.2.symm).trans (Region.get_set_of_ne h.tokens.2.symm)
  eval e he := by
    simp only [Store.overwrite]
    split
    · rfl
    · exact Region.get_add_of_lt (ha.eval e he)
    · next e' _ heval _ =>
      refine Region.get_set_of_ne ?_
      rintro rfl
      exact h.eval e heval he

theorem Parts.Within.overwrite {a : Parts} (h : a.Within s) (p : Place) (o : Outcome) :
    a.Within (s.overwrite p o) where
  outcome := h.outcome
  parse := h.parse
  tokens := h.tokens
  rpn := h.rpn
  eval e he := Nat.lt_of_lt_of_le (h.eval e he) next_evals_overwrite_le
  lists := h.lists

/-- The result of a changed outcome is where it was, or new. -/
theorem eval_overwrite_self {e : Place}
    (he : e ∈ o.eval.map fun _ => (s.parts p).eval.getD s.evals.next) :
    e ∈ (s.parts p).eval ∨ e = s.evals.next ∧ e < (s.overwrite p o).evals.next := by
  obtain ⟨r, hr, rfl⟩ := Option.map_eq_some_iff.1 he
  cases hold : (s.parts p).eval with
  | some e => exact Or.inl rfl
  | none =>
    have hnone : (s.outcomes.get p).eval = none := hold
    exact Or.inr ⟨rfl, by simp [Store.overwrite, hr, hnone]⟩

theorem within_overwrite_self (h : (s.parts p).Within s) :
    ((s.overwrite p o).parts p).Within (s.overwrite p o) := by
  have hw := h.overwrite p o
  rw [parts_overwrite_self]
  refine ⟨hw.outcome, hw.parse, hw.tokens, hw.rpn, fun e he => ?_, hw.lists⟩
  rcases eval_overwrite_self he with hold | ⟨-, hnew⟩
  · exact hw.eval e hold
  · exact hnew

theorem Parts.Apart.overwrite {a : Parts} (h : (s.parts p).Apart a) (ha : a.Within s)
    (o : Outcome) : ((s.overwrite p o).parts p).Apart a := by
  rw [parts_overwrite_self]
  refine ⟨h.outcome, h.parse, h.tokens, h.rpn, fun e he hea => ?_⟩
  rcases eval_overwrite_self he with hold | ⟨rfl, -⟩
  · exact h.eval e hold hea
  · exact Nat.lt_irrefl _ (ha.eval _ hea)

theorem Separate.overwrite (h : s.Separate) (hp : p < s.outcomes.next) (o : Outcome) :
    (s.overwrite p o).Separate := by
  have hparts : ∀ q < s.outcomes.next, q ≠ p → (s.overwrite p o).parts q = s.parts q :=
    fun q hq hne => ((h.apart p hp q hq hne.symm).sameIn_overwrite (h.within q hq) o).parts_eq
  have hself : ∀ q < s.outcomes.next, q ≠ p →
      ((s.overwrite p o).parts p).Apart ((s.overwrite p o).parts q) := fun q hq hne =>
    hparts q hq hne ▸ (h.apart p hp q hq hne.symm).overwrite (h.within q hq) o
  constructor
  · intro q hq
    by_cases hne : q = p
    · rw [hne]
      exact within_overwrite_self (h.within p hp)
    · exact hparts q hq hne ▸ (h.within q hq).overwrite p o
  · intro q hq r hr hqr
    by_cases hqp : q = p
    · exact hqp ▸ hself r hr fun hrp => hqr (hqp.trans hrp.symm)
    · by_cases hrp : r = p
      · exact hrp ▸ (hself q hq hqp).symm
      · exact hparts q hq hqp ▸ hparts r hr hrp ▸ h.apart q hq r hr hqr

end Store

end IntCalc
