import IntCalc.Fallible
import IntCalc.Proofs.Evaluation

/-!
# The first bad operation decides the status

A tree is evaluated to its end even if an operation on the way is bad : `Expr.value`
goes on with the value that the operation has all the same, and `Expr.statuses` lists
how the operations end, in postorder. What an operation gives is described by ideal
arithmetic (`Evaluator.apply_eq`) : the placeholder for a division by zero, and else the
value of the working type (`Operator.wide`).

The stack machine computes both at once. The value is that of the tree and the status is
the first bad one of its operations. Once a status is bad, no token that is read later
changes it (`Evaluator.status_run`).
-/

namespace IntCalc

variable {ev : Evaluator} {e : Expr} {op : Operator} {a b v : Int} {s s' : Values} {t : Token}
  {ts : List Token}

/-! ## All operations of a tree -/

/-- The first bad status of a list, if there is one. -/
def EvalStatus.first (statuses : List EvalStatus) : EvalStatus :=
  (statuses.find? (· ≠ .ok)).getD .ok

theorem EvalStatus.first_singleton (status : EvalStatus) : first [status] = status := by
  cases status <;> rfl

/-- A later status counts only if no earlier one is bad. -/
theorem EvalStatus.first_append (l m : List EvalStatus) :
    first (l ++ m) = (first l).orElse (first m) := by
  unfold first orElse
  rw [List.find?_append]
  cases h : l.find? (· ≠ .ok) with
  | none => simp
  | some status =>
    have hbad := List.find?_some h
    simp_all

namespace Expr

/-- The value of a tree if every operation is carried out, the bad ones too. -/
def value (ev : Evaluator) : Expr → Int
  | .leaf text => leafValue text
  | .node op left right => (ev.apply op (value ev left) (value ev right)).value

/-- How the operations of a tree end, in postorder. -/
def statuses (ev : Evaluator) : Expr → List EvalStatus
  | .leaf _ => []
  | .node op left right =>
    statuses ev left ++ statuses ev right ++
      [(ev.apply op (value ev left) (value ev right)).status]

/-- A tree is evaluated to its value and the first bad status of its operations. -/
theorem eval_eq (ev : Evaluator) (e : Expr) :
    e.eval ev = ⟨e.value ev, .first (e.statuses ev)⟩ := by
  induction e with
  | leaf text => rfl
  | node op left right ihl ihr =>
    have hstatus : EvalStatus.first (statuses ev (.node op left right)) =
        ((EvalStatus.first (statuses ev left)).orElse (.first (statuses ev right))).orElse
          (ev.apply op (value ev left) (value ev right)).status := by
      rw [statuses, EvalStatus.first_append, EvalStatus.first_append, EvalStatus.first_singleton]
    rw [eval, ihl, ihr, hstatus]
    rfl

end Expr

/-! ## The status of the machine -/

namespace Evaluator

/-- A token that is read after a fault leaves the fault as it is. -/
theorem fault_step {fault : Fault} (hs : s.fault = some fault) (h : ev.step s t = .ok s') :
    s'.fault = some fault := by
  rcases step_cases h with ⟨n, -, -, rfl⟩ | ⟨op, a, b, stack, fault', -, -, hfault, rfl⟩
  · exact hs
  · rw [hs] at hfault
    exact (Except.ok.inj hfault).symm

/-- So it does not change a bad status. -/
theorem status_step (h : ev.step s t = .ok s') (hs : s.status ≠ .ok) : s'.status = s.status := by
  obtain ⟨fault, hfault⟩ : ∃ fault, s.fault = some fault := by
    refine Option.ne_none_iff_exists'.1 fun hnone => hs ?_
    simp [Values.status, hnone]
  simp [Values.status, hfault, fault_step hfault h]

/-- No number of tokens changes a bad status. -/
theorem status_run (h : ev.run s ts = .ok s') (hs : s.status ≠ .ok) : s'.status = s.status := by
  refine foldlM_invariant (P := fun m => m.status = s.status) (fun m t m' hm hstep => ?_) rfl h
  exact (status_step hstep (hm ▸ hs)).trans hm

/-- If the placeholder can be written, so can every value. -/
theorem printable_value (hplaceholder : Numeral.Printable ev.placeholder) (h : e.Numeric) :
    Numeral.Printable (e.value ev) := by
  induction e with
  | leaf text => exact Expr.printable_leafValue (h text (List.mem_singleton_self text))
  | node op l r ihl ihr =>
    exact printable_apply op (ihl (List.forall_mem_append.1 h).1) _ fun _ => hplaceholder

/-- So its result is that of the tree. -/
theorem evaluate_postorder_eq_ok (hplaceholder : Numeral.Printable ev.placeholder)
    (h : e.Numeric) : ev.evaluate e.postorder = .ok (e.eval ev) := by
  have hprintable : Numeral.Printable (e.eval ev).value := by
    rw [e.eval_eq]
    exact printable_value hplaceholder h
  rw [evaluate_postorder h, if_pos hprintable]

/-- A tree in reverse Polish form has the value of all its operations and the first bad
status among them in postorder, unless the value is too long to be written, which it never is
if the placeholder is not. A division by zero gives the placeholder, every other operation the
value in the working type. Whichever part of the list has been read, a bad status is not
changed by the tokens behind it. -/
theorem evaluate_postorder_eq_first (ev : Evaluator) (h : e.Numeric) :
    (ev.evaluate e.postorder =
      if Numeral.Printable (e.value ev) then .ok ⟨e.value ev, .first (e.statuses ev)⟩
      else .error .unwritable) ∧
      (Numeral.Printable ev.placeholder → Numeral.Printable (e.value ev)) ∧
      (∀ op a b, ev.apply op a b =
        if (op = .div ∨ op = .mod) ∧ b = 0 then ⟨ev.placeholder, .divisionByZero⟩
        else ⟨op.wide a b,
          if ev.range.Contains (op.wide a b) then .ok else .numericOverflow⟩) ∧
      ∀ ts us vs, e.postorder = ts ++ us ++ vs →
        ∃ s s', ev.run {} ts = .ok s ∧ ev.run s us = .ok s' ∧
          (s.status ≠ .ok → s'.status = s.status) := by
  refine ⟨?_, fun hplaceholder => printable_value hplaceholder h, ev.apply_eq,
    fun ts us vs hsplit => ?_⟩
  · rw [evaluate_postorder h, e.eval_eq ev]
  · obtain ⟨fault, -, hrun⟩ := run_postorder ev h
    have hwhole := hrun {}
    rw [hsplit] at hwhole
    obtain ⟨s', hparts, -⟩ := foldlM_append_eq_ok_iff.1 hwhole
    obtain ⟨s, hts, hus⟩ := foldlM_append_eq_ok_iff.1 hparts
    exact ⟨s, s', hts, hus, status_run hus⟩

/-- In `(7/0+200)*200` the division comes before the product, which is too large. -/
theorem evaluate_postorder_eq_first_division :
    let e : Expr := .node .mul (.node .add (.node .div (.leaf "7") (.leaf "0")) (.leaf "200"))
      (.leaf "200")
    let ev : Evaluator := ⟨IntType.int16.range, 0⟩
    e.Numeric ∧ e.statuses ev = [.divisionByZero, .ok, .numericOverflow] ∧
      ev.evaluate e.postorder = .ok ⟨40000, .divisionByZero⟩ := by
  intro e ev
  have hnumeric : e.Numeric := by decide +kernel
  have hvalue : e.value ev = 40000 := by decide +kernel
  have hstatuses : e.statuses ev = [.divisionByZero, .ok, .numericOverflow] := by decide +kernel
  obtain ⟨heval, hprintable, -, -⟩ := evaluate_postorder_eq_first ev hnumeric
  rw [if_pos (hprintable (by decide +kernel)), hvalue, hstatuses] at heval
  exact ⟨hnumeric, hstatuses, heval⟩

/-- The number one with zeros at its front. -/
def padded (zeros : Nat) : List Char :=
  List.replicate zeros '0' ++ ['1']

theorem natValue_padded (zeros : Nat) : Numeral.natValue (padded zeros) = 1 := by
  have hzeros : Numeral.natValue (List.replicate zeros '0') = 0 := by
    induction zeros with
    | zero => rfl
    | succ zeros ih =>
      rw [List.replicate_succ', Numeral.natValue_append_singleton, ih]
      rfl
  rw [padded, Numeral.natValue_append_singleton, hzeros]
  rfl

theorem evaluate_padded (ev : Evaluator) {zeros : Nat} (h : Numeral.maxDigits ≤ zeros) :
    ev.evaluate (Expr.postorder (.leaf (String.ofList (padded zeros)))) =
      .error (.tooManyDigits (zeros + 1)) := by
  have hne : padded zeros ≠ [] := by simp [padded]
  have hall : ∀ c ∈ padded zeros, c.isDigit = true := by
    simp only [padded, List.mem_append, List.mem_replicate, List.mem_singleton]
    rintro c (⟨-, rfl⟩ | rfl) <;> decide
  have hread : Numeral.read (String.ofList (padded zeros)) = .error (.tooLong (zeros + 1)) := by
    rw [Numeral.read_of_isDigit hne hall, Numeral.readUnsigned_of_isDigit hne hall]
    simp [padded, Nat.not_le.2 (Nat.lt_succ_of_le h), Except.map]
  simp [evaluate, run, Expr.postorder, Tree.postorder, step, Token.operand, hread,
    EvalError.ofNumeral, bind, Except.bind]

theorem evaluate_division {ev : Evaluator} (h : ¬Numeral.Printable ev.placeholder) :
    ev.evaluate (Expr.postorder (.node .div (.leaf "1") (.leaf "0"))) = .error .unwritable := by
  have hnumeric : Expr.Numeric (.node .div (.leaf "1") (.leaf "0")) := by decide +kernel
  have hzero : Expr.leafValue "0" = 0 := by decide +kernel
  have hvalue : Expr.eval ev (.node .div (.leaf "1") (.leaf "0")) =
      ⟨ev.placeholder, .divisionByZero⟩ := by
    simp [Expr.eval, hzero, apply_eq, EvalStatus.orElse]
  rw [evaluate_postorder hnumeric, hvalue, if_neg h]

/-- A remainder of operands outside the working range is not saturated. The number one with
4300 zeros at its front is not read, and a placeholder of 4301 digits is not written. -/
theorem evaluate_postorder_unsaturated_or_too_long :
    (workingRange.hi < 20000000000000000000 ∧
      (⟨IntType.int16.range, 0⟩ : Evaluator).evaluate (Expr.postorder (.node .mod
        (.leaf "20000000000000000000") (.leaf "30000000000000000000"))) =
          .ok ⟨20000000000000000000, .numericOverflow⟩) ∧
      (Numeral.natValue (padded 4300) = 1 ∧
        (⟨IntType.int16.range, 0⟩ : Evaluator).evaluate
          (Expr.postorder (.leaf (String.ofList (padded 4300)))) = .error (.tooManyDigits 4301)) ∧
      Expr.Numeric (.node .div (.leaf "1") (.leaf "0")) ∧
      (⟨IntType.int16.range, (10 ^ Numeral.maxDigits : Nat)⟩ : Evaluator).evaluate
        (Expr.postorder (.node .div (.leaf "1") (.leaf "0"))) = .error .unwritable :=
  ⟨⟨by decide, by decide +kernel⟩, ⟨natValue_padded 4300, evaluate_padded _ (Nat.le_refl 4300)⟩,
    by decide +kernel, evaluate_division Numeral.not_printable_pow⟩

end Evaluator

end IntCalc
