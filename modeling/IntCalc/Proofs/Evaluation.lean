import IntCalc.Fallible
import IntCalc.Proofs.Operations

/-!
# The stack machine evaluates trees

Reading the postorder of a tree pushes the value of the tree onto any stack and keeps
the first fault that was noted before (`Evaluator.run_postorder`). A fault is always noted :
as long as every operation is good, all values come from the operands and can be written
(`Expr.printable_of_status_eval`). Only the final value may be too long, and unless it is, the
result of a tree in reverse Polish form is the one of evaluating the tree itself
(`Evaluator.evaluate_postorder`).
-/

namespace IntCalc

variable {ev : Evaluator} {e l r : Expr} {op : Operator} {ts us : List Token}

/-! ## First faults -/

theorem EvalStatus.orElse_eq_ok_iff {first second : EvalStatus} :
    first.orElse second = .ok ↔ first = .ok ∧ second = .ok := by
  unfold orElse
  split <;> simp_all

/-- The first fault of an evaluation decides its status. -/
def Decides (fault : Option Fault) (status : EvalStatus) : Prop :=
  match fault with
  | none => status = .ok
  | some fault => fault.status = status ∧ status ≠ .ok

theorem Decides.or {fault fault' : Option Fault} {status status' : EvalStatus}
    (h : Decides fault status) (h' : Decides fault' status') :
    Decides (fault.or fault') (status.orElse status') := by
  cases fault with
  | none =>
    obtain rfl : status = .ok := h
    simpa [EvalStatus.orElse] using h'
  | some fault => simpa [EvalStatus.orElse, h.2] using h

theorem Decides.eq_ok_of_none {fault : Option Fault} {status : EvalStatus}
    (h : Decides fault status) (hnone : fault = none) : status = .ok := by
  rw [hnone] at h
  exact h

theorem Decides.status_eq {s : Values} {status : EvalStatus} (h : Decides s.fault status) :
    s.status = status := by
  unfold Values.status
  split
  · next hf =>
    rw [hf] at h
    exact Eq.symm h
  · next hf =>
    rw [hf] at h
    exact h.1

namespace Evaluator

/-- The fault of one operation. -/
def faultOf? (symbol : String) (a b : Int) (r : EvalResult) : Option Fault :=
  if r.ok then none else some ⟨r.status, a, symbol, b⟩

/-- A fault is noted if there is one already, or if its operands can be written. -/
theorem noteFault_eq_ok {fault : Option Fault} {symbol : String} {a b : Int} {r : EvalResult}
    (h : fault = none → Numeral.Printable a ∧ Numeral.Printable b) :
    noteFault fault symbol a b r = .ok (fault.or (faultOf? symbol a b r)) := by
  cases fault with
  | none =>
    rw [noteFault, faultOf?, if_pos (h rfl)]
    cases r.ok <;> rfl
  | some fault => rfl

theorem decides_faultOf? (symbol : String) (a b : Int) (r : EvalResult) :
    Decides (faultOf? symbol a b r) r.status := by
  by_cases h : r.status = .ok
  · simp [faultOf?, EvalResult.ok, h, Decides]
  · simp [faultOf?, EvalResult.ok, h, Decides]

/-! ## Runs -/

theorem run_append (s : Values) (ts us : List Token) :
    ev.run s (ts ++ us) = ev.run s ts >>= fun s' => ev.run s' us :=
  List.foldlM_append ..

theorem run_singleton (s : Values) (t : Token) : ev.run s [t] = ev.step s t := by
  simp [run]

/-- What reading a token does : an operand pushes a value, and an operator takes two values and
pushes the one it gives. -/
theorem step_cases {s s' : Values} {t : Token} (h : ev.step s t = .ok s') :
    (∃ n, t.kind = .operand ∧ Numeral.read t.text = .ok n ∧ s' = ⟨n :: s.stack, s.fault⟩) ∨
      ∃ op a b stack fault, t.kind = .operator ∧ s.stack = b :: a :: stack ∧
        noteFault s.fault t.text a b (ev.apply op a b) = .ok fault ∧
        s' = ⟨(ev.apply op a b).value :: stack, fault⟩ := by
  unfold step at h
  split at h
  · next hkind =>
    split at h
    · cases h
    · next n hn => exact Or.inl ⟨n, hkind, hn, (Except.ok.inj h).symm⟩
  · next hkind =>
    split at h
    · next b a stack hstack =>
      obtain ⟨r, hr, h⟩ := bind_eq_ok_iff.1 h
      obtain ⟨fault, hfault, h⟩ := bind_eq_ok_iff.1 h
      unfold execute at hr
      split at hr
      · cases hr
      · next op _ =>
        cases hr
        exact Or.inr ⟨op, a, b, stack, fault, hkind, hstack, hfault, (Except.ok.inj h).symm⟩
    · cases h
  · cases h

/-- What operands and operations give stays on the stack. -/
theorem forall_step {P : Int → Prop} {s s' : Values} {t : Token}
    (hop : ∀ op a b, P a → P (ev.apply op a b).value)
    (ht : t.kind = .operand → ∀ n ∈ Numeral.toInt? t.text, P n) (hs : ∀ v ∈ s.stack, P v)
    (h : ev.step s t = .ok s') : ∀ v ∈ s'.stack, P v := by
  rcases step_cases h with ⟨n, hkind, hn, rfl⟩ | ⟨op, a, b, stack, fault, -, hstack, -, rfl⟩
  · exact List.forall_mem_cons.2 ⟨ht hkind n (Numeral.toInt?_eq_some_iff.2 hn), hs⟩
  · rw [hstack] at hs
    obtain ⟨-, hs⟩ := List.forall_mem_cons.1 hs
    obtain ⟨ha, hs⟩ := List.forall_mem_cons.1 hs
    exact List.forall_mem_cons.2 ⟨hop op a b ha, hs⟩

theorem forall_run {P : Int → Prop} {s s' : Values}
    (hop : ∀ op a b, P a → P (ev.apply op a b).value)
    (hts : ∀ t ∈ ts, t.kind = .operand → ∀ n ∈ Numeral.toInt? t.text, P n)
    (hs : ∀ v ∈ s.stack, P v) (h : ev.run s ts = .ok s') : ∀ v ∈ s'.stack, P v := by
  induction ts generalizing s with
  | nil =>
    cases h
    exact hs
  | cons t ts ih =>
    obtain ⟨ht, hts⟩ := List.forall_mem_cons.1 hts
    obtain ⟨s₁, hstep, hrun⟩ := foldlM_cons_eq_ok_iff.1 h
    exact ih hts (forall_step hop ht hs hstep) hrun

theorem step_operand {s : Values} {text : String} {n : Int} (h : Numeral.toInt? text = some n) :
    ev.step s (.operand text) = .ok { s with stack := n :: s.stack } := by
  simp [step, Token.operand, Numeral.toInt?_eq_some_iff.1 h]

theorem step_operator {stack : List Int} {fault : Option Fault} {a b : Int}
    (h : fault = none → Numeral.Printable a ∧ Numeral.Printable b) :
    ev.step ⟨b :: a :: stack, fault⟩ (.ofOperator op) =
      .ok ⟨(ev.apply op a b).value :: stack,
        fault.or (faultOf? op.symbol a b (ev.apply op a b))⟩ := by
  simp [step, Token.ofOperator, execute, noteFault_eq_ok h, bind, Except.bind, pure, Except.pure]

end Evaluator

/-! ## Trees -/

theorem Expr.printable_leafValue {text : String} (h : (Numeral.toInt? text).isSome) :
    Numeral.Printable (leafValue text) := by
  obtain ⟨n, hn⟩ := Option.isSome_iff_exists.1 h
  rw [leafValue, hn]
  exact Numeral.printable_of_read (Numeral.toInt?_eq_some_iff.1 hn)

/-- A tree without a fault has a value that can be written. -/
theorem Expr.printable_of_status_eval (h : e.Numeric) (hstatus : (e.eval ev).status = .ok) :
    Numeral.Printable (e.eval ev).value := by
  induction e with
  | leaf text => exact printable_leafValue (h text (List.mem_singleton_self text))
  | node op l r ihl ihr =>
    obtain ⟨hl, hr⟩ := List.forall_mem_append.1 h
    obtain ⟨hleft, hop⟩ := EvalStatus.orElse_eq_ok_iff.1 hstatus
    refine Evaluator.printable_apply op (ihl hl (EvalStatus.orElse_eq_ok_iff.1 hleft).1) _ ?_
    intro hzero
    rw [hop] at hzero
    cases hzero

namespace Evaluator

/-- Reading the postorder of a tree pushes its value, and keeps the first fault. -/
theorem run_postorder (ev : Evaluator) (h : e.Numeric) :
    ∃ fault, Decides fault (e.eval ev).status ∧
      ∀ s : Values, ev.run s e.postorder =
        .ok ⟨(e.eval ev).value :: s.stack, s.fault.or fault⟩ := by
  induction e with
  | leaf text =>
    obtain ⟨n, hn⟩ := Option.isSome_iff_exists.1 (h text (by simp [Tree.leaves]))
    refine ⟨none, rfl, fun s => ?_⟩
    show ev.run s [.operand text] = _
    rw [run_singleton, step_operand hn]
    simp [Expr.eval, Expr.leafValue, hn]
  | node op l r ihl ihr =>
    obtain ⟨hleft, hright⟩ := List.forall_mem_append.1 h
    obtain ⟨fl, hfl, hl⟩ := ihl hleft
    obtain ⟨fr, hfr, hr⟩ := ihr hright
    have hop := decides_faultOf? op.symbol (Expr.eval ev l).value (Expr.eval ev r).value
      (ev.apply op (Expr.eval ev l).value (Expr.eval ev r).value)
    refine ⟨_, (hfl.or hfr).or hop, fun s => ?_⟩
    show ev.run s (Expr.postorder l ++ Expr.postorder r ++ [.ofOperator op]) = _
    -- The machine reads the left subtree, the right subtree and then the operator.
    rw [run_append, run_append, hl]
    show (ev.run _ (Expr.postorder r) >>= _) = _
    rw [hr]
    show ev.run _ [.ofOperator op] = _
    rw [run_singleton, step_operator]
    · simp [Expr.eval, Option.or_assoc]
    · -- Without a fault in front of the operator there is none in either subtree.
      intro hnone
      obtain ⟨hnone, hnoner⟩ := Option.or_eq_none_iff.1 hnone
      have hnonel := (Option.or_eq_none_iff.1 hnone).2
      exact ⟨Expr.printable_of_status_eval hleft (hfl.eq_ok_of_none hnonel),
        Expr.printable_of_status_eval hright (hfr.eq_ok_of_none hnoner)⟩

/-- The result of a tree in reverse Polish form, which is none if its value is too long to be
written. -/
theorem evaluate_postorder (h : e.Numeric) :
    ev.evaluate e.postorder =
      if Numeral.Printable (e.eval ev).value then .ok (e.eval ev) else .error .unwritable := by
  obtain ⟨fault, hfault, hrun⟩ := run_postorder ev h
  have hstatus := Decides.status_eq (s := ⟨[(e.eval ev).value], fault⟩) hfault
  have hconclude : conclude ⟨[(e.eval ev).value], fault⟩ =
      if Numeral.Printable (e.eval ev).value then .ok (e.eval ev) else .error .unwritable := by
    simp only [conclude, hstatus]
  rw [evaluate, hrun]
  exact hconclude

end Evaluator

end IntCalc
