import IntCalc.Grammar.Precedence
import IntCalc.Grammar.Tokens
import IntCalc.Proofs.Postorder
import IntCalc.Rpn.Conversion

/-!
# Conversion by precedence

Every expression has a syntax tree in the grammar with precedence (`exists_parses`), and
reading a phrase with a tree leaves the tree's postorder behind : in part as output, in
part as operators that are still pending, none of which binds more loosely than the
phrase (`converts_of_parses`). What is pending around the phrase plays no part as long as
it waits for the phrase (`Conversion.Waits`).

The reverse Polish form of an expression is thus the postorder of its tree, and since a
postorder determines its tree there is only one (`toRpn_eq_postorder`).
-/

namespace IntCalc

open Grammar Conversion

variable {p : String → Prop} {phrase : Phrase} {level : Level} {ts us : List Token} {e l r : Expr}
  {op : Operator}

/-! ## Precedence of operators -/

namespace Operator

theorem precedence_le (op : Operator) : op.precedence ≤ 3 := by
  cases op <;> decide

theorem eq_pow_of_le (h : 3 ≤ op.precedence) : op = .pow := by
  cases op <;> simp_all [precedence]

theorem eq_of_precedence_eq_two (h : op.precedence = 2) : op = .mul ∨ op = .div ∨ op = .mod := by
  cases op <;> simp_all [precedence]

theorem eq_of_precedence_lt_two (h : op.precedence < 2) : op = .add ∨ op = .sub := by
  cases op <;> simp_all [precedence]

end Operator

theorem Token.precedence_le (t : Token) : t.precedence ≤ 3 := by
  unfold precedence
  split
  · exact Operator.precedence_le _
  · exact Nat.zero_le _

/-! ## Every expression has a tree -/

namespace Grammar

/-- The precedence that the operators of a level have at least. -/
def Level.precedence : Level → Nat
  | .sum => 1
  | .product => 2
  | .power => 3
  | .atom => 4

/-- A product goes on with an atom behind an operator of its level. -/
theorem Parses.append_product (h : Parses .product ts e) (hr : Parses .atom us r)
    (hop : op.precedence = 2) : ∃ e', Parses .product (ts ++ .ofOperator op :: us) e' :=
  ⟨_, .product op (Operator.eq_of_precedence_eq_two hop) h (.ofAtom hr)⟩

/-- So does a sum. -/
theorem Parses.append_sum (h : Parses .sum ts e) (hr : Parses .atom us r)
    (hop : op.precedence < 2) : ∃ e', Parses .sum (ts ++ .ofOperator op :: us) e' :=
  ⟨_, .sum op (Operator.eq_of_precedence_lt_two hop) h (.ofPower (.ofAtom hr))⟩

/-- A phrase goes on with an atom behind any operator of its level or a tighter one. -/
theorem Parses.append_atom (h : Parses level ts e) (hop : level.precedence ≤ op.precedence)
    (hr : Parses .atom us r) : ∃ e', Parses level (ts ++ .ofOperator op :: us) e' := by
  have hle := op.precedence_le
  induction h with
  | operand | scope =>
    simp only [Level.precedence] at hop
    omega
  | ofAtom h _ =>
    obtain rfl := Operator.eq_pow_of_le hop
    exact ⟨_, .power h (.ofAtom hr)⟩
  | ofPower h ih =>
    by_cases hpow : 3 ≤ op.precedence
    · obtain ⟨e', he'⟩ := ih hpow
      exact ⟨e', .ofPower he'⟩
    · simp only [Level.precedence] at hop
      exact (Parses.ofPower h).append_product hr (by omega)
  | ofProduct h ih =>
    by_cases hproduct : 2 ≤ op.precedence
    · obtain ⟨e', he'⟩ := ih hproduct
      exact ⟨e', .ofProduct he'⟩
    · exact (Parses.ofProduct h).append_sum hr (by omega)
  | power hl _ _ ihr =>
    obtain ⟨e', he'⟩ := ihr hop
    exact ⟨_, by simpa using Parses.power hl he'⟩
  | product op' hop' hl hr' _ ihr =>
    by_cases hpow : 3 ≤ op.precedence
    · obtain ⟨e', he'⟩ := ihr hpow
      exact ⟨_, by simpa using Parses.product op' hop' hl he'⟩
    · simp only [Level.precedence] at hop
      exact (Parses.product op' hop' hl hr').append_product hr (by omega)
  | sum op' hop' hl hr' _ ihr =>
    -- A tighter operator goes on with the right operand, not with the whole sum.
    by_cases hproduct : 2 ≤ op.precedence
    · obtain ⟨e', he'⟩ := ihr hproduct
      exact ⟨_, by simpa using Parses.sum op' hop' hl he'⟩
    · exact (Parses.sum op' hop' hl hr').append_sum hr (by omega)

/-- The level of a phrase that is read without precedence. -/
def Phrase.toLevel : Phrase → Level
  | .expression => .sum
  | .term => .atom

/-- Every phrase has a tree. -/
theorem exists_parses (h : Derives p phrase ts) : ∃ e, Parses phrase.toLevel ts e := by
  induction h with
  | @operand text _ => exact ⟨_, .operand text⟩
  | scope _ ih =>
    obtain ⟨e, he⟩ := ih
    exact ⟨e, .scope he⟩
  | term _ ih =>
    obtain ⟨e, he⟩ := ih
    exact ⟨e, .ofProduct (.ofPower (.ofAtom he))⟩
  | chain op _ _ ihl ihr =>
    obtain ⟨l, hl⟩ := ihl
    obtain ⟨r, hr⟩ := ihr
    exact hl.append_atom (by cases op <;> decide) hr

end Grammar

/-! ## Pending operators -/

namespace Conversion

/-- What is pending waits for a phrase of the level : none of the operators of the
phrase sends it to the output. -/
def Waits (level : Level) (pending : List Token) : Prop :=
  ∀ top ∈ pending.head?, ∀ op : Operator, level.precedence ≤ op.precedence →
    yieldsTo (.ofOperator op) top = false

/-- Reading `ts` leaves the postorder of `e` behind, as output and as operators that are
pending on top of what waited for it. -/
def Converts (level : Level) (ts : List Token) (e : Expr) : Prop :=
  ∀ output pending, Waits level pending →
    ∃ output' new, run ⟨output, pending⟩ ts = .ok ⟨output', new ++ pending⟩ ∧
      output'.reverse ++ new = output.reverse ++ e.postorder ∧
      ∀ t ∈ new, t.isOperator = true ∧ level.precedence ≤ t.precedence

theorem run_append (s : State) (ts us : List Token) :
    run s (ts ++ us) = run s ts >>= fun s' => run s' us :=
  List.foldlM_append ..

theorem run_cons (s : State) (t : Token) (ts : List Token) :
    run s (t :: ts) = step s t >>= fun s' => run s' ts :=
  List.foldlM_cons ..

/-- Exactly the tokens on top that satisfy `f` are sent to the output. -/
theorem flushWhile_append {f : Token → Bool} {output new pending : List Token}
    (hnew : ∀ t ∈ new, f t = true) (hpending : ∀ t ∈ pending.head?, f t = false) :
    State.flushWhile f ⟨output, new ++ pending⟩ = ⟨new.reverse ++ output, pending⟩ := by
  have htake : pending.takeWhile f = [] ∧ pending.dropWhile f = pending := by
    cases pending with
    | nil => exact ⟨rfl, rfl⟩
    | cons t pending => simp [hpending t rfl]
  simp [State.flushWhile, List.takeWhile_append_of_pos hnew, List.dropWhile_append_of_pos hnew,
    htake]

/-- A left-associative operator sends everything to the output that binds as tightly. -/
theorem yieldsTo_of_le {t : Token} (hop : op.rightAssoc = false) (ht : t.isOperator = true)
    (h : op.precedence ≤ t.precedence) : yieldsTo (.ofOperator op) t = true := by
  simp [yieldsTo, Token.bindsBefore, hop, ht, h]

theorem waits_nil : Waits level [] := by
  simp [Waits]

theorem waits_opening {pending : List Token} : Waits level (.opening :: pending) := by
  simp [Waits, yieldsTo, Token.isOperator, Token.opening]

/-- An operator waits for a phrase whose operators bind more tightly. -/
theorem waits_operator {pending : List Token} (h : op.precedence < level.precedence) :
    Waits level (.ofOperator op :: pending) := by
  intro top htop op' hop'
  obtain rfl : Token.ofOperator op = top := by simpa using htop
  have hlt : ¬op'.precedence ≤ op.precedence := by omega
  simp [yieldsTo, Token.bindsBefore, hlt]

/-- A power waits for the power that is its exponent. -/
theorem waits_power {pending : List Token} : Waits .power (.ofOperator .pow :: pending) := by
  intro top htop op hop
  obtain rfl : Token.ofOperator .pow = top := by simpa using htop
  obtain rfl := Operator.eq_pow_of_le hop
  simp [yieldsTo, Token.bindsBefore, Operator.rightAssoc]

/-- What waits for a phrase waits for one that binds more tightly. -/
theorem Waits.mono {level' : Level} {pending : List Token} (h : Waits level pending)
    (hle : level.precedence ≤ level'.precedence) : Waits level' pending :=
  fun top htop op hop => h top htop op (Nat.le_trans hle hop)

/-- An operator that all of `new` and nothing below yields to takes its place. -/
theorem run_operator {output new pending : List Token}
    (hnew : ∀ t ∈ new, yieldsTo (.ofOperator op) t = true)
    (hpending : ∀ t ∈ pending.head?, yieldsTo (.ofOperator op) t = false) :
    run ⟨output, new ++ pending⟩ (.ofOperator op :: ts) =
      run ⟨new.reverse ++ output, .ofOperator op :: pending⟩ ts := by
  have hstep : step ⟨output, new ++ pending⟩ (.ofOperator op) =
      .ok ⟨new.reverse ++ output, .ofOperator op :: pending⟩ := by
    show Except.ok (pushOperator _ _) = _
    rw [pushOperator, flushWhile_append hnew hpending]
  rw [run_cons, hstep]
  rfl

/-! ## Phrases -/

theorem Converts.mono {level' : Level} (h : Converts level' ts e)
    (hle : level.precedence ≤ level'.precedence) : Converts level ts e := by
  intro output pending hwaits
  obtain ⟨output', new, hrun, hout, hnew⟩ := h output pending (hwaits.mono hle)
  exact ⟨output', new, hrun, hout, fun t ht => ⟨(hnew t ht).1, Nat.le_trans hle (hnew t ht).2⟩⟩

/-- An operand goes to the output. -/
theorem converts_operand (text : String) : Converts .atom [.operand text] (.leaf text) := by
  intro output pending _
  exact ⟨.operand text :: output, [], rfl, by simp [Expr.postorder, Tree.postorder], by simp⟩

/-- Brackets leave nothing pending. -/
theorem Converts.scope (h : Converts .sum ts e) :
    Converts .atom (.opening :: ts ++ [.closing]) e := by
  intro output pending _
  obtain ⟨output', new, hrun, hout, hnew⟩ := h output (.opening :: pending) waits_opening
  have hopen : step ⟨output, pending⟩ .opening = .ok ⟨output, .opening :: pending⟩ := rfl
  have hclose : step ⟨output', new ++ .opening :: pending⟩ .closing =
      .ok ⟨new.reverse ++ output', pending⟩ := by
    have hflush : ∀ t ∈ new, (!t.isOpening) = true := by
      intro t ht
      have hkind := (hnew t ht).1
      simp_all [Token.isOperator, Token.isOpening]
    show closeScope _ = _
    rw [closeScope, flushWhile_append hflush (by simp [Token.isOpening, Token.opening])]
  refine ⟨new.reverse ++ output', [], ?_, by simpa using hout, by simp⟩
  rw [List.cons_append, run_cons, hopen]
  show run _ _ = _
  rw [run_append, hrun]
  show run _ _ = _
  rw [run_cons, hclose]
  rfl

/-- An operator sends what its left operand left pending to the output and stays pending
below what its right operand leaves. -/
theorem Converts.node {left right : Level} (hl : Converts left ts l) (hr : Converts right us r)
    (hleft : level.precedence ≤ left.precedence) (hright : level.precedence ≤ right.precedence)
    (hop : level.precedence ≤ op.precedence)
    (hyields : ∀ t : Token, t.isOperator = true → left.precedence ≤ t.precedence →
      yieldsTo (.ofOperator op) t = true)
    (hwaits : ∀ pending, Waits right (.ofOperator op :: pending)) :
    Converts level (ts ++ .ofOperator op :: us) (.node op l r) := by
  intro output pending hpending
  obtain ⟨output', new, hrun, hout, hnew⟩ := hl output pending (hpending.mono hleft)
  obtain ⟨output'', new', hrun', hout', hnew'⟩ := hr (new.reverse ++ output') _ (hwaits pending)
  have hnode : run ⟨output, pending⟩ (ts ++ .ofOperator op :: us) =
      .ok ⟨output'', new' ++ .ofOperator op :: pending⟩ := by
    rw [run_append, hrun]
    show run _ _ = _
    rw [run_operator (fun t ht => hyields t (hnew t ht).1 (hnew t ht).2)
      (fun t ht => hpending t ht op hop), hrun']
  refine ⟨output'', new' ++ [.ofOperator op], by simpa using hnode, ?_, fun t ht => ?_⟩
  · calc output''.reverse ++ (new' ++ [.ofOperator op])
      _ = (output''.reverse ++ new') ++ [.ofOperator op] := by simp
      _ = (output'.reverse ++ new) ++ r.postorder ++ [.ofOperator op] := by simp [hout']
      _ = output.reverse ++ (l.postorder ++ r.postorder ++ [.ofOperator op]) := by simp [hout]
  · rcases List.mem_append.1 ht with ht | ht
    · exact ⟨(hnew' t ht).1, Nat.le_trans hright (hnew' t ht).2⟩
    · rw [List.mem_singleton.1 ht, Token.precedence_ofOperator]
      exact ⟨rfl, hop⟩

/-- Operators that group from the left. -/
theorem Converts.left {right : Level} (hl : Converts level ts l) (hr : Converts right us r)
    (hassoc : op.rightAssoc = false) (hop : op.precedence = level.precedence)
    (hright : op.precedence < right.precedence) :
    Converts level (ts ++ .ofOperator op :: us) (.node op l r) :=
  hl.node hr (Nat.le_refl _) (by omega) (by omega)
    (fun _ ht hle => yieldsTo_of_le hassoc ht (hop ▸ hle)) fun _ => waits_operator hright

/-- Powers, whose base leaves nothing pending. -/
theorem Converts.power (hl : Converts .atom ts l) (hr : Converts .power us r) :
    Converts .power (ts ++ .ofOperator .pow :: us) (.node .pow l r) := by
  refine hl.node hr (by decide) (by decide) (by decide) (fun t _ hle => ?_) fun _ => waits_power
  have hlt := t.precedence_le
  simp only [Level.precedence] at hle
  omega

/-- Reading a phrase leaves the postorder of its tree behind. -/
theorem converts_of_parses (h : Parses level ts e) : Converts level ts e := by
  induction h with
  | operand text => exact converts_operand text
  | scope _ ih => exact ih.scope
  | ofAtom _ ih | ofPower _ ih | ofProduct _ ih => exact ih.mono (by decide)
  | power _ _ ihl ihr => exact ihl.power ihr
  | product op hop _ _ ihl ihr =>
    rcases hop with rfl | rfl | rfl <;> exact ihl.left ihr rfl rfl (by decide)
  | sum op hop _ _ ihl ihr =>
    rcases hop with rfl | rfl <;> exact ihl.left ihr rfl rfl (by decide)

end Conversion

/-! ## Whole expressions -/

/-- The reverse Polish form of an expression is the postorder of its tree. -/
theorem toRpn_of_hasTree (h : HasTree ts e) : toRpn ts = .ok e.postorder := by
  obtain ⟨output, new, hrun, hout, -⟩ := converts_of_parses h [] [] waits_nil
  rw [List.append_nil] at hrun
  rw [toRpn, hrun]
  simpa [Except.map, State.finish] using hout

/-- An expression has one tree at most. -/
theorem hasTree_unique {e' : Expr} (h : HasTree ts e) (h' : HasTree ts e') : e' = e := by
  have heq := (toRpn_of_hasTree h').symm.trans (toRpn_of_hasTree h)
  exact Expr.postorder_injective (Except.ok.inj heq)

/-- Every expression has exactly one tree, and its reverse Polish form is the postorder of
that tree, in which no brackets are left. -/
theorem toRpn_eq_postorder (h : IsExpression p ts) :
    ∃ e, HasTree ts e ∧ (∀ e', HasTree ts e' → e' = e) ∧ toRpn ts = .ok e.postorder ∧
      ∀ t ∈ e.postorder, t.isOpening = false ∧ t.isClosing = false := by
  obtain ⟨e, he⟩ := exists_parses h
  refine ⟨e, he, fun e' he' => hasTree_unique he he', toRpn_of_hasTree he, fun t ht => ?_⟩
  rcases Expr.kind_of_mem_postorder ht with hkind | hkind <;>
    simp [Token.isOpening, Token.isClosing, hkind]

/-- `2^(3-1)^2` has one tree. -/
theorem toRpn_eq_postorder_brackets :
    IsExpression (fun _ => True) [.operand "2", .ofOperator .pow, .opening, .operand "3",
        .ofOperator .sub, .operand "1", .closing, .ofOperator .pow, .operand "2"] ∧
      ∃ e, HasTree [.operand "2", .ofOperator .pow, .opening, .operand "3",
          .ofOperator .sub, .operand "1", .closing, .ofOperator .pow, .operand "2"] e ∧
        (∀ e', HasTree [.operand "2", .ofOperator .pow, .opening, .operand "3",
          .ofOperator .sub, .operand "1", .closing, .ofOperator .pow, .operand "2"] e' → e' = e) ∧
        toRpn [.operand "2", .ofOperator .pow, .opening, .operand "3",
          .ofOperator .sub, .operand "1", .closing, .ofOperator .pow, .operand "2"] =
            .ok e.postorder ∧
        ∀ t ∈ e.postorder, t.isOpening = false ∧ t.isClosing = false := by
  have operand : ∀ text, Derives (fun _ => True) .term [.operand text] := fun _ => .operand trivial
  have difference : Derives (fun _ => True) .expression
      [.operand "3", .ofOperator .sub, .operand "1"] :=
    .chain .sub (.term (operand "3")) (operand "1")
  have h : IsExpression (fun _ => True) [.operand "2", .ofOperator .pow, .opening, .operand "3",
      .ofOperator .sub, .operand "1", .closing, .ofOperator .pow, .operand "2"] :=
    .chain .pow (.chain .pow (.term (operand "2")) (.scope difference)) (operand "2")
  exact ⟨h, toRpn_eq_postorder h⟩

end IntCalc
