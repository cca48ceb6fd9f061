import IntCalc.Fallible
import IntCalc.Proofs.Levels
import IntCalc.Rpn.Conversion
import Mathlib.Data.List.TakeWhile

/-!
# Conversion rearranges the tokens

Any list of tokens is converted, unless it has a token that is refused behind those in
front of it : one whose kind is unknown, or a closing bracket without an opening one
(`Tokens.refusal?`). What a token does to the output and to the pending tokens is said by
one lemma (`Conversion.step_cases`). From it follows that nothing is lost on the way
(`Conversion.State.Holds`) : brackets that match disappear and every other token is either
output or pending.

The first token that is refused is therefore the error of a list, and a list without one
has a reverse Polish form with the same operands in the same order, the same operators and
the brackets that were never closed (`toRpn_rearranges`).
-/

namespace IntCalc

namespace Tokens

variable {ts : List Token} {t : Token} {err : ConversionError}

/-! ## Refused tokens -/

/-- The number of tokens of a kind. -/
def countKind (kind : Kind) (tokens : List Token) : Nat :=
  tokens.countP (·.kind = kind)

/-- Why a token is refused behind the tokens `before` : its kind is unknown, or with it
there are more closing brackets than opening ones. -/
def refusal? (before : List Token) (t : Token) : Option ConversionError :=
  match t.kind with
  | .other name => some (.unknownKind name)
  | .closing =>
    if countKind .opening (before ++ [t]) < countKind .closing (before ++ [t]) then
      some .unmatchedClosing
    else none
  | _ => none

/-- No token is refused behind those in front of it. -/
def Convertible (tokens : List Token) : Prop :=
  ∀ before t, before ++ [t] <+: tokens → refusal? before t = none

theorem countKind_concat_self {kind : Kind} (ts : List Token) (h : t.kind = kind) :
    countKind kind (ts ++ [t]) = countKind kind ts + 1 := by
  simp [countKind, h]

theorem countKind_concat_of_ne {kind : Kind} (ts : List Token) (h : t.kind ≠ kind) :
    countKind kind (ts ++ [t]) = countKind kind ts := by
  simp [countKind, h]

theorem convertible_nil : Convertible [] := by
  intro before t hprefix
  simp at hprefix

theorem convertible_concat_iff :
    Convertible (ts ++ [t]) ↔ Convertible ts ∧ refusal? ts t = none := by
  simp only [Convertible, List.prefix_concat_iff]
  constructor
  · exact fun h => ⟨fun before u hu => h before u (Or.inr hu), h ts t (Or.inl rfl)⟩
  · rintro ⟨h, hlast⟩ before u (heq | hprefix)
    · obtain ⟨rfl, hu⟩ := List.append_inj' heq rfl
      rwa [List.singleton_inj.1 hu]
    · exact h before u hprefix

/-- A list that is not convertible has a first token that is refused. -/
theorem exists_refusal (h : ¬Convertible ts) :
    ∃ before t after err, ts = before ++ t :: after ∧ Convertible before ∧
      refusal? before t = some err := by
  induction ts using List.reverseRecOn with
  | nil => exact absurd convertible_nil h
  | append_singleton ts t ih =>
    by_cases hts : Convertible ts
    · rw [convertible_concat_iff, not_and] at h
      obtain ⟨err, herr⟩ := Option.ne_none_iff_exists'.1 (h hts)
      exact ⟨ts, t, [], err, rfl, hts, herr⟩
    · obtain ⟨before, u, after, err, rfl, hbefore, herr⟩ := ih hts
      exact ⟨before, u, after ++ [t], err, by simp, hbefore, herr⟩

theorem refusal?_of_closing (ht : t.kind = .closing) :
    refusal? ts t =
      if countKind .opening ts ≤ countKind .closing ts then some .unmatchedClosing else none := by
  simp only [refusal?, ht, countKind_concat_self ts ht,
    countKind_concat_of_ne ts (show t.kind ≠ .opening by simp [ht]), Nat.lt_succ_iff]

/-- As long as no token is refused, as many brackets are not closed as there are more
opening than closing ones. -/
theorem Convertible.length_unclosed (h : Convertible ts) :
    (unclosed ts).length + countKind .closing ts = countKind .opening ts := by
  induction ts using List.reverseRecOn with
  | nil => rfl
  | append_singleton ts t ih =>
    obtain ⟨hts, ht⟩ := convertible_concat_iff.1 h
    have hlength := ih hts
    rw [unclosed_concat]
    cases hkind : t.kind with
    | closing =>
      rw [refusal?_of_closing hkind] at ht
      have hlt : ¬countKind .opening ts ≤ countKind .closing ts := fun hle => by simp [hle] at ht
      rw [countKind_concat_self ts hkind, countKind_concat_of_ne ts (by simp [hkind])]
      simp only [unclosedStep, hkind, List.length_tail]
      omega
    | opening =>
      rw [countKind_concat_of_ne ts (by simp [hkind]), countKind_concat_self ts hkind]
      simp only [unclosedStep, hkind, List.length_cons]
      omega
    | operand | operator | other =>
      rw [countKind_concat_of_ne ts (by simp [hkind]), countKind_concat_of_ne ts (by simp [hkind])]
      simpa only [unclosedStep, hkind] using hlength

/-- A closing bracket is refused exactly if no bracket is open. -/
theorem Convertible.refusal?_closing (h : Convertible ts) (ht : t.kind = .closing) :
    refusal? ts t = if unclosed ts = [] then some .unmatchedClosing else none := by
  have hlength := h.length_unclosed
  have hiff : countKind .opening ts ≤ countKind .closing ts ↔ unclosed ts = [] := by
    rw [← List.length_eq_zero_iff]
    omega
  simp only [refusal?_of_closing ht, hiff]

end Tokens

namespace Conversion

open Tokens

variable {ts flushed rest : List Token} {t u : Token} {s s' : State} {err : ConversionError}

/-! ## One token -/

/-- Pending tokens are sent to the output from the top, as long as `p` holds. -/
theorem exists_flushWhile (p : Token → Bool) (s : State) :
    ∃ flushed rest, s.pending = flushed ++ rest ∧ (∀ u ∈ flushed, p u = true) ∧
      (∀ u ∈ rest.head?, p u = false) ∧ s.flushWhile p = ⟨flushed.reverse ++ s.output, rest⟩ := by
  refine ⟨s.pending.takeWhile p, s.pending.dropWhile p, (List.takeWhile_append_dropWhile).symm,
    fun u hu => List.mem_takeWhile_imp hu, fun u hu => ?_, rfl⟩
  have hhead := List.head?_dropWhile_not p s.pending
  rw [hu] at hhead
  simpa using hhead

theorem kind_of_yieldsTo (h : yieldsTo t u = true) : u.kind = .operator := by
  simp only [yieldsTo, Token.isOperator, Bool.and_eq_true, decide_eq_true_eq] at h
  exact h.1

/-- What a token does. An operand is output. An opening bracket is pending. An operator takes
the place of the pending operators that yield to it, and these are output. A closing bracket
sends everything to the output down to an opening one, which disappears with it. -/
theorem step_cases (h : step s t = .ok s') :
    (t.kind = .operand ∧ s' = ⟨t :: s.output, s.pending⟩) ∨
      (t.kind = .opening ∧ s' = ⟨s.output, t :: s.pending⟩) ∨
      (t.kind = .operator ∧ ∃ flushed rest, s.pending = flushed ++ rest ∧
        (∀ u ∈ flushed, yieldsTo t u = true) ∧ (∀ u ∈ rest.head?, yieldsTo t u = false) ∧
        s' = ⟨flushed.reverse ++ s.output, t :: rest⟩) ∨
      (t.kind = .closing ∧ ∃ flushed o rest, s.pending = flushed ++ o :: rest ∧
        (∀ u ∈ flushed, u.isOpening = false) ∧ o.isOpening = true ∧
        s' = ⟨flushed.reverse ++ s.output, rest⟩) := by
  unfold step at h
  cases hkind : t.kind with
  | operand => simp_all
  | opening => simp_all
  | operator =>
    obtain ⟨flushed, rest, hpending, hflushed, hrest, hflush⟩ := exists_flushWhile (yieldsTo t) s
    simp only [hkind, pushOperator, hflush, Except.ok.injEq] at h
    exact Or.inr (Or.inr (Or.inl ⟨rfl, flushed, rest, hpending, hflushed, hrest, h.symm⟩))
  | closing =>
    obtain ⟨flushed, rest, hpending, hflushed, hrest, hflush⟩ :=
      exists_flushWhile (!·.isOpening) s
    simp only [hkind, closeScope, hflush] at h
    cases rest with
    | nil => cases h
    | cons o rest =>
      refine Or.inr (Or.inr (Or.inr ⟨rfl, flushed, o, rest, hpending, fun u hu => ?_, ?_, ?_⟩))
      · simpa using hflushed u hu
      · simpa using hrest o rfl
      · exact (Except.ok.inj h).symm
  | other => simp [hkind] at h

/-! ## Nothing is lost -/

/-- Behind the tokens `ts`, operands and operators are output, and the operators that are
not yet output are pending with the brackets that are not closed. The operands are in their
order. Only brackets that match are gone. -/
structure State.Holds (s : State) (ts : List Token) : Prop where
  output_kind : ∀ u ∈ s.output, u.kind = .operand ∨ u.kind = .operator
  pending_kind : ∀ u ∈ s.pending, u.kind = .operator ∨ u.kind = .opening
  operands : s.output.reverse.filter (·.isOperand) = ts.filter (·.isOperand)
  operators : ∀ u, u.isOperator → s.output.count u + s.pending.count u = ts.count u
  brackets : s.pending.filter (·.isOpening) = unclosed ts
  length : s.output.length + s.pending.length + 2 * countKind .closing ts = ts.length

theorem holds_nil : State.Holds {} [] := by
  constructor <;> simp [unclosed, countKind]

namespace State.Holds

/-- Pending operators may be output at any time. -/
theorem flush (h : s.Holds ts) (hpending : s.pending = flushed ++ rest)
    (hflushed : ∀ u ∈ flushed, u.kind = .operator) :
    State.Holds ⟨flushed.reverse ++ s.output, rest⟩ ts := by
  obtain ⟨houtput, hkinds, hoperands, hoperators, hbrackets, hlength⟩ := h
  rw [hpending] at hkinds hoperators hbrackets hlength
  have hnone : ∀ p : Token → Bool, (∀ u : Token, u.kind = .operator → p u = false) →
      flushed.filter p = [] := fun p hp =>
    List.filter_eq_nil_iff.2 fun u hu => by simp [hp u (hflushed u hu)]
  refine ⟨fun u hu => ?_, fun u hu => hkinds u (List.mem_append_right _ hu), ?_, fun u hu => ?_,
    ?_, ?_⟩
  · rcases List.mem_append.1 hu with hu | hu
    · exact Or.inr (hflushed u (List.mem_reverse.1 hu))
    · exact houtput u hu
  · rw [List.reverse_append, List.reverse_reverse, List.filter_append, hoperands,
      hnone _ fun u hu => by simp [Token.isOperand, hu], List.append_nil]
  · have hcount := hoperators u hu
    simp only [List.count_append, List.count_reverse] at hcount ⊢
    omega
  · rwa [List.filter_append, hnone _ fun u hu => by simp [Token.isOpening, hu],
      List.nil_append] at hbrackets
  · simp only [List.length_append, List.length_reverse] at hlength ⊢
    omega

theorem operand (h : s.Holds ts) (ht : t.kind = .operand) :
    State.Holds ⟨t :: s.output, s.pending⟩ (ts ++ [t]) := by
  refine ⟨List.forall_mem_cons.2 ⟨Or.inl ht, h.output_kind⟩, h.pending_kind, ?_, fun u hu => ?_,
    ?_, ?_⟩
  · rw [List.reverse_cons, List.filter_append, List.filter_append, h.operands]
  · have hcount := h.operators u hu
    simp only [List.count_append, List.count_cons, List.count_nil]
    omega
  · rw [unclosed_concat, unclosedStep, ht]
    exact h.brackets
  · rw [countKind_concat_of_ne ts (by simp [ht]), List.length_append, ← h.length]
    simp only [List.length_cons, List.length_nil]
    omega

/-- An operator or an opening bracket may be put on top of what is pending. -/
theorem pend (h : s.Holds ts) (ht : t.kind = .operator ∨ t.kind = .opening) :
    State.Holds ⟨s.output, t :: s.pending⟩ (ts ++ [t]) := by
  have hoperand : [t].filter (·.isOperand) = [] := by
    rcases ht with ht | ht <;> simp [Token.isOperand, ht]
  have hclosing : t.kind ≠ .closing := by rcases ht with ht | ht <;> simp [ht]
  refine ⟨h.output_kind, List.forall_mem_cons.2 ⟨ht, h.pending_kind⟩, ?_, fun u hu => ?_, ?_, ?_⟩
  · rw [List.filter_append, hoperand, List.append_nil, h.operands]
  · have hcount := h.operators u hu
    simp only [List.count_append, List.count_cons, List.count_nil]
    omega
  · rw [List.filter_cons, unclosed_concat, unclosedStep, h.brackets]
    rcases ht with ht | ht <;> simp [Token.isOpening, ht]
  · rw [countKind_concat_of_ne ts hclosing, List.length_append, ← h.length]
    simp only [List.length_cons, List.length_nil]
    omega

/-- A closing bracket is dropped together with the opening one on top of what is pending. -/
theorem close {o : Token} (h : s.Holds ts) (hpending : s.pending = o :: rest)
    (ho : o.isOpening = true) (ht : t.kind = .closing) :
    State.Holds ⟨s.output, rest⟩ (ts ++ [t]) := by
  obtain ⟨houtput, hkinds, hoperands, hoperators, hbrackets, hlength⟩ := h
  rw [hpending] at hkinds hoperators hbrackets hlength
  refine ⟨houtput, (List.forall_mem_cons.1 hkinds).2, ?_, fun u hu => ?_, ?_, ?_⟩
  · rw [List.filter_append, hoperands]
    simp [Token.isOperand, ht]
  · have hto : o ≠ u := by
      rintro rfl
      simp_all [Token.isOperator, Token.isOpening]
    have htu : t ≠ u := by
      rintro rfl
      simp [Token.isOperator, ht] at hu
    rw [List.count_append, ← hoperators u hu, List.count_cons_of_ne hto,
      List.count_singleton, if_neg (by simpa using htu), Nat.add_zero]
  · rw [unclosed_concat, unclosedStep, ht, ← hbrackets, List.filter_cons_of_pos ho, List.tail_cons]
  · rw [countKind_concat_self ts ht, List.length_append, ← hlength]
    simp only [List.length_cons, List.length_nil]
    omega

/-- Every token that is read keeps what is said of the state. -/
theorem step (h : s.Holds ts) (hstep : step s t = .ok s') : s'.Holds (ts ++ [t]) := by
  rcases step_cases hstep with ⟨ht, rfl⟩ | ⟨ht, rfl⟩ |
    ⟨ht, flushed, rest, hpending, hflushed, -, rfl⟩ |
    ⟨ht, flushed, o, rest, hpending, hflushed, ho, rfl⟩
  · exact h.operand ht
  · exact h.pend (Or.inr ht)
  · have hkinds : ∀ u ∈ flushed, u.kind = .operator :=
      fun u hu => kind_of_yieldsTo (hflushed u hu)
    exact (h.flush hpending hkinds).pend (Or.inl ht)
  · -- What is pending and no opening bracket is an operator.
    have hkinds : ∀ u ∈ flushed, u.kind = .operator := by
      intro u hu
      have hmem : u ∈ s.pending := hpending ▸ List.mem_append_left _ hu
      refine (h.pending_kind u hmem).resolve_right fun hkind => ?_
      simpa [Token.isOpening, hkind] using hflushed u hu
    exact (h.flush hpending hkinds).close rfl ho ht

theorem run (h : Conversion.run {} ts = .ok s) : s.Holds ts := by
  induction ts using List.reverseRecOn generalizing s with
  | nil =>
    cases h
    exact holds_nil
  | append_singleton ts t ih =>
    obtain ⟨s', hs', hstep⟩ := foldlM_concat_eq_ok_iff.1 h
    exact (ih hs').step hstep

/-- A closing bracket finds an opening one if there is a bracket that is not closed. -/
theorem step_closing (h : s.Holds ts) (ht : t.kind = .closing) :
    (unclosed ts ≠ [] → ∃ s', Conversion.step s t = .ok s') ∧
      (unclosed ts = [] → Conversion.step s t = .error .unmatchedClosing) := by
  obtain ⟨flushed, rest, hpending, hflushed, hrest, hflush⟩ := exists_flushWhile (!·.isOpening) s
  have hnone : flushed.filter (·.isOpening) = [] :=
    List.filter_eq_nil_iff.2 fun u hu => by simpa using hflushed u hu
  have hbrackets : rest.filter (·.isOpening) = unclosed ts := by
    rw [← h.brackets, hpending, List.filter_append, hnone, List.nil_append]
  simp only [Conversion.step, ht, closeScope, hflush]
  cases rest with
  | nil => exact ⟨fun hne => absurd hbrackets.symm hne, fun _ => rfl⟩
  | cons o rest =>
    have ho : o.isOpening = true := by simpa using hrest o rfl
    refine ⟨fun _ => ⟨_, rfl⟩, fun hclosed => ?_⟩
    rw [List.filter_cons_of_pos ho, hclosed] at hbrackets
    cases hbrackets

/-- A token is read unless it is refused, and then that is the error. -/
theorem step_of_refusal? (h : s.Holds ts) (hts : Convertible ts) (t : Token) :
    (refusal? ts t = none → ∃ s', Conversion.step s t = .ok s') ∧
      ∀ err, refusal? ts t = some err → Conversion.step s t = .error err := by
  cases ht : t.kind with
  | closing =>
    obtain ⟨hok, herror⟩ := h.step_closing ht
    rw [hts.refusal?_closing ht]
    by_cases hnone : unclosed ts = []
    · simp [hnone, herror hnone]
    · simp [hnone, hok hnone]
  | operand | opening | operator => simp [refusal?, ht, Conversion.step]
  | other name => simp [refusal?, ht, Conversion.step]

end State.Holds

/-! ## Whole lists -/

theorem exists_run_of_convertible (h : Convertible ts) : ∃ s, run {} ts = .ok s := by
  induction ts using List.reverseRecOn with
  | nil => exact ⟨{}, rfl⟩
  | append_singleton ts t ih =>
    obtain ⟨hts, ht⟩ := convertible_concat_iff.1 h
    obtain ⟨s, hs⟩ := ih hts
    obtain ⟨s', hs'⟩ := ((State.Holds.run hs).step_of_refusal? hts t).1 ht
    exact ⟨s', foldlM_concat_eq_ok_iff.2 ⟨s, hs, hs'⟩⟩

theorem exists_step_eq_error (h : Convertible ts) (ht : refusal? ts t = some err) :
    ∃ s, run {} ts = .ok s ∧ step s t = .error err := by
  obtain ⟨s, hs⟩ := exists_run_of_convertible h
  exact ⟨s, hs, ((State.Holds.run hs).step_of_refusal? h t).2 err ht⟩

theorem toRpn_eq_error {before after : List Token} (h : Convertible before)
    (ht : refusal? before t = some err) : toRpn (before ++ t :: after) = .error err := by
  obtain ⟨s, hs, hstep⟩ := exists_step_eq_error h ht
  have hrun : run {} (before ++ t :: after) = .error err := foldlM_eq_error hs hstep
  rw [toRpn, hrun]
  rfl

/-- What is output in the end. -/
theorem State.Holds.finish (h : s.Holds ts) :
    s.finish.filter (·.isOperand) = ts.filter (·.isOperand) ∧
      (∀ u, u.isOperator → s.finish.count u = ts.count u) ∧
      s.finish.filter (·.isOpening) = unclosed ts ∧
      (∀ u ∈ s.finish, u.isOperand ∨ u.isOperator ∨ u.isOpening) ∧
      s.finish.length + 2 * countKind .closing ts = ts.length := by
  have hoperands : s.pending.filter (·.isOperand) = [] := by
    refine List.filter_eq_nil_iff.2 fun u hu => ?_
    rcases h.pending_kind u hu with hkind | hkind <;> simp [Token.isOperand, hkind]
  have hbrackets : s.output.reverse.filter (·.isOpening) = [] := by
    refine List.filter_eq_nil_iff.2 fun u hu => ?_
    rcases h.output_kind u (List.mem_reverse.1 hu) with hkind | hkind <;>
      simp [Token.isOpening, hkind]
  unfold State.finish
  refine ⟨?_, fun u hu => ?_, ?_, fun u hu => ?_, ?_⟩
  · rw [List.filter_append, hoperands, List.append_nil, h.operands]
  · rw [List.count_append, List.count_reverse, h.operators u hu]
  · rw [List.filter_append, hbrackets, List.nil_append, h.brackets]
  · simp only [Token.isOperand, Token.isOperator, Token.isOpening, decide_eq_true_eq]
    rcases List.mem_append.1 hu with hu | hu
    · exact (h.output_kind u (List.mem_reverse.1 hu)).imp_right Or.inl
    · exact Or.inr (h.pending_kind u hu)
  · rw [List.length_append, List.length_reverse, h.length]

end Conversion

open Tokens Conversion

/-- The first token that is refused is the error of a list, met when everything in front of
it has been read, and there is no other error. A list without such a token has a reverse
Polish form : the operands in their order, every operator as often as before and the opening
brackets that are not closed, without the brackets that match. -/
theorem toRpn_rearranges (ts : List Token) :
    (∀ err, toRpn ts = .error err ↔
      ∃ before t after, ts = before ++ t :: after ∧ Convertible before ∧
        refusal? before t = some err) ∧
      (∀ before t err, Convertible before → refusal? before t = some err →
        ∃ s, run {} before = .ok s ∧ step s t = .error err) ∧
      (Convertible ts → ∃ rpn, toRpn ts = .ok rpn ∧
        rpn.filter (·.isOperand) = ts.filter (·.isOperand) ∧
        (∀ t, t.isOperator → rpn.count t = ts.count t) ∧
        rpn.filter (·.isOpening) = unclosed ts ∧
        (∀ t ∈ rpn, t.isOperand ∨ t.isOperator ∨ t.isOpening) ∧
        rpn.length + 2 * countKind .closing ts = ts.length) := by
  have hok : Convertible ts → ∃ s, run {} ts = .ok s ∧ toRpn ts = .ok s.finish := fun h => by
    obtain ⟨s, hs⟩ := exists_run_of_convertible h
    exact ⟨s, hs, by rw [toRpn, hs]; rfl⟩
  refine ⟨fun err => ⟨fun herr => ?_, ?_⟩, fun before t err => exists_step_eq_error, fun h => ?_⟩
  · by_cases h : Convertible ts
    · obtain ⟨s, -, hrpn⟩ := hok h
      rw [hrpn] at herr
      cases herr
    · obtain ⟨before, t, after, err', rfl, hbefore, hrefusal⟩ := exists_refusal h
      obtain rfl := Except.error.inj (herr.symm.trans (toRpn_eq_error hbefore hrefusal))
      exact ⟨before, t, after, rfl, hbefore, hrefusal⟩
  · rintro ⟨before, t, after, rfl, hbefore, hrefusal⟩
    exact toRpn_eq_error hbefore hrefusal
  · obtain ⟨s, hs, hrpn⟩ := hok h
    exact ⟨s.finish, hrpn, (State.Holds.run hs).finish⟩

end IntCalc
