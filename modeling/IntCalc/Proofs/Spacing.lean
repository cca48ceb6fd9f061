import IntCalc.Proofs.ErrorColumn

/-!
# Blanks between tokens

Blanks `w` are put between two texts `u` and `v` that split no number (`Separable`). The
texts with and without them are read side by side : what is left of them is always
`Spaced`, that is the blanks are still ahead in both or both have the same end of `v`
left. Every reader keeps this (`Spaced.expect?`, `Spaced.operator?`, `Spaced.integer`), and
so does a whole reading, which emits the same tokens (`Reads.unspaced`).

The blanks therefore only move the column of an error behind them
(`parse_insert_blanks`).
-/

namespace IntCalc.Parse

open Grammar

variable {range : Range} {part : Part} {u v w text text' rest' : List Char} {c : Char}
  {cs : List Char} {ts : List Token} {negative : Bool}

/-! ## Texts with and without the blanks -/

/-- The two texts split no number. -/
def Separable (u v : List Char) : Prop :=
  ∀ c ∈ u.getLast?, c.isDigit → NoDigit v

/-- The blanks `w` are ahead in the second text, in front of `v`, or both texts are the
same end of `v`. -/
inductive Spaced (u v w : List Char) : List Char → List Char → Prop
  | before {front : List Char} : front <:+ u → Spaced u v w (front ++ v) (front ++ (w ++ v))
  | behind {rest : List Char} : rest <:+ v → Spaced u v w rest rest

theorem skipBlanks_eq_self (h : ∀ c cs, text = c :: cs → ¬IsBlank c) : skipBlanks text = text := by
  cases text with
  | nil => rfl
  | cons c cs => exact skipBlanks_cons (h c cs rfl)

theorem Separable.suffix {front : List Char} (h : Separable u v) (hfront : front <:+ u) :
    Separable front v := by
  obtain ⟨more, rfl⟩ := hfront
  intro c hc
  exact h c (by simp [List.getLast?_append, Option.mem_def.1 hc])

theorem Separable.blanks (h : Separable u v) (hw : IsBlanks w) : Separable u (w ++ v) :=
  fun c hc hdigit => noDigit_append hw (h c hc hdigit)

/-- In front of a character that is not blank, the blanks are not next. -/
theorem Spaced.eq_or_exists (hw : IsBlanks w) (h : Spaced u v w text text')
    (hself : skipBlanks text' = text') :
    (text = text' ∧ text' <:+ v) ∨
      ∃ front, front ≠ [] ∧ front <:+ u ∧ text = front ++ v ∧ text' = front ++ (w ++ v) := by
  cases h with
  | behind hrest => exact Or.inl ⟨rfl, hrest⟩
  | @before front hfront =>
    by_cases hnil : front = []
    · subst hnil
      obtain rfl : w = [] := eq_nil_of_isBlanks hw hself
      exact Or.inl ⟨rfl, List.suffix_rfl⟩
    · exact Or.inr ⟨front, hnil, hfront, rfl, rfl⟩

/-- Both texts start with the same character. -/
theorem Spaced.of_cons (hw : IsBlanks w) (h : Spaced u v w text (c :: cs)) (hc : ¬IsBlank c) :
    ∃ ds, text = c :: ds ∧ Spaced u v w ds cs := by
  rcases h.eq_or_exists hw (skipBlanks_cons hc) with ⟨rfl, hrest⟩ | ⟨front, hne, hfront, rfl, heq⟩
  · exact ⟨cs, rfl, .behind ((List.suffix_cons c cs).trans hrest)⟩
  · obtain ⟨d, front, rfl⟩ := List.exists_cons_of_ne_nil hne
    obtain ⟨rfl, rfl⟩ := List.cons.inj heq
    exact ⟨front ++ v, rfl, .before ((List.suffix_cons c front).trans hfront)⟩

/-- If nothing is left of one text, nothing is left of the other. -/
theorem Spaced.eq_nil_iff (hw : IsBlanks w) (h : Spaced u v w text text')
    (hself : skipBlanks text' = text') : text = [] ↔ text' = [] := by
  rcases h.eq_or_exists hw hself with ⟨rfl, -⟩ | ⟨front, hne, -, rfl, rfl⟩
  · rfl
  · simp [hne]

theorem Spaced.skipBlanks (hw : IsBlanks w) (h : Spaced u v w text text') :
    Spaced u v w (skipBlanks text) (skipBlanks text') := by
  cases h with
  | behind hrest => exact .behind ((suffix_skipBlanks _).trans hrest)
  | @before front hfront =>
    by_cases hblank : IsBlanks front
    · rw [skipBlanks_append hblank, skipBlanks_append hblank, skipBlanks_append hw]
      exact .behind (suffix_skipBlanks v)
    · rw [skipBlanks_look hblank, skipBlanks_look hblank]
      exact .before ((suffix_skipBlanks front).trans hfront)

/-! ## Single tokens -/

/-- The same token is read, with the blanks still ahead in one of the texts. -/
def TokenSpaced {α : Type} (u v w : List Char) (p q : α × List Char) : Prop :=
  p.1 = q.1 ∧ Spaced u v w p.2 q.2

/-- Behind blanks the two texts are at an end or start with the same character. -/
theorem Spaced.next (hw : IsBlanks w) (h : Spaced u v w text text') :
    (Parse.skipBlanks text = [] ∧ Parse.skipBlanks text' = []) ∨
      ∃ c ds cs, Parse.skipBlanks text = c :: ds ∧ Parse.skipBlanks text' = c :: cs ∧
        Spaced u v w ds cs := by
  have hskip := h.skipBlanks hw
  cases htext' : Parse.skipBlanks text' with
  | nil => exact Or.inl ⟨(hskip.eq_nil_iff hw (skipBlanks_skipBlanks text')).2 htext', rfl⟩
  | cons c cs =>
    rw [htext'] at hskip
    obtain ⟨ds, htext, hds⟩ := hskip.of_cons hw (not_isBlank_of_skipBlanks htext')
    exact Or.inr ⟨c, ds, cs, htext, rfl, hds⟩

theorem Spaced.expect? (hw : IsBlanks w) (h : Spaced u v w text text') (symbol : Symbol) :
    Option.Rel (Spaced u v w) (expect? symbol text) (expect? symbol text') := by
  unfold Parse.expect?
  rcases h.next hw with ⟨hnil, hnil'⟩ | ⟨c, ds, cs, hcons, hcons', hspaced⟩
  · simp [hnil, hnil']
  · simp only [hcons, hcons']
    split
    · exact .some hspaced
    · exact .none

theorem Spaced.operator? (hw : IsBlanks w) (h : Spaced u v w text text') :
    Option.Rel (TokenSpaced u v w) (operator? text) (operator? text') := by
  unfold Parse.operator?
  rcases h.next hw with ⟨hnil, hnil'⟩ | ⟨c, ds, cs, hcons, hcons', hspaced⟩
  · simp [hnil, hnil']
  · simp only [hcons, hcons']
    cases Symbol.ofChar c with
    | operator op => exact .some ⟨rfl, hspaced⟩
    | _ => exact .none

theorem Spaced.signs (hw : IsBlanks w) (h : Spaced u v w text text') (negative : Bool) :
    (signs negative text).1 = (signs negative text').1 ∧
      Spaced u v w (signs negative text).2 (signs negative text').2 := by
  cases h with
  | behind hrest => exact ⟨rfl, .behind ((suffix_signs negative _).trans hrest)⟩
  | @before front hfront =>
    induction front generalizing negative with
    | nil =>
      have hblanks : Parse.signs negative (w ++ v) = Parse.signs negative v :=
        signs_append_blanks hw negative
      simp only [List.nil_append, hblanks]
      exact ⟨trivial, .behind (suffix_signs negative v)⟩
    | cons c front ih =>
      have hsuffix := (List.suffix_cons c front).trans hfront
      by_cases hblank : IsBlank c
      · have hskip : ∀ text, Parse.signs negative (c :: text) = Parse.signs negative text := by
          rcases hblank with rfl | rfl <;> exact fun text => rfl
        simp only [List.cons_append, hskip]
        exact ih negative hsuffix
      · by_cases hminus : c = '-'
        · subst hminus
          exact ih (!negative) hsuffix
        · simp only [List.cons_append, signs_cons hblank hminus]
          exact ⟨trivial, .before hfront⟩

/-! ## Literals -/

theorem isDigit_of_mem_leadingDigits (h : c ∈ leadingDigits text) : c.isDigit = true := by
  have hdigit := List.mem_takeWhile_imp h
  rwa [← Symbol.isDigit_ofChar]

/-- Digits end in front of `v`. -/
theorem noDigit_afterDigits_append (hsep : Separable u v) (hne : u ≠ []) :
    NoDigit (afterDigits u ++ v) := by
  cases hafter : afterDigits u with
  | cons c cs => exact noDigit_cons (noDigit_afterDigits u c (by simp [hafter]))
  | nil =>
    have hall : leadingDigits u = u := by
      simpa [hafter] using leadingDigits_append_afterDigits u
    have hdigits : ∀ c ∈ leadingDigits u, c.isDigit := fun c hc => isDigit_of_mem_leadingDigits hc
    rw [hall] at hdigits
    exact hsep _ (List.getLast?_eq_some_getLast hne) (hdigits _ (List.getLast_mem hne))

theorem digits_append (hsep : Separable u v) (hne : u ≠ []) :
    leadingDigits (u ++ v) = leadingDigits u ∧ afterDigits (u ++ v) = afterDigits u ++ v := by
  have hsplit : u ++ v = leadingDigits u ++ (afterDigits u ++ v) := by
    rw [← List.append_assoc, leadingDigits_append_afterDigits]
  have hdigits : ∀ c ∈ leadingDigits u, c.isDigit := fun c hc => isDigit_of_mem_leadingDigits hc
  have hno := noDigit_afterDigits_append hsep hne
  rw [hsplit]
  exact ⟨leadingDigits_append hdigits hno, afterDigits_append hdigits hno⟩

/-- The same digits are read from both texts. -/
theorem Spaced.digits (hw : IsBlanks w) (hsep : Separable u v) (h : Spaced u v w text text')
    (hself : Parse.skipBlanks text' = text') :
    leadingDigits text = leadingDigits text' ∧
      Spaced u v w (afterDigits text) (afterDigits text') := by
  rcases h.eq_or_exists hw hself with ⟨rfl, hrest⟩ | ⟨front, hne, hfront, rfl, rfl⟩
  · exact ⟨rfl, .behind ((List.dropWhile_suffix _).trans hrest)⟩
  · have hsep' := hsep.suffix hfront
    obtain ⟨hlead, hafter⟩ := digits_append hsep' hne
    obtain ⟨hlead', hafter'⟩ := digits_append (hsep'.blanks hw) hne
    rw [hlead, hlead', hafter, hafter']
    exact ⟨rfl, .before ((List.dropWhile_suffix _).trans hfront)⟩

/-- Two readings end alike if both succeed with results in `R`, or fail for the same reason
with the blanks still ahead in one of the texts. -/
inductive EndsSpaced (u v w : List Char) {α : Type} (R : α → α → Prop) :
    Except Failure α → Except Failure α → Prop
  | ok {a b : α} : R a b → EndsSpaced u v w R (.ok a) (.ok b)
  | error {status : ParseStatus} {rest rest' : List Char} :
      Spaced u v w rest rest' → EndsSpaced u v w R (.error ⟨status, rest⟩) (.error ⟨status, rest'⟩)

theorem EndsSpaced.exists_ok {α : Type} {R : α → α → Prop} {x : Except Failure α} {b : α}
    (h : EndsSpaced u v w R x (.ok b)) : ∃ a, x = .ok a ∧ R a b := by
  cases h with
  | ok hab => exact ⟨_, rfl, hab⟩

theorem EndsSpaced.exists_error {α : Type} {R : α → α → Prop} {x : Except Failure α} {f : Failure}
    (h : EndsSpaced u v w R x (.error f)) :
    ∃ rest, x = .error ⟨f.status, rest⟩ ∧ Spaced u v w rest f.rest := by
  cases h with
  | error hrest => exact ⟨_, rfl, hrest⟩

theorem Spaced.natural (range : Range) (hw : IsBlanks w) (hsep : Separable u v)
    (h : Spaced u v w text text') (hself : Parse.skipBlanks text' = text') :
    EndsSpaced u v w (TokenSpaced u v w) (natural range negative text)
      (natural range negative text') := by
  obtain ⟨hlead, hafter⟩ := h.digits hw hsep hself
  cases text' with
  | nil =>
    obtain rfl := (h.eq_nil_iff hw hself).2 rfl
    exact .error h
  | cons c cs =>
    have hc : ¬IsBlank c := not_isBlank_of_skipBlanks hself
    obtain ⟨ds, rfl, -⟩ := h.of_cons hw hc
    unfold Parse.natural
    dsimp only
    split
    · rw [hlead]
      split
      · exact .ok ⟨rfl, hafter⟩
      · exact .error h
    · exact .error h

theorem Spaced.head?_eq (hw : IsBlanks w) (h : Spaced u v w text text')
    (hself : Parse.skipBlanks text' = text') : text.head? = text'.head? := by
  rcases h.eq_or_exists hw hself with ⟨rfl, -⟩ | ⟨front, hne, -, rfl, rfl⟩
  · rfl
  · rw [List.head?_append_of_ne_nil _ hne, List.head?_append_of_ne_nil _ hne]

theorem skipBlanks_signs (negative : Bool) (text : List Char) :
    skipBlanks (signs negative text).2 = (signs negative text).2 :=
  skipBlanks_eq_self fun _ _ h => (head_of_signs h).1

theorem Spaced.integer (range : Range) (hw : IsBlanks w) (hsep : Separable u v)
    (h : Spaced u v w text text') (hself : Parse.skipBlanks text' = text') :
    EndsSpaced u v w (TokenSpaced u v w) (integer range text) (integer range text') := by
  have hhead := h.head?_eq hw hself
  by_cases hzero : text'.head? = some '0'
  · obtain ⟨cs, rfl⟩ := List.head?_eq_some_iff.1 hzero
    obtain ⟨ds, rfl, hds⟩ := h.of_cons hw (by simp [IsBlank])
    exact .ok ⟨rfl, hds⟩
  · obtain ⟨hsign, hsigns⟩ := h.signs hw false
    rw [integer_eq_natural hzero, integer_eq_natural (hhead ▸ hzero), hsign]
    exact hsigns.natural range hw hsep (skipBlanks_signs false text')

/-! ## Readings -/

theorem exists_of_rel_some {α β : Type} {R : α → β → Prop} {x : Option α} {b : β}
    (h : Option.Rel R x (some b)) : ∃ a, x = some a ∧ R a b := by
  cases h with
  | some hab => exact ⟨_, rfl, hab⟩

theorem eq_none_of_rel_none {α β : Type} {R : α → β → Prop} {x : Option α}
    (h : Option.Rel R x (none : Option β)) : x = none := by
  cases h
  rfl

/-- A failure behind an operator is the same one in both texts. -/
theorem Spaced.afterOperator {f : Failure} {rest : List Char} (hw : IsBlanks w)
    (h : Spaced u v w rest f.rest) (hself : Parse.skipBlanks f.rest = f.rest) :
    EndsSpaced u v w (Spaced u v w) (.error (Failure.afterOperator ⟨f.status, rest⟩))
      (.error f.afterOperator) := by
  unfold Failure.afterOperator
  simp only [h.eq_nil_iff hw hself]
  split
  · exact .error (.behind (List.nil_suffix))
  · exact .error h

/-- Without the blanks the same tokens are read. -/
theorem Reads.unspaced {r' : Except Failure (List Char)} (hw : IsBlanks w) (hsep : Separable u v)
    (h : Reads range part text' ts r') (hspaced : Spaced u v w text text') :
    ∃ r, Reads range part text ts r ∧ EndsSpaced u v w (Spaced u v w) r r' := by
  induction h generalizing text with
  | expression _ _ iht iho =>
    obtain ⟨r, ht, hr⟩ := iht hspaced
    obtain ⟨rest, rfl, hrest⟩ := hr.exists_ok
    obtain ⟨r, ho, hr⟩ := iho hrest
    exact ⟨r, .expression ht ho, hr⟩
  | expressionFailed _ iht =>
    obtain ⟨r, ht, hr⟩ := iht hspaced
    obtain ⟨rest, rfl, hrest⟩ := hr.exists_error
    exact ⟨_, .expressionFailed ht, .error hrest⟩
  | operatorsEnd hop =>
    have hnone := eq_none_of_rel_none (hop ▸ hspaced.operator? hw)
    exact ⟨_, .operatorsEnd hnone, .ok hspaced⟩
  | operator hop _ _ iht iho =>
    obtain ⟨⟨op, rest⟩, hop', rfl, hrest⟩ := exists_of_rel_some (hop ▸ hspaced.operator? hw)
    obtain ⟨r, ht, hr⟩ := iht hrest
    obtain ⟨rest', rfl, hrest'⟩ := hr.exists_ok
    obtain ⟨r, ho, hr⟩ := iho hrest'
    exact ⟨r, .operator hop' ht ho, hr⟩
  | operatorFailed hop hterm iht =>
    obtain ⟨⟨op, rest⟩, hop', rfl, hrest⟩ := exists_of_rel_some (hop ▸ hspaced.operator? hw)
    obtain ⟨r, ht, hr⟩ := iht hrest
    obtain ⟨rest', rfl, hrest'⟩ := hr.exists_error
    have hself := skipBlanks_eq_self fun _ _ hcons => hterm.not_isBlank hcons
    exact ⟨_, .operatorFailed hop' ht, hrest'.afterOperator hw hself⟩
  | scope hopen _ hclose ih =>
    obtain ⟨rest, hopen', hrest⟩ := exists_of_rel_some (hopen ▸ hspaced.expect? hw .opening)
    obtain ⟨r, he, hr⟩ := ih hrest
    obtain ⟨rest', rfl, hrest'⟩ := hr.exists_ok
    obtain ⟨rest'', hclose', hrest''⟩ := exists_of_rel_some (hclose ▸ hrest'.expect? hw .closing)
    exact ⟨_, .scope hopen' he hclose', .ok hrest''⟩
  | scopeUnclosed hopen _ hclose ih =>
    obtain ⟨rest, hopen', hrest⟩ := exists_of_rel_some (hopen ▸ hspaced.expect? hw .opening)
    obtain ⟨r, he, hr⟩ := ih hrest
    obtain ⟨rest', rfl, hrest'⟩ := hr.exists_ok
    have hclose' := eq_none_of_rel_none (hclose ▸ hrest'.expect? hw .closing)
    exact ⟨_, .scopeUnclosed hopen' he hclose', .error (hrest'.skipBlanks hw)⟩
  | scopeFailed hopen _ ih =>
    obtain ⟨rest, hopen', hrest⟩ := exists_of_rel_some (hopen ▸ hspaced.expect? hw .opening)
    obtain ⟨r, he, hr⟩ := ih hrest
    obtain ⟨rest', rfl, hrest'⟩ := hr.exists_error
    exact ⟨_, .scopeFailed hopen' he, .error hrest'⟩
  | @literal text' rest numeral hopen hint =>
    have hopen' := eq_none_of_rel_none (hopen ▸ hspaced.expect? hw .opening)
    have hends := (hspaced.skipBlanks hw).integer range hw hsep (skipBlanks_skipBlanks text')
    obtain ⟨⟨numeral, rest⟩, hint', rfl, hrest⟩ := (hint ▸ hends).exists_ok
    exact ⟨_, .literal hopen' hint', .ok hrest⟩
  | @literalFailed text' f hopen hint =>
    have hopen' := eq_none_of_rel_none (hopen ▸ hspaced.expect? hw .opening)
    have hends := (hspaced.skipBlanks hw).integer range hw hsep (skipBlanks_skipBlanks text')
    obtain ⟨rest, hint', hrest⟩ := (hint ▸ hends).exists_error
    exact ⟨_, .literalFailed hopen' hint', .error hrest⟩

/-! ## Results -/

/-- The result `r'` is `r` with the column of an error behind `u` moved by `n`. -/
structure Moved (u : List Char) (n : Nat) (r r' : ParseResult) : Prop where
  status : r'.status = r.status
  tokens : r'.tokens = r.tokens
  column : r.status ≠ .ok →
    r'.column = if (u.length : Int) ≤ r.column then r.column + n else r.column

/-- The column of an error behind the blanks is moved by them. -/
theorem Spaced.columnOf_eq {rest : List Char} (hw : IsBlanks w) (h : Spaced u v w rest rest')
    (hself : Parse.skipBlanks rest' = rest') :
    (columnOf (u ++ (w ++ v)) rest' : Int) =
      if (u.length : Int) ≤ columnOf (u ++ v) rest then (columnOf (u ++ v) rest : Int) + w.length
      else (columnOf (u ++ v) rest : Int) := by
  rcases h.eq_or_exists hw hself with ⟨rfl, more, rfl⟩ | ⟨front, hne, ⟨more, rfl⟩, rfl, rfl⟩
  · have hplain : columnOf (u ++ (more ++ rest)) rest = (u ++ more).length := by
      rw [← List.append_assoc, columnOf_append]
    have hspaced : columnOf (u ++ (w ++ (more ++ rest))) rest = (u ++ w ++ more).length := by
      rw [← List.append_assoc, ← List.append_assoc, columnOf_append]
    rw [hplain, hspaced]
    simp only [List.length_append]
    split <;> omega
  · have hpos := List.length_pos_iff.2 hne
    rw [List.append_assoc, List.append_assoc, columnOf_append, columnOf_append]
    simp only [List.length_append]
    split <;> omega

theorem EndsSpaced.moved {r r' : Except Failure (List Char)} (hw : IsBlanks w)
    (h : EndsSpaced u v w (Spaced u v w) r r')
    (hself : ∀ f, r' = .error f → skipBlanks f.rest = f.rest) :
    Moved u w.length (conclude (u ++ v) ts r) (conclude (u ++ (w ++ v)) ts r') := by
  cases h with
  | error hrest => exact ⟨rfl, rfl, fun _ => hrest.columnOf_eq hw (hself _ rfl)⟩
  | @ok rest rest' hrest =>
    have hskip := hrest.skipBlanks hw
    rcases hrest.next hw with ⟨hnil, hnil'⟩ | ⟨c, ds, cs, hcons, hcons', -⟩
    · simp only [conclude, hnil, hnil']
      exact ⟨rfl, rfl, by simp⟩
    · rw [hcons, hcons'] at hskip
      simp only [conclude, hcons, hcons']
      refine ⟨rfl, rfl, fun _ => hskip.columnOf_eq hw ?_⟩
      exact skipBlanks_cons (not_isBlank_of_skipBlanks hcons')

theorem isBlanks_insert_iff (hw : IsBlanks w) : IsBlanks (u ++ (w ++ v)) ↔ IsBlanks (u ++ v) := by
  unfold IsBlanks at hw ⊢
  simp only [List.forall_mem_append]
  exact and_congr_right fun _ => and_iff_right hw

theorem moved_parseChars (range : Range) (hw : IsBlanks w) (hsep : Separable u v) :
    Moved u w.length (parseChars range (u ++ v)) (parseChars range (u ++ (w ++ v))) := by
  by_cases hblank : IsBlanks (u ++ v)
  · rw [parseChars_of_isBlanks hblank, parseChars_of_isBlanks ((isBlanks_insert_iff hw).2 hblank)]
    refine ⟨rfl, rfl, fun _ => ?_⟩
    simp only [List.length_append]
    rw [if_pos (by omega)]
    omega
  · have hblank' : ¬IsBlanks (u ++ (w ++ v)) := mt (isBlanks_insert_iff hw).1 hblank
    obtain ⟨ts, r', hread'⟩ := exists_reads range .expression (u ++ (w ++ v))
    obtain ⟨r, hread, hends⟩ := hread'.unspaced hw hsep (.before List.suffix_rfl)
    rw [parseChars_of_expression hblank hread, parseChars_of_expression hblank' hread']
    refine hends.moved hw fun f hf => ?_
    subst hf
    exact skipBlanks_eq_self fun _ _ hcons => hread'.not_isBlank hcons

/-- Blanks between two texts that split no number change neither the status nor the tokens.
The column of an error is moved by them if it is not in the first text. -/
theorem parse_insert_blanks (range : Range) {u v w : String} (hw : IsBlanks w.toList)
    (hsep : Separable u.toList v.toList) :
    let r := parse range (u ++ v)
    let r' := parse range (u ++ w ++ v)
    r'.status = r.status ∧ r'.tokens = r.tokens ∧
      (¬r.ok → r'.column =
        if (u.length : Int) ≤ r.column then r.column + w.length else r.column) := by
  intro r r'
  have hmoved := moved_parseChars range hw hsep
  have hr : r = parseChars range (u.toList ++ v.toList) := by simp [r, parse]
  have hr' : r' = parseChars range (u.toList ++ (w.toList ++ v.toList)) := by simp [r', parse]
  rw [← hr, ← hr'] at hmoved
  refine ⟨hmoved.status, hmoved.tokens, fun h => ?_⟩
  simpa only [String.length_toList] using hmoved.column fun hok => h (decide_eq_true hok)

/-- In `((2*3` the bracket is missing behind the blanks that are put in front of `3`. -/
theorem parse_insert_blanks_scopes :
    IsBlanks " \t".toList ∧ Separable "((2*".toList "3".toList ∧
      (parse IntType.int16.range ("((2*" ++ " \t" ++ "3")).status = .missingClosing ∧
      (parse IntType.int16.range ("((2*" ++ " \t" ++ "3")).column = 7 := by
  have hw : IsBlanks " \t".toList := by simp [IsBlanks]
  have hsep : Separable "((2*".toList "3".toList := by simp [Separable]
  have hplain : parse IntType.int16.range ("((2*" ++ "3") = ⟨.missingClosing, 5,
      [.opening, .opening, .operand "2", .ofOperator .mul, .operand "3"]⟩ := by
    decide +kernel
  obtain ⟨hstatus, -, hcolumn⟩ := parse_insert_blanks IntType.int16.range hw hsep
  rw [hplain] at hstatus hcolumn
  exact ⟨hw, hsep, hstatus, hcolumn (by decide)⟩

end IntCalc.Parse
