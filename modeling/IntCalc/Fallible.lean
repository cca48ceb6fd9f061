import Mathlib.Data.List.Basic

/-!
# Computations that may fail

A computation succeeds if its steps do, one after the other (`bind_eq_ok_iff`). A list is
read to its end if both parts of it are (`foldlM_append_eq_ok_iff`) and fails with the first
of its steps that does (`foldlM_eq_error`), and what every step keeps is kept to the end
(`foldlM_invariant`).
-/

namespace IntCalc

variable {ε ε' α β σ : Type} {x : Except ε α}

/-- A computation succeeds if its steps do, one after the other. -/
theorem bind_eq_ok_iff {f : α → Except ε β} {b : β} :
    x >>= f = .ok b ↔ ∃ a, x = .ok a ∧ f a = .ok b := by
  cases x <;> simp [bind, Except.bind]

@[simp] theorem ok_bind (a : α) (f : α → Except ε β) : (Except.ok a >>= f) = f a :=
  rfl

theorem pure_eq_ok (a : α) : (pure a : Except ε α) = .ok a :=
  rfl

theorem map_eq_ok_iff {f : α → β} {b : β} : x.map f = .ok b ↔ ∃ a, x = .ok a ∧ f a = b := by
  cases x <;> simp [Except.map]

@[simp] theorem mapError_ok (f : ε → ε') (a : α) : (Except.ok a : Except ε α).mapError f = .ok a :=
  rfl

@[simp] theorem mapError_error (f : ε → ε') (e : ε) :
    (Except.error e : Except ε α).mapError f = .error (f e) :=
  rfl

theorem mapError_eq_ok_iff {f : ε → ε'} {a : α} : x.mapError f = .ok a ↔ x = .ok a := by
  cases x <;> simp

/-! ## Reading a list step by step -/

variable {step : σ → α → Except ε σ} {s s' : σ} {l m : List α}

theorem foldlM_cons_eq_ok_iff {a : α} :
    (a :: l).foldlM step s = .ok s' ↔ ∃ t, step s a = .ok t ∧ l.foldlM step t = .ok s' := by
  rw [List.foldlM_cons]
  exact bind_eq_ok_iff

theorem foldlM_append_eq_ok_iff :
    (l ++ m).foldlM step s = .ok s' ↔
      ∃ t, l.foldlM step s = .ok t ∧ m.foldlM step t = .ok s' := by
  rw [List.foldlM_append]
  exact bind_eq_ok_iff

theorem foldlM_concat_eq_ok_iff {a : α} :
    (l ++ [a]).foldlM step s = .ok s' ↔ ∃ t, l.foldlM step s = .ok t ∧ step t a = .ok s' := by
  rw [foldlM_append_eq_ok_iff]
  simp only [List.foldlM_cons, List.foldlM_nil, bind_pure]

/-- The first step that fails is the failure of the whole, whatever is behind it. -/
theorem foldlM_eq_error {a : α} {t : σ} {e : ε} (h : l.foldlM step s = .ok t)
    (ha : step t a = .error e) : (l ++ a :: m).foldlM step s = .error e := by
  rw [List.foldlM_append, h]
  show List.foldlM step t (a :: m) = _
  rw [List.foldlM_cons, ha]
  rfl

/-- What every step keeps is kept to the end. -/
theorem foldlM_invariant {P : σ → Prop} (hstep : ∀ t a t', P t → step t a = .ok t' → P t')
    (hs : P s) (h : l.foldlM step s = .ok s') : P s' := by
  induction l generalizing s with
  | nil =>
    cases h
    exact hs
  | cons a l ih =>
    obtain ⟨t, ha, hl⟩ := foldlM_cons_eq_ok_iff.1 h
    exact ih (hstep s a t hs ha) hl

end IntCalc
