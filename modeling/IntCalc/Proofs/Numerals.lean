import IntCalc.Fallible
import IntCalc.Grammar.Tokens
import IntCalc.IntType
import IntCalc.Proofs.Symbol
import Mathlib.Algebra.Group.Nat.Defs
import Mathlib.Data.List.Induction
import Mathlib.Data.List.TakeWhile

/-!
# Numerals that are written and read

The decimal form of an integer has digits and a sign only (`Numeral.eq_minus_or_isDigit`), is
never empty and determines the integer (`Numeral.ofInt_injective`). What can be read can be
written (`Numeral.printable_of_read`), and what can be written is read back
(`Numeral.toInt?_ofInt`), since both have the same bound on their digits : a number has at most
`k` digits exactly if it is below the `k`-th power of ten (`Numeral.length_digits_le_iff`).
-/

namespace IntCalc

theorem Grammar.IsNatural.ne_nil_and_isDigit {cs : List Char} (h : IsNatural cs) :
    cs ≠ [] ∧ ∀ c ∈ cs, c.isDigit = true := by
  obtain ⟨c, cs, rfl, -, hall⟩ := h
  exact ⟨List.cons_ne_nil c cs, hall⟩

namespace Numeral

open Text

variable {n m k : Nat} {c : Char} {cs : List Char} {values : List Nat} {s : String} {v w : Int}

/-! ## Digits -/

theorem isDigit_digitChar {d : Nat} (h : d < 10) : (digitChar d).isDigit = true := by
  revert d
  decide

theorem isDigit_of_mem_digits (h : c ∈ digits n) : c.isDigit = true := by
  induction n using Nat.strongRecOn with
  | ind n ih =>
    rcases Nat.lt_or_ge n 10 with hn | hn
    · rw [digits_of_lt hn] at h
      rw [List.mem_singleton.1 h]
      exact isDigit_digitChar hn
    · rw [digits_of_le hn] at h
      rcases List.mem_append.1 h with h | h
      · exact ih (n / 10) (by omega) h
      · rw [List.mem_singleton.1 h]
        exact isDigit_digitChar (Nat.mod_lt _ (by decide))

theorem digits_ne_nil (n : Nat) : digits n ≠ [] := by
  rcases Nat.lt_or_ge n 10 with hn | hn
  · simp [digits_of_lt hn]
  · simp [digits_of_le hn]

theorem digits_injective : Function.Injective digits :=
  Function.LeftInverse.injective natValue_digits

theorem minus_not_mem_digits (n : Nat) : '-' ∉ digits n :=
  fun h => absurd (isDigit_of_mem_digits h) (by decide)

/-! ## Decimal forms -/

theorem eq_minus_or_isDigit (h : c ∈ (ofInt v).toList) : c = '-' ∨ c.isDigit = true := by
  rw [ofInt, String.toList_ofList] at h
  split at h
  · exact (List.mem_cons.1 h).imp_right isDigit_of_mem_digits
  · exact Or.inr (isDigit_of_mem_digits h)

theorem ofInt_ne_empty (v : Int) : ofInt v ≠ "" := by
  intro h
  have hnil := congrArg String.toList h
  rw [ofInt, String.toList_ofList] at hnil
  split at hnil
  · exact List.cons_ne_nil _ _ hnil
  · exact digits_ne_nil _ hnil

/-- Different integers have different decimal forms. -/
theorem ofInt_injective : Function.Injective ofInt := by
  intro v w h
  have hlist := String.ofList_injective h
  split at hlist <;> split at hlist
  · have habs := digits_injective (List.cons.inj hlist).2
    omega
  · exact absurd (hlist ▸ List.mem_cons_self) (minus_not_mem_digits w.natAbs)
  · exact absurd (hlist ▸ List.mem_cons_self) (minus_not_mem_digits v.natAbs)
  · have habs := digits_injective hlist
    omega

/-! ## How long numerals are -/

/-- A number has at most `k` digits if it is below that power of ten. -/
theorem length_digits_le_iff (hk : 0 < k) : (digits n).length ≤ k ↔ n < 10 ^ k := by
  obtain ⟨k, rfl⟩ := Nat.exists_eq_add_one.2 hk
  induction k generalizing n with
  | zero =>
    rcases Nat.lt_or_ge n 10 with hn | hn
    · simp [digits_of_lt hn, hn]
    · have hpos := List.length_pos_iff.2 (digits_ne_nil (n / 10))
      rw [digits_of_le hn, List.length_append, List.length_singleton]
      omega
  | succ k ih =>
    have hpow : 10 ^ (k + 1 + 1) = 10 * 10 ^ (k + 1) := by rw [Nat.pow_succ, Nat.mul_comm]
    rcases Nat.lt_or_ge n 10 with hn | hn
    · have hpos : 0 < 10 ^ (k + 1) := Nat.pow_pos (by decide)
      rw [digits_of_lt hn, List.length_singleton]
      omega
    · have hquotient := ih (n := n / 10) (by omega)
      rw [digits_of_le hn, List.length_append, List.length_singleton]
      omega

theorem printable_iff : Printable v ↔ v.natAbs < 10 ^ maxDigits :=
  length_digits_le_iff (by decide)

/-- The first number that cannot be written. -/
theorem not_printable_pow : ¬Printable (10 ^ maxDigits : Nat) := by
  rw [printable_iff, Int.natAbs_natCast]
  exact Nat.lt_irrefl _

/-- What is no larger than a number that can be written can be written. -/
theorem Printable.of_natAbs_le (h : Printable v) (hle : w.natAbs ≤ v.natAbs) : Printable w :=
  printable_iff.2 (Nat.lt_of_le_of_lt hle (printable_iff.1 h))

/-- A number is below the power of ten with as many zeros as it has digits. -/
theorem ofValues_lt (h : ∀ d ∈ values, d < 10) : ofValues values < 10 ^ values.length := by
  induction values using List.reverseRecOn with
  | nil => decide
  | append_singleton values d ih =>
    obtain ⟨hvalues, hd⟩ := List.forall_mem_append.1 h
    have hlt := ih hvalues
    have hlast : d < 10 := hd d (List.mem_singleton_self d)
    rw [ofValues, List.foldl_append, List.length_append, List.length_singleton, Nat.pow_succ]
    change 10 * ofValues values + d < _
    omega

/-! ## Reading -/

theorem readUnsigned_lt (h : readUnsigned cs = .ok n) : n < 10 ^ maxDigits := by
  unfold readUnsigned at h
  dsimp only at h
  split at h
  · split at h
    · cases h
    · next hlength =>
      split at h
      · cases h
        refine Nat.lt_of_lt_of_le (ofValues_lt fun d hd => ?_)
          (Nat.pow_le_pow_right (by decide) (Nat.not_lt.1 hlength))
        obtain ⟨c, -, hc⟩ := List.mem_filterMap.1 hd
        exact lt_ten_of_decimalValue? hc
      · cases h
  · cases h

/-- What is read can be written. -/
theorem printable_of_read (h : read s = .ok v) : Printable v := by
  rw [printable_iff]
  unfold read at h
  split at h <;> obtain ⟨n, hn, rfl⟩ := map_eq_ok_iff.1 h
  · rw [Int.natAbs_neg, Int.natAbs_natCast]
    exact readUnsigned_lt hn
  · exact readUnsigned_lt hn
  · exact readUnsigned_lt hn

theorem toInt?_eq_some_iff : toInt? s = some v ↔ read s = .ok v := by
  unfold toInt?
  cases read s <;> simp [Except.toOption]

theorem groupedAfter_of_isDigit (hall : ∀ c ∈ cs, c.isDigit = true) {digit : Bool}
    (hne : digit = true ∨ cs ≠ []) : groupedAfter digit cs = true := by
  induction cs generalizing digit with
  | nil => exact hne.resolve_right (absurd rfl)
  | cons c cs ih =>
    obtain ⟨hc, hcs⟩ := List.forall_mem_cons.1 hall
    have hscore : c ≠ '_' := by
      rintro rfl
      exact absurd hc (by decide)
    simp [groupedAfter, hscore, isDecimalDigit, decimalValue?_of_isDigit hc,
      ih hcs (Or.inl rfl)]

theorem filterMap_decimalValue? (hall : ∀ c ∈ cs, c.isDigit = true) :
    cs.filterMap decimalValue? = cs.map digitValue := by
  induction cs with
  | nil => rfl
  | cons c cs ih =>
    obtain ⟨hc, hcs⟩ := List.forall_mem_cons.1 hall
    rw [List.filterMap_cons_some (decimalValue?_of_isDigit hc), ih hcs]
    rfl

/-- Digits are read as their value, unless they are too many. -/
theorem readUnsigned_of_isDigit (hne : cs ≠ []) (hall : ∀ c ∈ cs, c.isDigit = true) :
    readUnsigned cs =
      if cs.length ≤ maxDigits then .ok (natValue cs) else .error (.tooLong cs.length) := by
  have hbody : (cs.takeWhile fun c => c = '_' || isDecimalDigit c) = cs := by
    refine List.takeWhile_eq_self_iff.2 fun c hc => ?_
    simp [isDecimalDigit, decimalValue?_of_isDigit (hall c hc)]
  have hvalue : ofValues (cs.map digitValue) = natValue cs := List.foldl_map
  simp only [readUnsigned, hbody, filterMap_decimalValue? hall, List.length_map, hvalue,
    groupedAfter_of_isDigit hall (Or.inr hne), List.drop_length, List.all_nil, if_true]
  split
  · next hlong => rw [if_neg (Nat.not_le.2 hlong)]
  · next hshort => rw [if_pos (Nat.not_lt.1 hshort)]

theorem isBlank_of_isDigit (h : c.isDigit = true) : isBlank c = false := by
  obtain ⟨hlo, hhi⟩ := Symbol.isDigit_iff_toNat.1 h
  refine List.any_eq_false.2 fun interval hmem => ?_
  have hdisjoint : interval.2 < 48 ∨ 57 < interval.1 :=
    (by decide : ∀ i ∈ blankIntervals, i.2 < 48 ∨ 57 < i.1) interval hmem
  simp only [decide_eq_true_eq]
  omega

theorem read_of_isDigit (hne : cs ≠ []) (hall : ∀ c ∈ cs, c.isDigit = true) :
    read (String.ofList cs) = (readUnsigned cs).map Int.ofNat := by
  obtain ⟨c, cs, rfl⟩ := List.exists_cons_of_ne_nil hne
  have hc : c.isDigit = true := hall c (by simp)
  have hskip : (c :: cs).dropWhile isBlank = c :: cs :=
    List.dropWhile_cons_of_neg (by simp [isBlank_of_isDigit hc])
  rw [read, String.toList_ofList, hskip]
  -- A digit is no sign.
  split
  · next heq =>
    cases heq
    simp at hc
  · next heq =>
    cases heq
    simp at hc
  · rfl

theorem toInt?_of_isDigit (hne : cs ≠ []) (hall : ∀ c ∈ cs, c.isDigit = true)
    (hlength : cs.length ≤ maxDigits) : toInt? (String.ofList cs) = some (natValue cs : Int) := by
  rw [toInt?_eq_some_iff, read_of_isDigit hne hall, readUnsigned_of_isDigit hne hall,
    if_pos hlength]
  rfl

theorem toInt?_minus_of_isDigit (hne : cs ≠ []) (hall : ∀ c ∈ cs, c.isDigit = true)
    (hlength : cs.length ≤ maxDigits) :
    toInt? (String.ofList ('-' :: cs)) = some (-(natValue cs : Int)) := by
  have hskip : ('-' :: cs).dropWhile isBlank = '-' :: cs :=
    List.dropWhile_cons_of_neg (by decide)
  simp only [toInt?_eq_some_iff, read, String.toList_ofList, hskip,
    readUnsigned_of_isDigit hne hall, if_pos hlength]
  rfl

/-- What can be written is read back. -/
theorem toInt?_ofInt (h : Printable v) : toInt? (ofInt v) = some v := by
  have hall : ∀ c ∈ digits v.natAbs, c.isDigit = true := fun c => isDigit_of_mem_digits
  unfold ofInt
  split
  · rw [toInt?_minus_of_isDigit (digits_ne_nil _) hall h, natValue_digits, Option.some.injEq]
    omega
  · rw [toInt?_of_isDigit (digits_ne_nil _) hall h, natValue_digits, Option.some.injEq]
    omega

/-! ## Digits without leading zeros -/

theorem pow_length_mul_le_foldl (cs : List Char) (n : Nat) :
    10 ^ cs.length * n ≤ cs.foldl (fun n c => 10 * n + digitValue c) n := by
  induction cs generalizing n with
  | nil => simp
  | cons c cs ih =>
    calc 10 ^ (cs.length + 1) * n
      _ = 10 ^ cs.length * (10 * n) := by rw [Nat.pow_succ, Nat.mul_assoc]
      _ ≤ 10 ^ cs.length * (10 * n + digitValue c) := Nat.mul_le_mul_left _ (Nat.le_add_right _ _)
      _ ≤ _ := ih _

/-- Such digits are not too many if their value can be written. -/
theorem length_le_of_isNatural (h : Grammar.IsNatural cs) (hvalue : Printable (natValue cs)) :
    cs.length ≤ maxDigits := by
  obtain ⟨c, cs, rfl, hzero, hall⟩ := h
  obtain ⟨hlo, -⟩ := Symbol.isDigit_iff_toNat.1 (hall c (by simp))
  have hne : c.toNat ≠ 48 := fun heq => hzero (Char.toNat_inj.1 heq)
  have hpow : 10 ^ cs.length < 10 ^ maxDigits := by
    calc 10 ^ cs.length
      _ ≤ 10 ^ cs.length * digitValue c :=
        Nat.le_mul_of_pos_right _ (Nat.sub_pos_of_lt (Nat.lt_of_le_of_ne hlo hne.symm))
      _ ≤ natValue (c :: cs) := by simpa [natValue] using pow_length_mul_le_foldl cs (digitValue c)
      _ < 10 ^ maxDigits := printable_iff.1 hvalue
  exact (Nat.pow_lt_pow_iff_right (by decide)).1 hpow

end Numeral

/-- A value of an integer type can be written. -/
theorem IntType.printable_of_contains {t : IntType} {n : Int} (h : t.range.Contains n) :
    Numeral.Printable n := by
  have hlarge : Numeral.Printable 18446744073709551616 := by decide +kernel
  refine hlarge.of_natAbs_le ?_
  obtain ⟨hlo, hhi⟩ := h
  cases t <;> simp only [range] at hlo hhi <;> omega

end IntCalc
