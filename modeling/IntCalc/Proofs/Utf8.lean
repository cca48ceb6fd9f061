import IntCalc.Text.Utf8
import Mathlib.Data.List.Basic

/-!
# Texts and their bytes

A text is decoded from its bytes whatever pieces they arrive in (`Utf8.decode_append`), and
bytes of which nothing is left over are those of the text they give
(`Utf8.decode_eq_some_iff`). Both are proved character by character : `decode` is followed
through the one to four bytes of a character, and the bytes that make it up are put together
again.
-/

namespace IntCalc.Utf8

variable {pending q : Option Pending} {p : Pending} {c : Char} {chars more : List Char}
  {bytes front back : List UInt8} {b b₁ b₂ b₃ : UInt8} {n k m : Nat}

/-! ## Pieces -/

theorem decode_cons (h : step pending b = some (chars, q)) :
    decode pending (b :: bytes) = (decode q bytes).map fun (more, r) => (chars ++ more, r) := by
  rw [decode, h]
  simp only [Option.bind_eq_bind, Option.bind_some]
  cases decode q bytes <;> rfl

theorem decode_cons_eq_none (h : step pending b = none) : decode pending (b :: bytes) = none := by
  rw [decode, h]
  rfl

/-- Bytes are decoded piece by piece. -/
theorem decode_append (pending : Option Pending) (front back : List UInt8) :
    decode pending (front ++ back) = (decode pending front).bind fun (chars, q) =>
      (decode q back).map fun (more, r) => (chars ++ more, r) := by
  induction front generalizing pending with
  | nil =>
    simp only [List.nil_append, decode, Option.bind_some]
    cases decode pending back <;> rfl
  | cons b front ih =>
    cases hstep : step pending b with
    | none => simp only [List.cons_append, decode_cons_eq_none hstep, Option.bind_none]
    | some result =>
      obtain ⟨chars, q⟩ := result
      simp only [List.cons_append, decode_cons hstep, ih]
      cases decode q front with
      | none => rfl
      | some result =>
        obtain ⟨more, r⟩ := result
        simp only [Option.bind_some, Option.map_some]
        cases decode r back <;> simp

/-! ## Single steps -/

theorem toNat_ofNat (h : n < 256) : (UInt8.ofNat n).toNat = n :=
  UInt8.toNat_ofNat_of_lt' h

theorem step_ascii (h : b.toNat < 0x80) : step none b = some ([Char.ofNat b.toNat], none) := by
  rw [step, if_pos h]

theorem step_lead (hn : n < 256) (h : 0x80 ≤ n) (hp : ofLead? n = some p) :
    step none (UInt8.ofNat n) = some ([], some p) := by
  rw [step, toNat_ofNat hn, if_neg (Nat.not_lt.2 h), hp]
  rfl

/-- A byte in the middle of a character. -/
theorem step_further (hn : n < 64) (hlo : p.lo ≤ n + 0x80) (hhi : n + 0x80 ≤ p.hi)
    (hk : p.further = k + 1) :
    step (some p) (UInt8.ofNat (n + 0x80)) =
      some ([], some ⟨k, 0x80, 0xbf, 64 * p.bits + n⟩) := by
  rw [step, toNat_ofNat (by omega), Pending.step, if_pos ⟨hlo, hhi⟩, hk, Nat.add_sub_cancel]

/-- The last byte of a character. -/
theorem step_last (hn : n < 64) (hlo : p.lo ≤ n + 0x80) (hhi : n + 0x80 ≤ p.hi)
    (hk : p.further = 0) :
    step (some p) (UInt8.ofNat (n + 0x80)) = some ([Char.ofNat (64 * p.bits + n)], none) := by
  rw [step, toNat_ofNat (by omega), Pending.step, if_pos ⟨hlo, hhi⟩, hk, Nat.add_sub_cancel]

/-! ## Texts are decoded -/

/-- The bytes of a character give it back. -/
theorem decode_utf8EncodeChar (c : Char) :
    decode none (String.utf8EncodeChar c) = some ([c], none) := by
  have hvalid : c.toNat < 0xd800 ∨ 0xdfff < c.toNat ∧ c.toNat < 0x110000 := c.valid
  have hc : Char.ofNat c.toNat = c := Char.ofNat_toNat c
  have hval : c.val.toNat = c.toNat := rfl
  generalize c.toNat = v at *
  unfold String.utf8EncodeChar
  simp only [hval]
  split
  · have hv := toNat_ofNat (n := v) (by omega)
    rw [decode_cons (step_ascii (by omega)), hv, hc]
    rfl
  split
  · have hbits : 64 * (v / 64 % 32) + v % 64 = v := by omega
    rw [decode_cons (step_lead (by omega) (by omega) (if_pos (by omega))),
      decode_cons (step_last (by omega) (by simp) (by simp; omega) rfl), Nat.add_sub_cancel,
      hbits, hc]
    rfl
  split
  · have hbits : 64 * (64 * (v / 4096 % 16) + v / 64 % 64) + v % 64 = v := by omega
    rw [decode_cons (step_lead (by omega) (by omega)
        (by rw [ofLead?, if_neg (by omega), if_pos (by omega)])),
      decode_cons (step_further (by omega) (by dsimp only; split <;> omega)
        (by dsimp only; split <;> omega) rfl),
      decode_cons (step_last (by omega) (by simp) (by simp; omega) rfl), Nat.add_sub_cancel,
      hbits, hc]
    rfl
  · have hbits :
        64 * (64 * (64 * (v / 262144 % 8) + v / 4096 % 64) + v / 64 % 64) + v % 64 = v := by
      omega
    rw [decode_cons (step_lead (by omega) (by omega)
        (by rw [ofLead?, if_neg (by omega), if_neg (by omega), if_pos (by omega)])),
      decode_cons (step_further (by omega) (by dsimp only; split <;> omega)
        (by dsimp only; split <;> omega) rfl),
      decode_cons (step_further (by omega) (by simp) (by simp; omega) rfl),
      decode_cons (step_last (by omega) (by simp) (by simp; omega) rfl), Nat.add_sub_cancel,
      hbits, hc]
    rfl

/-- The bytes of a text give it back. -/
theorem decode_encode (chars : List Char) : decode none (encode chars) = some (chars, none) := by
  induction chars with
  | nil => rfl
  | cons c chars ih =>
    have hcons : encode (c :: chars) = String.utf8EncodeChar c ++ encode chars := rfl
    rw [hcons, decode_append, decode_utf8EncodeChar, Option.bind_some]
    dsimp only
    rw [ih]
    rfl

/-! ## Only texts are decoded -/

/-- The next byte of a character in the middle. -/
theorem eq_cons_of_decode_further (hk : p.further = k + 1)
    (h : decode (some p) bytes = some (chars, none)) :
    ∃ b rest, bytes = b :: rest ∧ p.lo ≤ b.toNat ∧ b.toNat ≤ p.hi ∧
      decode (some ⟨k, 0x80, 0xbf, 64 * p.bits + (b.toNat - 0x80)⟩) rest = some (chars, none) := by
  cases bytes with
  | nil => cases h
  | cons b rest =>
    by_cases hb : p.lo ≤ b.toNat ∧ b.toNat ≤ p.hi
    · have hstep : step (some p) b =
          some ([], some ⟨k, 0x80, 0xbf, 64 * p.bits + (b.toNat - 0x80)⟩) := by
        rw [step, Pending.step, if_pos hb, hk]
      rw [decode_cons hstep] at h
      simp only [List.nil_append, Option.map_id'] at h
      exact ⟨b, rest, rfl, hb.1, hb.2, h⟩
    · rw [decode_cons_eq_none (by rw [step, Pending.step, if_neg hb])] at h
      cases h

/-- The last byte of a character, and what is behind it. -/
theorem eq_cons_of_decode_last (hk : p.further = 0)
    (h : decode (some p) bytes = some (chars, none)) :
    ∃ b rest more, bytes = b :: rest ∧ p.lo ≤ b.toNat ∧ b.toNat ≤ p.hi ∧
      chars = Char.ofNat (64 * p.bits + (b.toNat - 0x80)) :: more ∧
      decode none rest = some (more, none) := by
  cases bytes with
  | nil => cases h
  | cons b rest =>
    by_cases hb : p.lo ≤ b.toNat ∧ b.toNat ≤ p.hi
    · have hstep : step (some p) b =
          some ([Char.ofNat (64 * p.bits + (b.toNat - 0x80))], none) := by
        rw [step, Pending.step, if_pos hb, hk]
      rw [decode_cons hstep] at h
      obtain ⟨⟨more, r⟩, hrest, heq⟩ := Option.map_eq_some_iff.1 h
      obtain ⟨rfl, rfl⟩ := Prod.mk.inj heq
      exact ⟨b, rest, more, rfl, hb.1, hb.2, rfl, hrest⟩
    · rw [decode_cons_eq_none (by rw [step, Pending.step, if_neg hb])] at h
      cases h

theorem toNat_val_ofNat (h : n < 0xd800 ∨ 0xdfff < n ∧ n < 0x110000) :
    (Char.ofNat n).val.toNat = n := by
  have hvalid : n.isValidChar := h
  rw [Char.ofNat, dif_pos hvalid]
  rfl

theorem ofNat_eq (h : n = b.toNat) : UInt8.ofNat n = b := by
  rw [h, UInt8.ofNat_toNat]

theorem utf8EncodeChar_one (hb : b.toNat < 0x80) :
    String.utf8EncodeChar (Char.ofNat b.toNat) = [b] := by
  unfold String.utf8EncodeChar
  simp only [toNat_val_ofNat (n := b.toNat) (by omega)]
  rw [if_pos (by omega), UInt8.ofNat_toNat]

theorem utf8EncodeChar_two (hb : 0xc2 ≤ b.toNat ∧ b.toNat ≤ 0xdf)
    (hb₁ : 0x80 ≤ b₁.toNat ∧ b₁.toNat ≤ 0xbf) :
    String.utf8EncodeChar (Char.ofNat (64 * (b.toNat - 0xc0) + (b₁.toNat - 0x80))) = [b, b₁] := by
  unfold String.utf8EncodeChar
  simp only [toNat_val_ofNat (n := 64 * (b.toNat - 0xc0) + (b₁.toNat - 0x80)) (by omega)]
  rw [if_neg (by omega), if_pos (by omega), ofNat_eq (b := b) (by omega),
    ofNat_eq (b := b₁) (by omega)]

/-- A lower bound that is raised for one number. -/
theorem le_and_le_of_ite_le {lo lo' : Nat} (hlo : lo ≤ lo')
    (h : (if n = k then lo' else lo) ≤ m) : lo ≤ m ∧ (n = k → lo' ≤ m) := by
  split at h <;> omega

/-- An upper bound that is lowered for one number. -/
theorem le_and_le_of_le_ite {hi hi' : Nat} (hhi : hi' ≤ hi)
    (h : m ≤ if n = k then hi' else hi) : m ≤ hi ∧ (n = k → m ≤ hi') := by
  split at h <;> omega

theorem utf8EncodeChar_three (hb : 0xe0 ≤ b.toNat ∧ b.toNat ≤ 0xef)
    (hb₁ : (if b.toNat = 0xe0 then 0xa0 else 0x80) ≤ b₁.toNat ∧
      b₁.toNat ≤ if b.toNat = 0xed then 0x9f else 0xbf)
    (hb₂ : 0x80 ≤ b₂.toNat ∧ b₂.toNat ≤ 0xbf) :
    String.utf8EncodeChar (Char.ofNat
      (64 * (64 * (b.toNat - 0xe0) + (b₁.toNat - 0x80)) + (b₂.toNat - 0x80))) = [b, b₁, b₂] := by
  have hlo := le_and_le_of_ite_le (by decide) hb₁.1
  have hhi := le_and_le_of_le_ite (by decide) hb₁.2
  unfold String.utf8EncodeChar
  simp only [toNat_val_ofNat
    (n := 64 * (64 * (b.toNat - 0xe0) + (b₁.toNat - 0x80)) + (b₂.toNat - 0x80)) (by omega)]
  rw [if_neg (by omega), if_neg (by omega), if_pos (by omega), ofNat_eq (b := b) (by omega),
    ofNat_eq (b := b₁) (by omega), ofNat_eq (b := b₂) (by omega)]

theorem utf8EncodeChar_four (hb : 0xf0 ≤ b.toNat ∧ b.toNat ≤ 0xf4)
    (hb₁ : (if b.toNat = 0xf0 then 0x90 else 0x80) ≤ b₁.toNat ∧
      b₁.toNat ≤ if b.toNat = 0xf4 then 0x8f else 0xbf)
    (hb₂ : 0x80 ≤ b₂.toNat ∧ b₂.toNat ≤ 0xbf) (hb₃ : 0x80 ≤ b₃.toNat ∧ b₃.toNat ≤ 0xbf) :
    String.utf8EncodeChar (Char.ofNat
      (64 * (64 * (64 * (b.toNat - 0xf0) + (b₁.toNat - 0x80)) + (b₂.toNat - 0x80)) +
        (b₃.toNat - 0x80))) = [b, b₁, b₂, b₃] := by
  have hlo := le_and_le_of_ite_le (by decide) hb₁.1
  have hhi := le_and_le_of_le_ite (by decide) hb₁.2
  unfold String.utf8EncodeChar
  simp only [toNat_val_ofNat (n := 64 * (64 * (64 * (b.toNat - 0xf0) + (b₁.toNat - 0x80)) +
    (b₂.toNat - 0x80)) + (b₃.toNat - 0x80)) (by omega)]
  rw [if_neg (by omega), if_neg (by omega), if_neg (by omega), ofNat_eq (b := b) (by omega),
    ofNat_eq (b := b₁) (by omega), ofNat_eq (b := b₂) (by omega), ofNat_eq (b := b₃) (by omega)]

/-- The first character of a text, and the bytes behind it. -/
theorem exists_char_of_decode (h : decode none (b :: bytes) = some (chars, none)) :
    ∃ c more rest, chars = c :: more ∧ b :: bytes = String.utf8EncodeChar c ++ rest ∧
      decode none rest = some (more, none) := by
  by_cases hb : b.toNat < 0x80
  · rw [decode_cons (step_ascii hb)] at h
    obtain ⟨⟨more, r⟩, hrest, heq⟩ := Option.map_eq_some_iff.1 h
    obtain ⟨rfl, rfl⟩ := Prod.mk.inj heq
    exact ⟨_, more, bytes, rfl, by rw [utf8EncodeChar_one hb]; rfl, hrest⟩
  cases hp : ofLead? b.toNat with
  | none =>
    rw [decode_cons_eq_none (by rw [step, if_neg hb, hp]; rfl)] at h
    cases h
  | some p =>
    have hstep : step none b = some ([], some p) := by
      rw [step, if_neg hb, hp]
      rfl
    rw [decode_cons hstep] at h
    simp only [List.nil_append, Option.map_id'] at h
    -- One to three more bytes belong to the character.
    unfold ofLead? at hp
    split at hp
    · next hb =>
      obtain rfl := Option.some.inj hp
      obtain ⟨b₁, rest, more, rfl, hlo₁, hhi₁, rfl, hrest⟩ := eq_cons_of_decode_last rfl h
      exact ⟨_, more, rest, rfl, by rw [utf8EncodeChar_two hb ⟨hlo₁, hhi₁⟩]; rfl, hrest⟩
    split at hp
    · next hb =>
      obtain rfl := Option.some.inj hp
      obtain ⟨b₁, rest, rfl, hlo₁, hhi₁, h⟩ := eq_cons_of_decode_further rfl h
      obtain ⟨b₂, rest, more, rfl, hlo₂, hhi₂, rfl, hrest⟩ := eq_cons_of_decode_last rfl h
      exact ⟨_, more, rest, rfl,
        by rw [utf8EncodeChar_three hb ⟨hlo₁, hhi₁⟩ ⟨hlo₂, hhi₂⟩]; rfl, hrest⟩
    split at hp
    · next hb =>
      obtain rfl := Option.some.inj hp
      obtain ⟨b₁, rest, rfl, hlo₁, hhi₁, h⟩ := eq_cons_of_decode_further rfl h
      obtain ⟨b₂, rest, rfl, hlo₂, hhi₂, h⟩ := eq_cons_of_decode_further rfl h
      obtain ⟨b₃, rest, more, rfl, hlo₃, hhi₃, rfl, hrest⟩ := eq_cons_of_decode_last rfl h
      exact ⟨_, more, rest, rfl,
        by rw [utf8EncodeChar_four hb ⟨hlo₁, hhi₁⟩ ⟨hlo₂, hhi₂⟩ ⟨hlo₃, hhi₃⟩]; rfl, hrest⟩
    · cases hp

/-- Bytes of which nothing is left over are those of the text they give. -/
theorem encode_of_decode (h : decode none bytes = some (chars, none)) : encode chars = bytes := by
  induction hlength : bytes.length using Nat.strongRecOn generalizing bytes chars with
  | ind n ih =>
    subst hlength
    cases bytes with
    | nil =>
      obtain ⟨rfl, -⟩ := Prod.mk.inj (Option.some.inj h)
      rfl
    | cons b bytes =>
      obtain ⟨c, more, rest, rfl, hbytes, hrest⟩ := exists_char_of_decode h
      have hshorter : rest.length < (b :: bytes).length := by
        have := List.length_pos_of_ne_nil (String.utf8EncodeChar_ne_nil (c := c))
        rw [hbytes, List.length_append]
        omega
      rw [hbytes, ← ih _ hshorter hrest rfl]
      rfl

/-- The bytes of a string. -/
theorem toList_toUTF8 (text : String) : text.toUTF8.data.toList = encode text.toList := by
  rw [String.toUTF8_eq_toByteArray, ← String.utf8Encode_toList, List.utf8Encode, encode]
  simp

/-- Bytes are those of a text if they give it and nothing is left over. -/
theorem decode_eq_some_iff {text : String} :
    decode none bytes = some (text.toList, none) ↔ bytes = text.toUTF8.data.toList := by
  rw [toList_toUTF8]
  exact ⟨fun h => (encode_of_decode h).symm, fun h => h ▸ decode_encode _⟩

end IntCalc.Utf8
