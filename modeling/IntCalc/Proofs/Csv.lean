import IntCalc.Csv.Reader

/-!
# Tables are read back

The reader stores a written field (`Reader.exists_foldl_step_field`), then the fields of a
record (`Reader.foldl_step_record`) and then the records of a table, so a table is read back
from its written form (`Csv.read_render`). Returns are written without quotes and would end a
record, and a record without fields would be read as one with an empty field. So there is no
return in a field, and every record has one.
-/

namespace IntCalc.Csv

variable {r : Reader} {c : Char} {f cs : List Char} {fs : List (List Char)}

/-! ## Written fields -/

theorem field_of_needsQuotes (h : needsQuotes f = true) :
    field f = '"' :: f.flatMap escapeChar ++ ['"'] :=
  if_pos h

theorem field_of_not_needsQuotes (h : needsQuotes f = false) : field f = f :=
  if_neg (by simp [h])

/-- Without quotes a field is written in characters that mean nothing else. -/
theorem plain_of_not_needsQuotes (h : needsQuotes f = false) (hreturn : '\r' ∉ f) :
    ∀ c ∈ f, c ≠ ',' ∧ c ≠ '"' ∧ c ≠ '\n' ∧ c ≠ '\r' := by
  intro c hc
  have hplain : ¬(c = ',' ∨ c = '"' ∨ c = '\n') := fun hspecial =>
    List.any_eq_false.1 h c hc (decide_eq_true hspecial)
  exact ⟨fun heq => hplain (Or.inl heq), fun heq => hplain (Or.inr (Or.inl heq)),
    fun heq => hplain (Or.inr (Or.inr heq)), fun heq => hreturn (heq ▸ hc)⟩

theorem fields_cons_cons (f g : List Char) (fs : List (List Char)) :
    fields (f :: g :: fs) = field f ++ ',' :: fields (g :: fs) :=
  rfl

theorem record_cons_cons (f g : List Char) (fs : List (List Char)) :
    record (f :: g :: fs) = field f ++ ',' :: record (g :: fs) := by
  simp [record, fields_cons_cons]

/-! ## Reading a field -/

/-- Outside quotes, and not behind a return. -/
def Mode.Outside (m : Mode) : Prop :=
  m ≠ .quoted ∧ m ≠ .afterReturn

instance (m : Mode) : Decidable m.Outside :=
  inferInstanceAs (Decidable (_ ∧ _))

namespace Reader

/-- The reader is in front of a field. -/
def InFront (r : Reader) : Prop :=
  r.field = [] ∧ (r.mode = .recordStart ∨ r.mode = .fieldStart)

theorem InFront.outside (h : r.InFront) : r.mode.Outside := by
  rcases h.2 with h | h <;> rw [h] <;> decide

theorem step_of_outside (h : r.mode.Outside) (hc : c ≠ '"') : r.step c = r.outside c := by
  unfold step
  split
  · exact if_neg hc
  · exact if_neg hc
  · next hmode => exact absurd hmode h.2
  · rfl
  · next hmode => exact absurd hmode h.1
  · exact if_neg hc

/-- Characters that mean nothing else are added to the field. -/
theorem exists_foldl_step_plain (h : r.mode.Outside)
    (hcs : ∀ c ∈ cs, c ≠ ',' ∧ c ≠ '"' ∧ c ≠ '\n' ∧ c ≠ '\r') :
    ∃ mode, cs.foldl step r = { r with field := cs.reverse ++ r.field, mode := mode } ∧
      mode.Outside := by
  induction cs generalizing r with
  | nil => exact ⟨r.mode, rfl, h⟩
  | cons c cs ih =>
    obtain ⟨⟨hcomma, hquote, hnewline, hreturn⟩, hcs⟩ := List.forall_mem_cons.1 hcs
    have hstep : r.step c = r.push c .bare := by
      rw [step_of_outside h hquote, outside, if_neg hcomma, if_neg hnewline, if_neg hreturn]
    obtain ⟨mode, hmode, houtside⟩ := ih (r := r.push c .bare) (by decide : Mode.bare.Outside) hcs
    refine ⟨mode, ?_, houtside⟩
    rw [List.foldl_cons, hstep, hmode, List.reverse_cons, List.append_assoc]
    rfl

/-- Between quotes the characters of a field are read back. -/
theorem foldl_step_escaped (h : r.mode = .quoted) (cs : List Char) :
    (cs.flatMap escapeChar).foldl step r = { r with field := cs.reverse ++ r.field } := by
  induction cs generalizing r with
  | nil => rfl
  | cons c cs ih =>
    have hstep : (escapeChar c).foldl step r = r.push c .quoted := by
      by_cases hc : c = '"' <;> simp [escapeChar, step, push, h, hc]
    rw [List.flatMap_cons, List.foldl_append, hstep, ih (r := r.push c .quoted) rfl,
      List.reverse_cons, List.append_assoc]
    simp [push, h]

/-- A written field is stored. -/
theorem exists_foldl_step_field (h : r.InFront) (hreturn : '\r' ∉ f) :
    ∃ mode, (Csv.field f).foldl step r = { r with field := f.reverse, mode := mode } ∧
      mode.Outside := by
  cases hquotes : needsQuotes f with
  | true =>
    have hopen : r.step '"' = { r with mode := .quoted } := by
      rcases h.2 with hmode | hmode <;> simp [step, hmode]
    have hinside : ('"' :: f.flatMap escapeChar).foldl step r =
        { r with field := f.reverse, mode := .quoted } := by
      rw [List.foldl_cons, hopen, foldl_step_escaped (r := { r with mode := .quoted }) rfl, h.1,
        List.append_nil]
    refine ⟨.quoteSeen, ?_, by decide⟩
    rw [field_of_needsQuotes hquotes, List.foldl_append, hinside]
    rfl
  | false =>
    obtain ⟨mode, hfield, hmode⟩ :=
      exists_foldl_step_plain h.outside (plain_of_not_needsQuotes hquotes hreturn)
    rw [h.1, List.append_nil] at hfield
    exact ⟨mode, by rw [field_of_not_needsQuotes hquotes, hfield], hmode⟩

/-- A comma behind a field leaves the reader in front of the next one. -/
theorem foldl_step_comma (h : r.InFront) (hreturn : '\r' ∉ f) :
    (Csv.field f ++ [',']).foldl step r =
      { r with fields := f :: r.fields, field := [], mode := .fieldStart } := by
  obtain ⟨mode, hfield, hmode⟩ := exists_foldl_step_field h hreturn
  rw [List.foldl_append, hfield, List.foldl_cons, step_of_outside hmode (by decide)]
  simp [outside, endField]

/-- A newline behind a field ends the record. -/
theorem foldl_step_newline (h : r.InFront) (hreturn : '\r' ∉ f) :
    (Csv.field f ++ ['\n']).foldl step r = { records := (f :: r.fields).reverse :: r.records } := by
  obtain ⟨mode, hfield, hmode⟩ := exists_foldl_step_field h hreturn
  rw [List.foldl_append, hfield, List.foldl_cons, step_of_outside hmode (by decide)]
  simp [outside, endRecord, endField]

/-! ## Reading a table -/

/-- A record is stored behind the fields that are there. -/
theorem foldl_step_record (h : r.InFront) (hne : fs ≠ []) (hfs : ∀ f ∈ fs, '\r' ∉ f) :
    (record fs).foldl step r = { records := (r.fields.reverse ++ fs) :: r.records } := by
  induction fs generalizing r with
  | nil => exact absurd rfl hne
  | cons f fs ih =>
    obtain ⟨hf, hfs⟩ := List.forall_mem_cons.1 hfs
    cases fs with
    | nil =>
      have hlast := foldl_step_newline h hf
      rwa [List.reverse_cons] at hlast
    | cons g fs =>
      rw [record_cons_cons, List.append_cons, List.foldl_append, foldl_step_comma h hf,
        ih ⟨rfl, Or.inr rfl⟩ (List.cons_ne_nil g fs) hfs, List.reverse_cons, List.append_assoc]
      rfl

theorem foldl_step_render {table : List (List (List Char))}
    (h : ∀ fs ∈ table, fs ≠ [] ∧ ∀ f ∈ fs, '\r' ∉ f) (records : List (List (List Char))) :
    (render table).foldl step { records := records } =
      { records := table.reverse ++ records } := by
  induction table generalizing records with
  | nil => rfl
  | cons fs table ih =>
    obtain ⟨⟨hne, hfs⟩, htable⟩ := List.forall_mem_cons.1 h
    have hrecord := foldl_step_record (r := { records := records }) ⟨rfl, Or.inl rfl⟩ hne hfs
    rw [render, List.flatMap_cons, List.foldl_append, hrecord, List.reverse_cons,
      List.append_assoc]
    exact ih htable (fs :: records)

end Reader

/-- A table is read back from its written form. -/
theorem read_render {table : List (List (List Char))}
    (h : ∀ fs ∈ table, fs ≠ [] ∧ ∀ f ∈ fs, '\r' ∉ f) : read (render table) = table := by
  rw [read, Reader.foldl_step_render h, List.append_nil]
  exact List.reverse_reverse table

/-- Commas, quotes and line ends inside fields, an empty field and one of quotes only. -/
example : read (render [["a,b".toList, [], "\"".toList], ["x\ny".toList, "\"\"".toList]]) =
    [["a,b".toList, [], "\"".toList], ["x\ny".toList, "\"\"".toList]] := by
  decide

end IntCalc.Csv
