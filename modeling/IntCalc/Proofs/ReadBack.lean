import IntCalc.Csv
import IntCalc.Proofs.Csv
import IntCalc.Proofs.Dialogue
import IntCalc.Proofs.Messages
import IntCalc.Proofs.Reports
import IntCalc.Proofs.Streams

/-!
# Saved reports are read back

A report on texts without returns is read back from its written form, record by record
(`Report.read_csv_evaluateAll`), if the library holds tables and writes them as is documented :
with quotes only around fields that need them, a newline behind each record and empty fields for
missing numbers. What a record says of an outcome is `Outcome.ReadsAs`.

Everything but the text in such a record is a line. The texts of a file have no returns, and
neither have those of a stream in which every return stands in front of a newline. Any other
return stays in the text of a stream, and ends its record.
-/

namespace IntCalc

open Text

variable {c : Calculator} {text : String} {texts : List String} {o : Outcome} {row : Row}
  {rows : List Row} {number : Option Int} {library : TableLibrary}

/-! ## Outcomes -/

theorem EvalStatus.name_eq_ok_iff {status : EvalStatus} : status.name = "OK" ↔ status = .ok := by
  cases status <;> decide

theorem ParseStatus.name_eq_ok_iff {status : ParseStatus} : status.name = "OK" ↔ status = .ok := by
  cases status <;> decide

namespace Outcome

theorem shownColumn_eq_none_iff : o.shownColumn = none ↔ o.stage = .evaluate := by
  unfold shownColumn stage
  cases o.eval <;> simp

/-- A reader counts columns from one. -/
theorem shownColumn_eq (o : Outcome) : o.shownColumn = o.column.map (· + 1) := by
  unfold shownColumn column
  cases o.eval <;> rfl

/-- The record that is read back for an outcome. Its column is counted from one, is empty
exactly if the text was evaluated, and is a number unless the text is very long. Its value is
empty exactly if the status is not good. -/
def ReadsAs (o : Outcome) (record : List (List Char)) : Prop :=
  ∃ column value : String,
    record = [o.expression, o.stage.name, o.statusName, column, value, o.message].map
      String.toList ∧
    (column = "" ↔ o.stage = .evaluate) ∧
    (o.expression.length + 1 < 9007199254740992 →
      Numeral.toInt? column = o.column.map (· + 1)) ∧
    (value = "" ↔ o.statusName ≠ "OK") ∧
    Numeral.toInt? value = o.value

end Outcome

namespace Calculator

theorem expression_outcome (c : Calculator) (text : String) :
    (c.outcome text).expression = text := by
  by_cases hok : (c.parse text).ok
  · obtain ⟨rpn, result, -, -, -, ho⟩ := exists_outcome_of_ok hok
    rw [ho]
  · rw [outcome_of_not_ok hok]

/-- What the calculator says to a text has a value exactly if its status is good. -/
theorem value_eq_none_iff :
    (c.outcome text).value = none ↔ (c.outcome text).statusName ≠ "OK" := by
  by_cases hok : (c.parse text).ok
  · obtain ⟨rpn, result, -, -, -, ho⟩ := exists_outcome_of_ok hok
    rw [ho, Outcome.statusName, Ne, EvalStatus.name_eq_ok_iff]
    simp [Outcome.value, EvalResult.ok]
  · have hstatus : (c.parse text).status ≠ .ok := mt ParseResult.ok_iff.2 hok
    rw [outcome_of_not_ok hok, Outcome.statusName, Ne, ParseStatus.name_eq_ok_iff]
    exact iff_of_true rfl hstatus

end Calculator

/-! ## Records -/

namespace Row

theorem numberText_eq_empty_iff : numberText number = "" ↔ number = none := by
  cases number with
  | none => exact iff_of_true rfl rfl
  | some n => exact iff_of_false (Numeral.ofInt_ne_empty n) (Option.some_ne_none n)

theorem isLine_numberText (number : Option Int) : IsLine (numberText number).toList := by
  cases number with
  | none => decide
  | some n => exact Numeral.isLine_ofInt n

/-- The text of a small number is read as the number, and that of none as none. -/
theorem toInt?_numberText (h : SmallNumber number) :
    Numeral.toInt? (numberText number) = number := by
  cases number with
  | none => decide
  | some n =>
    have hlarge : Numeral.Printable 9007199254740992 := by decide +kernel
    exact Numeral.toInt?_ofInt (hlarge.of_natAbs_le (Nat.le_of_lt (h n rfl)))

/-- Only the expression of a row can have a return in it. -/
theorem return_not_mem_fields (h : (ofOutcome o).Keeps row) (hreturn : '\r' ∉ o.expression.toList) :
    ∀ field ∈ row.fields, '\r' ∉ field := by
  have hline : ∀ {l : List Char}, IsLine l → '\r' ∉ l := fun hl hreturn => (hl _ hreturn).1 rfl
  simp only [fields, h.expression, h.stage, h.status, h.message, List.map_cons, List.map_nil,
    List.forall_mem_cons, List.not_mem_nil, false_imp_iff, implies_true, and_true]
  exact ⟨hreturn, hline (Stage.isLine_name _), hline o.isLine_statusName,
    hline (isLine_numberText _), hline (isLine_numberText _), hline o.isLine_message⟩

/-- The fields of a row that has been kept are those of its outcome. -/
theorem readsAs_fields (hbits : c.bounded.bits < 64)
    (h : (ofOutcome (c.outcome text)).Keeps row) : (c.outcome text).ReadsAs row.fields := by
  refine ⟨numberText row.column, numberText row.value, ?_, ?_, fun hlength => ?_, ?_, ?_⟩
  · rw [fields, h.expression, h.stage, h.status, h.message]
    rfl
  · rw [numberText_eq_empty_iff, h.column.gap]
    exact Outcome.shownColumn_eq_none_iff
  · rw [c.expression_outcome] at hlength
    have hsmall : SmallNumber (ofOutcome (c.outcome text)).column :=
      Calculator.small_shownColumn hlength
    rw [h.column.small hsmall, toInt?_numberText hsmall]
    exact (c.outcome text).shownColumn_eq
  · rw [numberText_eq_empty_iff, h.value.gap]
    exact Calculator.value_eq_none_iff
  · have hsmall : SmallNumber (ofOutcome (c.outcome text)).value :=
      Calculator.small_value hbits text
    rw [h.value.small hsmall, toInt?_numberText hsmall]
    rfl

end Row

namespace Report

/-- Rows without returns are read back from their written form. -/
theorem read_render (h : ∀ row ∈ rows, ∀ field ∈ row.fields, '\r' ∉ field) :
    Csv.read (Csv.render (records rows)) = records rows := by
  refine Csv.read_render (List.forall_mem_cons.2 ⟨by decide, fun fields hfields => ?_⟩)
  obtain ⟨row, hrow, rfl⟩ := List.mem_map.1 hfields
  exact ⟨List.cons_ne_nil _ _, h row hrow⟩

/-- The rows of a table on texts without returns. -/
theorem forall₂_fields (hlibrary : library.Tables) (hbits : c.bounded.bits < 64)
    (hreturn : ∀ text ∈ texts, '\r' ∉ text.toList)
    (h : ofOutcomes library (texts.map c.outcome) = .ok rows) :
    List.Forall₂ (fun text row => (c.outcome text).ReadsAs row.fields ∧
      ∀ field ∈ row.fields, '\r' ∉ field) texts rows := by
  have hkeeps := hlibrary.keeps h
  rw [List.forall₂_map_left_iff, List.forall₂_map_left_iff] at hkeeps
  refine ((List.forall₂_and_left texts rows).2 ⟨hreturn, hkeeps⟩).imp fun text row hrow => ?_
  have hexpression : '\r' ∉ (c.outcome text).expression.toList := by
    rw [c.expression_outcome]
    exact hrow.1
  exact ⟨Row.readsAs_fields hbits hrow.2, Row.return_not_mem_fields hrow.2 hexpression⟩

/-- The texts of a file have no returns, and neither have those of a stream in which every
return stands in front of a newline. The written form of a report on texts without returns is
read back as the header and then one record for each text, in order, with the text, the stage,
the name of the status, the column, the value and the message. Such a report can be made unless
a text is very long. -/
theorem read_csv_evaluateAll (hlibrary : library.Tables)
    (hcsv : ∀ rows, library.csv rows = String.ofList (Csv.render (records rows))) (n : Int)
    (texts : List String) :
    (∀ quit stream, Input.ofStream? quit stream = some texts →
      (stream.newlines = .universal ∨
        ∃ text : String, stream.bytes = text.toUTF8.data.toList ∧ ReturnsPaired text.toList) →
      ∀ text ∈ texts, '\r' ∉ text.toList) ∧
    ((∀ text ∈ texts, '\r' ∉ text.toList) →
      ∃ outcomes s, (Session.ofCacheSize n).evaluateAll texts = .ok (outcomes, s) ∧
        outcomes.map Outcome.expression = texts ∧
        (∀ rows, ofOutcomes library outcomes = .ok rows →
          ∃ records, Csv.read (library.csv rows).toList = header.map String.toList :: records ∧
            List.Forall₂ Outcome.ReadsAs outcomes records) ∧
        ((∀ text ∈ texts, text.length + 1 < 9007199254740992) →
          ∃ rows, ofOutcomes library outcomes = .ok rows)) := by
  have hbits : ({} : Calculator).bounded.bits < 64 := by decide
  refine ⟨fun quit stream => Input.return_not_mem, fun hreturn => ?_⟩
  · refine ⟨_, _, Session.evaluateAll_eq_ok (s := Session.ofCacheSize n) (Cache.agrees_empty _ n)
      texts, by simp [Function.comp_def, Calculator.expression_outcome], fun rows hrows => ?_,
      Calculator.exists_ofOutcomes hlibrary hbits⟩
    have hfields := forall₂_fields hlibrary hbits hreturn hrows
    have hlines : List.Forall₂ (fun row (_ : String) =>
        (∀ field ∈ row.fields, '\r' ∉ field) ∧ True) rows texts :=
      hfields.flip.imp fun _ _ h => ⟨h.2, trivial⟩
    refine ⟨rows.map Row.fields, ?_, ?_⟩
    · rw [hcsv, String.toList_ofList, read_render ((List.forall₂_and_left rows texts).1 hlines).1]
      rfl
    · rw [List.forall₂_map_left_iff, List.forall₂_map_right_iff]
      exact hfields.imp fun _ _ h => h.1

/-- Three lines of a file, one of them empty and one with a comma and quotes in it, behind a
text of two lines. -/
theorem read_csv_evaluateAll_quotes :
    let lines := ["2^3^2", "", "(1,\"2\""]
    let texts := "200*200\n" :: lines
    Input.ofBytes? ["q"] "2^3^2\r\r(1,\"2\"\r\nq".toUTF8 = some lines ∧
      (∀ text ∈ texts, '\r' ∉ text.toList) ∧
      (∀ text ∈ texts, text.length + 1 < 9007199254740992) ∧
      ∃ outcomes s rows records,
        (Session.ofCacheSize 2).evaluateAll texts = .ok (outcomes, s) ∧
        ofOutcomes .reference outcomes = .ok rows ∧
        Csv.read (TableLibrary.reference.csv rows).toList = header.map String.toList :: records ∧
        List.Forall₂ Outcome.ReadsAs outcomes records := by
  intro lines texts
  have hlibrary := TableLibrary.reference_tables
  have hbytes : Input.ofBytes? ["q"] "2^3^2\r\r(1,\"2\"\r\nq".toUTF8 = some lines := by
    rw [Input.ofBytes?_toUTF8]
    decide +kernel
  have hlines := (read_csv_evaluateAll hlibrary (fun _ => rfl) 2 lines).1 _ _ hbytes (Or.inl rfl)
  have hreturn : ∀ text ∈ texts, '\r' ∉ text.toList :=
    List.forall_mem_cons.2 ⟨by decide, hlines⟩
  have hlength : ∀ text ∈ texts, text.length + 1 < 9007199254740992 := by decide +kernel
  obtain ⟨outcomes, s, hevaluate, -, hread, hrows⟩ :=
    (read_csv_evaluateAll hlibrary (fun _ => rfl) 2 texts).2 hreturn
  obtain ⟨rows, hrows⟩ := hrows hlength
  obtain ⟨records, hread, hrecords⟩ := hread rows hrows
  exact ⟨hbytes, hreturn, hlength, outcomes, s, rows, records, hevaluate, hrows, hread, hrecords⟩

/-- A return that stands alone stays in the text of a stream. It ends the record of the text,
which is not in quotes for it : one text has two records, and the header is a third one. -/
theorem exists_return_mem_ofStream? :
    let stream : TextStream := ⟨["1\r2\n".toUTF8.data.toList], .newlineOnly⟩
    Input.ofStream? Settings.default.quitCommands stream = some ["1\r2"] ∧
      '\r' ∈ "1\r2".toList ∧
      ∃ outcomes s rows, Session.evaluateAll {} ["1\r2"] = .ok (outcomes, s) ∧
        ofOutcomes .reference outcomes = .ok rows ∧
        (Csv.read (TableLibrary.reference.csv rows).toList).length = 3 := by
  intro stream
  let outcomes := [Calculator.outcome {} "1\r2"]
  have houtcomes := Session.evaluateAll_eq_ok (s := {})
    (Cache.agrees_empty (Calculator.outcome {}) Settings.default.cacheSize) ["1\r2"]
  have hrows : ofOutcomes .reference outcomes = .ok (outcomes.map Row.ofOutcome) := by
    decide +kernel
  exact ⟨by decide +kernel, by decide, outcomes, _, _, houtcomes, hrows, by decide +kernel⟩

end Report

end IntCalc
