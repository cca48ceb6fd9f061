import IntCalc.Proofs.Files
import Mathlib.Data.List.Forall2

/-!
# Table libraries

The program knows of a table library only what is documented of it. A table holds the rows that
it is made of, apart from numbers of more than 53 bits, and a table of other numbers can be made
(`TableLibrary.Tables`). Saving a table touches nothing but the place of its path
(`TableLibrary.Saves`). The reference library is of this kind (`TableLibrary.reference_tables`,
`TableLibrary.reference_saves`).
-/

namespace IntCalc

variable {rows : List Row}

/-! ## Documented behaviour -/

/-- An optional number of at most 53 bits. -/
def SmallNumber (number : Option Int) : Prop :=
  ∀ n, number = some n → n.natAbs < 9007199254740992

/-- A stored number is missing if the number is, and it is the number if that is small. -/
structure KeepsNumber (number stored : Option Int) : Prop where
  gap : stored = none ↔ number = none
  small : SmallNumber number → stored = number

/-- A row of a table and the row that it is made of. -/
structure Row.Keeps (row stored : Row) : Prop where
  expression : stored.expression = row.expression
  stage : stored.stage = row.stage
  status : stored.status = row.status
  column : KeepsNumber row.column stored.column
  value : KeepsNumber row.value stored.value
  message : stored.message = row.message

/-- What is documented of the tables of a library. -/
structure TableLibrary.Tables (library : TableLibrary) : Prop where
  /-- A table has the rows that it is made of. -/
  keeps : ∀ {rows table}, library.table rows = .ok table → List.Forall₂ Row.Keeps rows table
  /-- There is a table of rows with small numbers. -/
  exists_table : ∀ {rows : List Row},
    (∀ row ∈ rows, SmallNumber row.column ∧ SmallNumber row.value) →
      ∃ table, library.table rows = .ok table

/-- What is documented of saving with a library. -/
structure TableLibrary.Saves (library : TableLibrary) : Prop where
  /-- Only what stands at the place of the path changes. -/
  place : ∀ {files : FileArea} {path text : String} {place : List String},
    (library.save files path text).files.node? place ≠ files.node? place →
      files.place (files.expandHome path) = .ok place
  /-- Nothing is written to the standard output unless the path leads there. -/
  output : ∀ {files : FileArea} {path text : String},
    (library.save files path text).files.output ≠ files.output →
      ∃ place, files.place (files.expandHome path) = .ok place ∧ files.node? place = some .output

/-! ## The reference library -/

theorem keepsNumber_map_kept (s : Storage) (number : Option Int) :
    KeepsNumber number (number.map s.kept) := by
  refine ⟨Option.map_eq_none_iff, fun h => ?_⟩
  cases number with
  | none => rfl
  | some n => rw [Option.map_some, s.kept_eq_self (h n rfl)]

theorem Row.keeps_storedAs (columns values : Storage) (row : Row) :
    row.Keeps (row.storedAs columns values) :=
  ⟨rfl, rfl, rfl, keepsNumber_map_kept columns row.column, keepsNumber_map_kept values row.value,
    rfl⟩

theorem NumberColumn.small_map {number : Row → Option Int}
    (h : ∀ row ∈ rows, SmallNumber (number row)) : Small (rows.map number) := by
  intro n hn
  obtain ⟨row, hrow, hnumber⟩ := List.mem_map.1 hn
  exact h row hrow n hnumber

namespace TableLibrary

/-- The reference library makes tables as is documented. -/
theorem reference_tables : reference.Tables where
  keeps {rows table} h := by
    obtain ⟨-, -, h⟩ := bind_eq_ok_iff.1 (mapError_eq_ok_iff.1 h)
    obtain ⟨-, -, h⟩ := bind_eq_ok_iff.1 h
    rw [← Except.ok.inj h, List.forall₂_map_right_iff]
    exact List.forall₂_same.2 fun row _ => row.keeps_storedAs _ _
  exists_table {rows} h := by
    have hcolumns := NumberColumn.check_storage_of_small
      (NumberColumn.small_map fun row hrow => (h row hrow).1)
    have hvalues := NumberColumn.check_storage_of_small
      (NumberColumn.small_map fun row hrow => (h row hrow).2)
    have hstored : ∃ table, stored rows = .ok table := by
      rw [stored, hcolumns, hvalues]
      exact ⟨_, rfl⟩
    obtain ⟨table, htable⟩ := hstored
    exact ⟨table, mapError_eq_ok_iff.2 htable⟩

/-- The reference library saves as is documented. -/
theorem reference_saves : reference.Saves where
  place {files path text place} h := by
    simp only [reference] at h
    split at h
    · next hsave => exact FileArea.place_of_save hsave h
    · exact absurd rfl h
  output {files path text} h := by
    simp only [reference] at h
    split at h
    · next hsave => exact FileArea.output_of_save hsave h
    · exact absurd rfl h

end TableLibrary

end IntCalc
