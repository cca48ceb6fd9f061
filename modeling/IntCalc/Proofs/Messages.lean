import IntCalc.Outcome
import IntCalc.Proofs.Numerals
import IntCalc.Text.Terminator

/-!
# Messages

The decimal form of an integer has digits and a sign only. So what is shown for an outcome fits
on one line : no message has a line end in it (`Outcome.isLine_message`), and neither has the
name of a stage or of a status.
-/

namespace IntCalc

open Text

namespace Numeral

theorem isLine_ofInt (n : Int) : IsLine (ofInt n).toList := by
  intro c hc
  constructor <;> rintro rfl <;> exact absurd (eq_minus_or_isDigit hc) (by decide)

end Numeral

/-! ## Outcomes -/

theorem Text.isLine_append {l m : List Char} : IsLine (l ++ m) ↔ IsLine l ∧ IsLine m :=
  List.forall_mem_append

theorem ParseResult.isLine_message (r : ParseResult) : IsLine r.message.toList := by
  have hcolumn : IsLine ("(" ++ Numeral.ofInt r.shownColumn ++ ")!").toList := by
    rw [String.toList_append, String.toList_append, isLine_append, isLine_append]
    exact ⟨⟨by decide +kernel, Numeral.isLine_ofInt _⟩, by decide +kernel⟩
  unfold message
  cases r.status with
  | ok =>
    dsimp only
    decide +kernel
  | _ =>
    dsimp only
    rw [String.toList_append, isLine_append]
    exact ⟨by decide +kernel, hcolumn⟩

theorem Outcome.isLine_message (o : Outcome) : IsLine o.message.toList := by
  unfold message
  split
  · exact o.parse.isLine_message
  · next r _ =>
    split
    · exact Numeral.isLine_ofInt _
    · cases r.status <;> decide +kernel

theorem Stage.isLine_name (s : Stage) : IsLine s.name.toList := by
  cases s <;> decide +kernel

theorem Outcome.isLine_statusName (o : Outcome) : IsLine o.statusName.toList := by
  unfold statusName
  split
  · next r _ => cases r.status <;> decide +kernel
  · cases o.parse.status <;> decide +kernel

end IntCalc
