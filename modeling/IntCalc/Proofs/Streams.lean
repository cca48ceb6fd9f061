import IntCalc.Proofs.Lines

/-!
# Streams and files

A stream ends its lines with newlines only, a file with any terminator. The two hold the same
expressions if every return stands directly in front of a newline (`Text.ReturnsPaired`) : such
a return is part of a terminator in the file, and in the stream it is the last character of a
line, where it is taken off. Line by line the texts agree (`Text.trimmedLines_newlinesAfter`),
and so do the expressions (`Input.ofBytes?_eq_ofText`).
-/

namespace IntCalc.Text

variable {c p : Char} {cs l : List Char}

/-! ## Lines without their ends -/

/-- The lines of a text without the returns and newlines at their ends. -/
def trimmedLines (cs : List Char) : List (List Char) :=
  (lines cs).map trimEnd

theorem trimEnd_cons (hc : c ≠ '\r' ∧ c ≠ '\n') (l : List Char) :
    trimEnd (c :: l) = c :: trimEnd l := by
  have hstays : [c].dropWhile isLineEnd = [c] :=
    List.dropWhile_cons_of_neg (by simp [isLineEnd, hc])
  simp only [trimEnd, List.reverse_cons, List.dropWhile_append, hstays]
  split
  · next hempty => simp [List.isEmpty_iff.1 hempty]
  · rw [List.reverse_append]
    rfl

theorem trimmedLines_newline (cs : List Char) : trimmedLines ('\n' :: cs) = [] :: trimmedLines cs :=
  rfl

/-- A return in front of a newline is taken off with it. -/
theorem trimmedLines_returnNewline (cs : List Char) :
    trimmedLines ('\r' :: '\n' :: cs) = [] :: trimmedLines cs :=
  rfl

theorem trimmedLines_cons (hc : c ≠ '\r' ∧ c ≠ '\n') (cs : List Char) :
    trimmedLines (c :: cs) = pushChar c (trimmedLines cs) := by
  unfold trimmedLines
  rw [lines_cons]
  cases lines cs with
  | nil =>
    rw [pushChar_nil hc.2, List.map_singleton, trimEnd_cons hc]
    exact (pushChar_nil hc.2).symm
  | cons l ls =>
    rw [pushChar_cons hc.2, List.map_cons, List.map_cons, pushChar_cons hc.2, trimEnd_cons hc]

/-! ## Returns in front of newlines -/

/-- Every return stands directly in front of a newline. -/
def ReturnsPaired (cs : List Char) : Prop :=
  ∀ i, cs[i]? = some '\r' → cs[i + 1]? = some '\n'

theorem returnsPaired_nil : ReturnsPaired [] := by
  simp [ReturnsPaired]

theorem returnsPaired_cons_iff :
    ReturnsPaired (c :: cs) ↔ (c = '\r' → cs.head? = some '\n') ∧ ReturnsPaired cs := by
  constructor
  · intro h
    refine ⟨fun hc => ?_, fun i => h (i + 1)⟩
    rw [List.head?_eq_getElem?]
    exact h 0 (congrArg some hc)
  · rintro ⟨hc, hcs⟩ i hi
    cases i with
    | zero =>
      rw [List.head?_eq_getElem?] at hc
      exact hc (Option.some.inj hi)
    | succ i => exact hcs i hi

/-- The lines of a text whose returns are paired are those of the text in which every line end
is written as a newline. -/
theorem trimmedLines_newlinesAfter (h : ReturnsPaired cs)
    (hp : p = '\r' → cs.head? ≠ some '\n') :
    trimmedLines (newlinesAfter p cs) = trimmedLines cs := by
  induction hlength : cs.length using Nat.strongRecOn generalizing cs p with
  | ind n ih =>
    subst hlength
    cases cs with
    | nil => rfl
    | cons c cs =>
      obtain ⟨hreturn, hcs⟩ := returnsPaired_cons_iff.1 h
      by_cases hc : c = '\r'
      · -- The newline behind the return is read with it.
        subst hc
        obtain ⟨cs, rfl⟩ := List.head?_eq_some_iff.1 (hreturn rfl)
        have hrest := ih cs.length (by simp only [List.length_cons]; omega) (p := '\n')
          (returnsPaired_cons_iff.1 hcs).2 (fun hn => absurd hn (by decide)) rfl
        rw [newlinesAfter_cons, newlinesAfter_cons, trimmedLines_returnNewline, ← hrest]
        rfl
      · have hrest := ih cs.length (Nat.lt_succ_self _) (p := c) hcs (fun hn => absurd hn hc) rfl
        by_cases hn : c = '\n'
        · subst hn
          rw [newlinesAfter_cons, newlineOf_newline fun hreturn => hp hreturn rfl,
            trimmedLines_newline, ← hrest]
          rfl
        · rw [newlinesAfter_cons, newlineOf_of_ne p ⟨hc, hn⟩, trimmedLines_cons ⟨hc, hn⟩, ← hrest]
          exact trimmedLines_cons ⟨hc, hn⟩ _

end IntCalc.Text

namespace IntCalc.Input

open Text

theorem ofText_eq_trimmedLines (quit : List String) (cs : List Char) :
    ofText quit cs = ((trimmedLines cs).map String.ofList).takeWhile fun l => l ∉ quit := by
  rw [ofText, trimmedLines, List.map_map]
  rfl

/-- Line ends need not be translated if every return stands directly in front of a newline. -/
theorem ofText_universalNewlines (quit : List String) {cs : List Char} (h : ReturnsPaired cs) :
    ofText quit (universalNewlines cs) = ofText quit cs := by
  have hlines := trimmedLines_newlinesAfter (p := '\n') h fun hn => absurd hn (by decide)
  rw [ofText_eq_trimmedLines, ofText_eq_trimmedLines, universalNewlines_eq, hlines]

/-- A text whose returns all stand directly in front of newlines has the same expressions
in a file as in a stream. -/
theorem ofBytes?_eq_ofText (quit : List String) {text : String} (h : ReturnsPaired text.toList) :
    ofBytes? quit text.toUTF8 = some (ofText quit text.toList) := by
  rw [ofBytes?_toUTF8, ofText_universalNewlines quit h]

/-- Line ends of both kinds, an empty line with each, and a quit command in front of a return. -/
theorem ofBytes?_eq_ofText_mixed :
    ReturnsPaired "1+1\r\n\r\n\n 2\nq\r\n3".toList ∧
      ofBytes? ["q"] "1+1\r\n\r\n\n 2\nq\r\n3".toUTF8 =
        some (ofText ["q"] "1+1\r\n\r\n\n 2\nq\r\n3".toList) ∧
      ofText ["q"] "1+1\r\n\r\n\n 2\nq\r\n3".toList = ["1+1", "", "", " 2"] := by
  have h : ReturnsPaired "1+1\r\n\r\n\n 2\nq\r\n3".toList := by
    simp [returnsPaired_cons_iff, returnsPaired_nil]
  exact ⟨h, ofBytes?_eq_ofText ["q"] h, by decide +kernel⟩

/-- A return that stands alone ends a line of a file, but none of a stream. -/
example : ofText [] (universalNewlines "1\r2".toList) = ["1", "2"] ∧
    ofText [] "1\r2".toList = ["1\r2"] := by
  decide +kernel

/-- The expressions of a text have no returns if all of them stand in front of newlines. -/
theorem return_not_mem_ofText {quit : List String} {cs : List Char} (h : ReturnsPaired cs)
    {text : String} (htext : text ∈ ofText quit cs) : '\r' ∉ text.toList := by
  rw [← ofText_universalNewlines quit h] at htext
  exact return_not_mem_universal htext

/-- No expression has a return in it if line ends are translated, or if every return stands in
front of a newline. -/
theorem return_not_mem {quit texts : List String} {stream : TextStream}
    (h : ofStream? quit stream = some texts)
    (hstream : stream.newlines = .universal ∨
      ∃ text : String, stream.bytes = text.toUTF8.data.toList ∧ ReturnsPaired text.toList) :
    ∀ text ∈ texts, '\r' ∉ text.toList := by
  intro text htext
  cases hnewlines : stream.newlines with
  | universal =>
    obtain ⟨cs, rfl⟩ := exists_ofText h
    rw [hnewlines] at htext
    exact return_not_mem_universal htext
  | newlineOnly =>
    rcases hstream with huniversal | ⟨body, hbytes, hpaired⟩
    · rw [huniversal] at hnewlines
      cases hnewlines
    · have hbody := ofStream?_of_decode quit (Utf8.decode_eq_some_iff.2 hbytes)
      rw [hnewlines, h] at hbody
      rw [Option.some.inj hbody] at htext
      exact return_not_mem_ofText hpaired htext

end IntCalc.Input
