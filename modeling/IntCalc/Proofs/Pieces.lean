import IntCalc.Input
import IntCalc.Proofs.LineEnds
import IntCalc.Proofs.Utf8

/-!
# Streams in pieces

What is left of the pieces read so far depends on their text alone (`TextStream.tailOf`), and
so do the lines they have finished (`TextStream.completed`) : reading one more piece is the same
as having read it all at once (`TextStream.feed_tailOf`). So a stream of a text holds the
expressions of the text, however it is cut (`Input.ofStream?_of_decode`).

A stream that is no text holds expressions all the same if the pieces in front of the mistake
finish a quit command (`Input.ofStream?_of_quits`), and only then
(`Input.exists_of_ofStream?`).
-/

namespace IntCalc

variable {newlines : Newlines} {c : Char} {cs more a b : List Char} {q r : Option Utf8.Pending}

/-! ## Held returns -/

namespace Newlines

theorem hold_fst_append_snd (newlines : Newlines) (cs : List Char) :
    (newlines.hold cs).1 ++ (newlines.hold cs).2 = cs := by
  cases newlines with
  | newlineOnly => exact List.append_nil cs
  | universal =>
    simp only [hold]
    split
    · next h => exact List.dropLast_append_getLast? '\r' h
    · exact List.append_nil cs

/-- Only the end of a text decides what is held back. -/
theorem hold_append_of_ne_nil (newlines : Newlines) (a : List Char) (hb : b ≠ []) :
    newlines.hold (a ++ b) = (a ++ (newlines.hold b).1, (newlines.hold b).2) := by
  cases newlines with
  | newlineOnly => rfl
  | universal =>
    simp only [hold, List.getLast?_append_of_ne_nil a hb, List.dropLast_append_of_ne_nil hb]
    split <;> rfl

/-- What is held back is put in front of what follows. -/
theorem hold_append (newlines : Newlines) (a b : List Char) :
    newlines.hold (a ++ b) =
      ((newlines.hold a).1 ++ (newlines.hold ((newlines.hold a).2 ++ b)).1,
        (newlines.hold ((newlines.hold a).2 ++ b)).2) := by
  have ha := newlines.hold_fst_append_snd a
  by_cases hnil : (newlines.hold a).2 ++ b = []
  · obtain ⟨hheld, rfl⟩ := List.append_eq_nil_iff.1 hnil
    have hempty : newlines.hold [] = ([], []) := by cases newlines <;> rfl
    rw [hnil, hempty, List.append_nil, List.append_nil, ← hheld]
  · rw [← newlines.hold_append_of_ne_nil _ hnil, ← List.append_assoc, ha]

/-- A return that ends what is not held back has another one behind it. -/
theorem hold_cases (newlines : Newlines) (cs : List Char) :
    newlines = .newlineOnly ∨ (newlines.hold cs).1.getLast? ≠ some '\r' ∨
      (newlines.hold cs).2 = ['\r'] := by
  cases newlines with
  | newlineOnly => exact Or.inl rfl
  | universal =>
    simp only [hold]
    split
    · exact Or.inr (Or.inr rfl)
    · next h => exact Or.inr (Or.inl h)

/-- Texts are translated one by one if a return is not separated from its newline. -/
theorem translate_append (newlines : Newlines)
    (h : a.getLast? = some '\r' → b.head? ≠ some '\n') :
    newlines.translate (a ++ b) = newlines.translate a ++ newlines.translate b := by
  cases newlines with
  | newlineOnly => rfl
  | universal =>
    simp only [translate, Text.universalNewlines_eq a, Text.universalNewlines_eq (a ++ b)]
    have hlast : a.getLastD '\n' = '\r' → b.head? ≠ some '\n' := by
      intro hlast
      rw [List.getLastD_eq_getLast?] at hlast
      cases ha : a.getLast? with
      | none => rw [ha] at hlast; exact absurd hlast (by decide)
      | some c => rw [ha] at hlast; exact h (ha.trans (congrArg some hlast))
    rw [Text.newlinesAfter_append, Text.newlinesAfter_eq_universalNewlines hlast]

/-- What is not held back is translated by itself, whatever is put behind what is. -/
theorem translate_hold_append (newlines : Newlines) (cs : List Char) {front : List Char}
    (hfront : front <+: (newlines.hold cs).2 ++ more) :
    newlines.translate ((newlines.hold cs).1 ++ front) =
      newlines.translate (newlines.hold cs).1 ++ newlines.translate front := by
  rcases newlines.hold_cases cs with rfl | hlast | hheld
  · rfl
  · exact newlines.translate_append fun h => absurd h hlast
  · refine newlines.translate_append fun _ => ?_
    rw [hheld, List.singleton_append] at hfront
    cases front with
    | nil => exact fun h => nomatch h
    | cons c front =>
      obtain ⟨rfl, -⟩ := List.cons_prefix_cons.1 hfront
      exact fun h => absurd (Option.some.inj h) (by decide)

end Newlines

namespace TextStream

/-! ## Tails -/

/-- What is left of a text that has been read, and of a character behind it. -/
def tailOf (newlines : Newlines) (cs : List Char) (pending : Option Utf8.Pending) : Tail :=
  ⟨pending, (newlines.hold cs).2, Text.unfinished (newlines.translate (newlines.hold cs).1)⟩

/-- The lines of a text that are known to be finished when it has been read. -/
def completed (newlines : Newlines) (cs : List Char) : List (List Char) :=
  Text.lines (Text.finished (newlines.translate (newlines.hold cs).1))

theorem tailOf_nil (newlines : Newlines) : tailOf newlines [] none = {} := by
  cases newlines <;> rfl

theorem completed_nil (newlines : Newlines) : completed newlines [] = [] := by
  cases newlines <;> rfl

/-- The lines of a text are those that its beginning has finished, and then the others. -/
theorem lines_translate_append (newlines : Newlines) (cs more : List Char)
    (q : Option Utf8.Pending) :
    Text.lines (newlines.translate (cs ++ more)) = completed newlines cs ++
      Text.lines ((tailOf newlines cs q).line ++
        newlines.translate ((tailOf newlines cs q).held ++ more)) := by
  have hcs : cs ++ more = (newlines.hold cs).1 ++ ((newlines.hold cs).2 ++ more) := by
    rw [← List.append_assoc, newlines.hold_fst_append_snd]
  rw [hcs, newlines.translate_hold_append cs (List.prefix_refl _),
    ← Text.finished_append_unfinished (newlines.translate (newlines.hold cs).1),
    List.append_assoc, Text.lines_finished_append]
  rfl

/-- A piece gives the lines that its text finishes, and leaves what is left of the text. -/
theorem feed_tailOf (newlines : Newlines) {piece : List UInt8} (cs : List Char)
    (h : Utf8.decode q piece = some (more, r)) :
    ∃ ls, (tailOf newlines cs q).feed newlines piece =
        some (ls, tailOf newlines (cs ++ more) r) ∧
      completed newlines (cs ++ more) = completed newlines cs ++ ls := by
  have hheld : (newlines.hold ((newlines.hold cs).2 ++ more)).1 <+: (newlines.hold cs).2 ++ more :=
    ⟨_, newlines.hold_fst_append_snd _⟩
  have htext : newlines.translate (newlines.hold (cs ++ more)).1 =
      Text.finished (newlines.translate (newlines.hold cs).1) ++
        (Text.unfinished (newlines.translate (newlines.hold cs).1) ++
          newlines.translate (newlines.hold ((newlines.hold cs).2 ++ more)).1) := by
    rw [newlines.hold_append, newlines.translate_hold_append cs hheld, ← List.append_assoc,
      Text.finished_append_unfinished]
  refine ⟨Text.lines (Text.finished (Text.unfinished (newlines.translate (newlines.hold cs).1) ++
    newlines.translate (newlines.hold ((newlines.hold cs).2 ++ more)).1)), ?_, ?_⟩
  · have htail : tailOf newlines (cs ++ more) r =
        ⟨r, (newlines.hold ((newlines.hold cs).2 ++ more)).2,
          Text.unfinished (Text.unfinished (newlines.translate (newlines.hold cs).1) ++
            newlines.translate (newlines.hold ((newlines.hold cs).2 ++ more)).1)⟩ := by
      rw [tailOf, htext, Text.unfinished_finished_append, newlines.hold_append]
    rw [htail, Tail.feed, tailOf, h]
    rfl
  · rw [completed, htext, Text.finished_finished_append, Text.lines_finished_append]
    rfl

theorem feed_eq_none {tail : Tail} {piece : List UInt8}
    (h : Utf8.decode tail.pending piece = none) : tail.feed newlines piece = none := by
  rw [Tail.feed, h]
  rfl

end TextStream

namespace Input

open TextStream

variable {quit lines texts : List String} {pieces front back : List (List UInt8)}
  {piece : List UInt8}

/-! ## Expressions -/

/-- What is behind a quit command does not matter. -/
theorem takeWhile_append_of_quit (h : ∃ l ∈ lines, l ∈ quit) (rest : List String) :
    ((lines ++ rest).takeWhile fun l => l ∉ quit) = lines.takeWhile fun l => l ∉ quit := by
  obtain ⟨l, hl, hquit⟩ := h
  obtain ⟨front, back, rfl⟩ := List.append_of_mem hl
  have hstop : ∀ ls : List String, (l :: ls).takeWhile (fun l => decide (l ∉ quit)) = [] :=
    fun ls => List.takeWhile_cons_of_neg (by simpa using hquit)
  rw [List.append_assoc, List.cons_append, List.takeWhile_append, List.takeWhile_append, hstop,
    hstop]

/-- A text has finished a quit command. -/
def Quits (quit : List String) (newlines : Newlines) (cs : List Char) : Prop :=
  ∃ l ∈ (completed newlines cs).map expression, l ∈ quit

instance (quit : List String) (newlines : Newlines) (cs : List Char) :
    Decidable (Quits quit newlines cs) :=
  inferInstanceAs (Decidable (∃ l ∈ _, _))

/-- Lines that hold no quit command are all kept. -/
theorem takeWhile_completed_append (h : ¬ Quits quit newlines cs) (rest : List String) :
    (((completed newlines cs).map expression ++ rest).takeWhile fun l => l ∉ quit) =
      (completed newlines cs).map expression ++ rest.takeWhile fun l => l ∉ quit :=
  List.takeWhile_append_of_pos fun l hl => decide_eq_true fun hquit => h ⟨l, hl, hquit⟩

/-- The expressions of a text are decided as soon as a quit command has been finished. -/
theorem ofText_translate_append (h : Quits quit newlines cs) (more : List Char) :
    ofText quit (newlines.translate (cs ++ more)) =
      ((completed newlines cs).map expression).takeWhile fun l => l ∉ quit := by
  rw [ofText, lines_translate_append newlines cs more none, List.map_append,
    takeWhile_append_of_quit h]

/-- What has been finished stays so. -/
theorem Quits.append (h : Quits quit newlines cs) (more : List Char) :
    Quits quit newlines (cs ++ more) := by
  obtain ⟨ls, -, hcompleted⟩ := feed_tailOf newlines cs (Utf8.decode_encode more)
  obtain ⟨l, hl, hquit⟩ := h
  rw [Quits, hcompleted, List.map_append]
  exact ⟨l, List.mem_append_left _ hl, hquit⟩

/-- The pieces behind a text give the other expressions of a longer text. -/
def Reads (quit : List String) (newlines : Newlines) (cs : List Char)
    (q : Option Utf8.Pending) (pieces : List (List UInt8)) (text : List Char) : Prop :=
  ∃ texts, readPieces quit newlines (tailOf newlines cs q) pieces = some texts ∧
    (completed newlines cs).map expression ++ texts = ofText quit (newlines.translate text)

theorem reads_nil (h : ¬ Quits quit newlines cs) : Reads quit newlines cs none [] cs := by
  refine ⟨_, rfl, ?_⟩
  have hlines := lines_translate_append newlines cs [] none
  rw [List.append_nil, List.append_nil] at hlines
  rw [ofText, hlines, List.map_append, takeWhile_completed_append h]

/-- A piece is the last one that is read if it finishes a quit command. -/
theorem readPieces_cons (quit : List String) {tail rest : Tail} {ls : List (List Char)}
    (h : tail.feed newlines piece = some (ls, rest)) (pieces : List (List UInt8)) :
    readPieces quit newlines tail (piece :: pieces) =
      if ∃ l ∈ ls.map expression, l ∈ quit then
        some ((ls.map expression).takeWhile fun l => l ∉ quit)
      else (readPieces quit newlines rest pieces).map (ls.map expression ++ ·) := by
  rw [readPieces, h]
  simp only [Option.bind_eq_bind, Option.bind_some, List.any_eq_true, decide_eq_true_eq]
  split
  · rfl
  · cases readPieces quit newlines rest pieces <;> rfl

theorem quits_append_iff {ls : List (List Char)} (h : ¬ Quits quit newlines cs)
    (hcompleted : completed newlines (cs ++ more) = completed newlines cs ++ ls) :
    Quits quit newlines (cs ++ more) ↔ ∃ l ∈ ls.map expression, l ∈ quit := by
  unfold Quits at h ⊢
  simp only [hcompleted, List.map_append, List.mem_append, or_and_right, exists_or]
  exact or_iff_right h

theorem reads_cons_of_quits (h : ¬ Quits quit newlines cs)
    (hpiece : Utf8.decode q piece = some (more, r)) (hquit : Quits quit newlines (cs ++ more))
    (pieces : List (List UInt8)) (rest : List Char) :
    Reads quit newlines cs q (piece :: pieces) (cs ++ more ++ rest) := by
  obtain ⟨ls, hfeed, hcompleted⟩ := feed_tailOf newlines cs hpiece
  have hread := readPieces_cons quit hfeed pieces
  rw [if_pos ((quits_append_iff h hcompleted).1 hquit)] at hread
  refine ⟨_, hread, ?_⟩
  rw [ofText_translate_append hquit, hcompleted, List.map_append, takeWhile_completed_append h]

theorem reads_cons {text : List Char} (h : ¬ Quits quit newlines cs)
    (hpiece : Utf8.decode q piece = some (more, r)) (hquit : ¬ Quits quit newlines (cs ++ more))
    (hrest : Reads quit newlines (cs ++ more) r pieces text) :
    Reads quit newlines cs q (piece :: pieces) text := by
  obtain ⟨ls, hfeed, hcompleted⟩ := feed_tailOf newlines cs hpiece
  obtain ⟨texts, hrest, htexts⟩ := hrest
  have hread := readPieces_cons quit hfeed pieces
  rw [if_neg (mt (quits_append_iff h hcompleted).2 hquit), hrest] at hread
  refine ⟨_, hread, ?_⟩
  rw [← htexts, hcompleted, List.map_append, List.append_assoc]

/-- The characters of the first piece, and then those of the others. -/
theorem exists_of_decode_cons {pending : Option Utf8.Pending} {chars : List Char}
    (h : Utf8.decode pending (piece :: pieces).flatten = some (chars, r)) :
    ∃ more q rest, Utf8.decode pending piece = some (more, q) ∧
      Utf8.decode q pieces.flatten = some (rest, r) ∧ chars = more ++ rest := by
  rw [List.flatten_cons, Utf8.decode_append] at h
  obtain ⟨⟨more, q⟩, hpiece, h⟩ := Option.bind_eq_some_iff.1 h
  obtain ⟨⟨rest, r'⟩, hrest, heq⟩ := Option.map_eq_some_iff.1 h
  obtain ⟨rfl, rfl⟩ := Prod.mk.inj heq
  exact ⟨more, q, rest, hpiece, hrest, rfl⟩

/-- Pieces that are a text to the end give its expressions. -/
theorem reads_of_decode (h : ¬ Quits quit newlines cs)
    (hdecode : Utf8.decode q pieces.flatten = some (more, none)) :
    Reads quit newlines cs q pieces (cs ++ more) := by
  induction pieces generalizing cs q more with
  | nil =>
    obtain ⟨rfl, rfl⟩ := Prod.mk.inj (Option.some.inj hdecode)
    rw [List.append_nil]
    exact reads_nil h
  | cons piece pieces ih =>
    obtain ⟨more, q, rest, hpiece, hrest, rfl⟩ := exists_of_decode_cons hdecode
    rw [← List.append_assoc]
    by_cases hquit : Quits quit newlines (cs ++ more)
    · exact reads_cons_of_quits h hpiece hquit pieces rest
    · exact reads_cons h hpiece hquit (ih hquit hrest)

/-- Pieces give the expressions of a text that they begin with and that quits. -/
theorem reads_of_quits (h : ¬ Quits quit newlines cs)
    (hdecode : Utf8.decode q front.flatten = some (more, r))
    (hquits : Quits quit newlines (cs ++ more)) (back : List (List UInt8)) :
    Reads quit newlines cs q (front ++ back) (cs ++ more) := by
  induction front generalizing cs q more with
  | nil =>
    obtain ⟨rfl, rfl⟩ := Prod.mk.inj (Option.some.inj hdecode)
    rw [List.append_nil] at hquits
    exact absurd hquits h
  | cons piece front ih =>
    obtain ⟨more, q, rest, hpiece, hrest, rfl⟩ := exists_of_decode_cons hdecode
    rw [← List.append_assoc] at hquits ⊢
    by_cases hquit : Quits quit newlines (cs ++ more)
    · exact reads_cons_of_quits h hpiece hquit (front ++ back) rest
    · exact reads_cons h hpiece hquit (ih hquit hrest hquits)

/-- Only pieces that are a text, as far as they are read, give expressions. -/
theorem exists_of_readPieces (h : ¬ Quits quit newlines cs)
    (hread : readPieces quit newlines (tailOf newlines cs q) pieces = some texts) :
    (∃ more, Utf8.decode q pieces.flatten = some (more, none)) ∨
      ∃ front back more r, pieces = front ++ back ∧
        Utf8.decode q front.flatten = some (more, r) ∧ Quits quit newlines (cs ++ more) := by
  induction pieces generalizing cs q texts with
  | nil =>
    cases q with
    | none => exact Or.inl ⟨[], rfl⟩
    | some p => cases hread
  | cons piece pieces ih =>
    cases hpiece : Utf8.decode q piece with
    | none =>
      rw [readPieces, feed_eq_none hpiece] at hread
      cases hread
    | some result =>
      obtain ⟨more, r⟩ := result
      by_cases hquit : Quits quit newlines (cs ++ more)
      · exact Or.inr ⟨[piece], pieces, more, r, rfl, by simpa using hpiece, hquit⟩
      · obtain ⟨ls, hfeed, hcompleted⟩ := feed_tailOf newlines cs hpiece
        rw [readPieces_cons quit hfeed,
          if_neg (mt (quits_append_iff h hcompleted).2 hquit)] at hread
        obtain ⟨texts, hread, -⟩ := Option.map_eq_some_iff.1 hread
        have happend : ∀ front : List (List UInt8), ∀ chars s,
            Utf8.decode r front.flatten = some (chars, s) →
              Utf8.decode q (piece :: front).flatten = some (more ++ chars, s) := by
          intro front chars s hfront
          rw [List.flatten_cons, Utf8.decode_append, hpiece, Option.bind_some]
          simp only [hfront, Option.map_some]
        rcases ih hquit hread with ⟨rest, hrest⟩ | ⟨front, back, rest, s, rfl, hrest, hquits⟩
        · exact Or.inl ⟨_, happend _ _ _ hrest⟩
        · exact Or.inr ⟨piece :: front, back, _, s, rfl, happend _ _ _ hrest,
            by rwa [← List.append_assoc]⟩

/-! ## Streams -/

variable {stream : TextStream}

theorem not_quits_nil : ¬ Quits quit newlines [] := by
  rintro ⟨l, hl, -⟩
  rw [completed_nil] at hl
  cases hl

theorem ofStream?_of_reads (h : Reads quit stream.newlines [] none stream.pieces cs) :
    ofStream? quit stream = some (ofText quit (stream.newlines.translate cs)) := by
  obtain ⟨texts, hread, htexts⟩ := h
  rw [tailOf_nil] at hread
  rw [ofStream?, hread, ← htexts, completed_nil]
  rfl

/-- A stream of a text holds the expressions of the text, however it is cut. -/
theorem ofStream?_of_decode (quit : List String)
    (h : Utf8.decode none stream.bytes = some (cs, none)) :
    ofStream? quit stream = some (ofText quit (stream.newlines.translate cs)) :=
  ofStream?_of_reads (reads_of_decode not_quits_nil h)

/-- A stream holds the expressions of a text that it begins with and that quits. -/
theorem ofStream?_of_quits (hpieces : stream.pieces = front ++ back)
    (h : Utf8.decode none front.flatten = some (cs, r)) (hquits : Quits quit stream.newlines cs) :
    ofStream? quit stream = some (ofText quit (stream.newlines.translate cs)) := by
  refine ofStream?_of_reads ?_
  rw [hpieces]
  exact reads_of_quits not_quits_nil h hquits back

/-- Only a stream that is a text, as far as it is read, holds expressions. -/
theorem exists_of_ofStream? (h : ofStream? quit stream = some texts) :
    (∃ cs, Utf8.decode none stream.bytes = some (cs, none)) ∨
      ∃ front back cs r, stream.pieces = front ++ back ∧
        Utf8.decode none front.flatten = some (cs, r) ∧ Quits quit stream.newlines cs := by
  rw [ofStream?, ← tailOf_nil stream.newlines] at h
  exact exists_of_readPieces not_quits_nil h

/-- The expressions of a stream are those of a text. -/
theorem exists_ofText (h : ofStream? quit stream = some texts) :
    ∃ cs, texts = ofText quit (stream.newlines.translate cs) := by
  rcases exists_of_ofStream? h with ⟨cs, hcs⟩ | ⟨front, back, cs, r, hpieces, hcs, hquits⟩
  · exact ⟨cs, Option.some.inj (h.symm.trans (ofStream?_of_decode quit hcs))⟩
  · exact ⟨cs, Option.some.inj (h.symm.trans (ofStream?_of_quits hpieces hcs hquits))⟩

/-! ## Files -/

theorem flatten_map_take_drop {α : Type} (size k : Nat) (l : List α) :
    ((List.range k).map fun i => (l.drop (size * i)).take size).flatten = l.take (size * k) := by
  induction k with
  | zero => simp
  | succ k ih =>
    rw [List.range_succ, List.map_append, List.flatten_append, ih, Nat.mul_succ, List.take_add]
    simp

/-- A full piece is cut off. -/
theorem cut_append {size : Nat} (hsize : 0 < size) (h : piece.length = size) (rest : List UInt8) :
    cut size (piece ++ rest) = piece :: cut size rest := by
  have hcount : ((piece ++ rest).length + size - 1) / size =
      (rest.length + size - 1) / size + 1 := by
    have hsum : (piece ++ rest).length + size - 1 = rest.length + size - 1 + size := by
      rw [List.length_append]
      omega
    rw [hsum, Nat.add_div_right _ hsize]
  have hdrop : ∀ k, (piece ++ rest).drop (size * (k + 1)) = rest.drop (size * k) := by
    intro k
    rw [Nat.mul_succ, Nat.add_comm, ← List.drop_drop, ← h, List.drop_left]
  rw [cut, hcount, List.range_succ_eq_map, List.map_cons, List.map_map]
  simp only [Function.comp_def, hdrop, Nat.mul_zero, List.drop_zero]
  rw [← h, List.take_left]
  rfl

theorem flatten_cut {size : Nat} (hsize : 0 < size) (bytes : List UInt8) :
    (cut size bytes).flatten = bytes := by
  rw [cut, flatten_map_take_drop]
  refine List.take_of_length_le ?_
  have := Nat.div_add_mod (bytes.length + size - 1) size
  have := Nat.mod_lt (bytes.length + size - 1) hsize
  omega

/-- A file of a text holds its expressions. -/
theorem ofBytes?_toUTF8 (quit : List String) (text : String) :
    ofBytes? quit text.toUTF8 = some (ofText quit (Text.universalNewlines text.toList)) := by
  have hbytes : (TextStream.ofFile text.toUTF8).bytes = text.toUTF8.data.toList :=
    flatten_cut (by decide) _
  have hdecode : Utf8.decode none (TextStream.ofFile text.toUTF8).bytes =
      some (text.toList, none) := by
    rw [hbytes]
    exact Utf8.decode_eq_some_iff.2 rfl
  exact ofStream?_of_decode quit hdecode

end Input

end IntCalc
