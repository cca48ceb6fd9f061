import IntCalc.Proofs.Pieces
import Mathlib.Data.List.Chain
import Mathlib.Data.List.TakeWhile

/-!
# Lines of files

Lines that are written with any terminators are read back, as long as no two of them run
together : a return and the newline of an empty line behind it would be one terminator
(`Terminator.Apart`). What follows the lines is read as if it stood alone, or behind a
return (`lines_newlinesAfter_join`).

The expressions of a file are therefore those of its lines in front of the first quit
command, and nothing behind a quit command matters (`Input.ofBytes?_join`). No return is left
in any of them (`Input.return_not_mem_universal`).
-/

namespace IntCalc.Text

variable {c p : Char} {cs l : List Char} {t : Terminator}
  {ls : List (List Char × Terminator)}

/-- The last character of a terminator. -/
def Terminator.last : Terminator → Char
  | newline | returnNewline => '\n'
  | loneReturn => '\r'

theorem Terminator.last_eq_return_iff : t.last = '\r' ↔ t = .loneReturn := by
  cases t <;> decide

/-- Behind a return an empty line that is ended by a newline would not be seen. -/
theorem newlinesAfter_chars (h : p = '\r' → t ≠ .newline) (cs : List Char) :
    newlinesAfter p (t.chars ++ cs) = '\n' :: newlinesAfter t.last cs := by
  cases t with
  | newline =>
    have hp : p ≠ '\r' := fun hreturn => h hreturn rfl
    simp only [Terminator.chars, List.singleton_append, newlinesAfter_cons, newlineOf_newline hp]
    rfl
  | returnNewline =>
    simp only [Terminator.chars, List.cons_append, List.nil_append, newlinesAfter_cons]
    rfl
  | loneReturn =>
    simp only [Terminator.chars, List.singleton_append, newlinesAfter_cons]
    rfl

/-- A line stands for itself, and its terminator for a newline. -/
theorem newlinesAfter_line (hl : IsLine l) (h : p = '\r' → (l, t) ≠ ([], .newline))
    (cs : List Char) :
    newlinesAfter p (l ++ t.chars ++ cs) = l ++ '\n' :: newlinesAfter t.last cs := by
  induction l generalizing p with
  | nil => exact newlinesAfter_chars (fun hreturn ht => h hreturn (by rw [ht])) cs
  | cons c l ih =>
    obtain ⟨hc, hl⟩ := List.forall_mem_cons.1 hl
    have hrest := ih (p := c) hl fun hreturn => absurd hreturn hc.1
    simp only [List.cons_append, newlinesAfter_cons, newlineOf_of_ne p hc, hrest]
    rfl

theorem newlinesAfter_of_isLine (p : Char) (hl : IsLine l) : newlinesAfter p l = l := by
  induction l generalizing p with
  | nil => rfl
  | cons c l ih =>
    obtain ⟨hc, hl⟩ := List.forall_mem_cons.1 hl
    rw [newlinesAfter_cons, newlineOf_of_ne p hc, ih c hl]
    rfl

/-! ## Lines with terminators -/

/-- The terminators of a line and of the line behind it do not run together. -/
def Terminator.Apart (l m : List Char × Terminator) : Prop :=
  ¬(l.2 = .loneReturn ∧ m = ([], .newline))

instance (l m : List Char × Terminator) : Decidable (Terminator.Apart l m) :=
  inferInstanceAs (Decidable ¬_)

theorem Terminator.join_cons (l : List Char × Terminator) (last : List Char) :
    join (l :: ls) last = l.1 ++ l.2.chars ++ join ls last := by
  simp [join]

/-- Lines that are apart are read one by one, and what is behind them after them. -/
theorem lines_newlinesAfter_join (hls : ∀ l ∈ ls, IsLine l.1) (happart : ls.IsChain Terminator.Apart)
    (hfirst : p = '\r' → ∀ l ∈ ls.head?, l ≠ ([], .newline)) (tail : List Char) :
    ∃ c, lines (newlinesAfter p (Terminator.join ls tail)) =
      ls.map Prod.fst ++ lines (newlinesAfter c tail) := by
  induction ls generalizing p with
  | nil => exact ⟨p, rfl⟩
  | cons l ls ih =>
    obtain ⟨hl, hls⟩ := List.forall_mem_cons.1 hls
    obtain ⟨hnext, happart⟩ := List.isChain_cons.1 happart
    -- The next line stands behind the last character of this line's terminator.
    obtain ⟨c, hrest⟩ := ih (p := l.2.last) hls happart fun hreturn m hm heq =>
      hnext m hm ⟨Terminator.last_eq_return_iff.1 hreturn, heq⟩
    refine ⟨c, ?_⟩
    rw [Terminator.join_cons, newlinesAfter_line hl fun hreturn => hfirst hreturn l rfl,
      lines_append_newline hl, hrest]
    rfl

end IntCalc.Text

namespace IntCalc.Input

open Text

variable {quit : List String} {ls : List (List Char × Terminator)}

/-! ## Expressions -/

/-- The texts are the longest beginning of the lines that has no quit command. -/
def UpToQuit (quit lines texts : List String) : Prop :=
  texts <+: lines ∧ (∀ text ∈ texts, text ∉ quit) ∧
    ∀ front, front <+: lines → (∀ text ∈ front, text ∉ quit) → front <+: texts

theorem upToQuit_takeWhile (quit lines : List String) :
    UpToQuit quit lines (lines.takeWhile fun l => l ∉ quit) := by
  refine ⟨List.takeWhile_prefix _, fun text htext => ?_, ?_⟩
  · have hp := List.mem_takeWhile_imp (p := fun l => decide (l ∉ quit)) htext
    exact of_decide_eq_true hp
  · rintro front ⟨rest, rfl⟩ hfront
    rw [List.takeWhile_append_of_pos fun text htext => decide_eq_true (hfront text htext)]
    exact List.prefix_append _ _

/-- The lines and what stands behind the last terminator. An empty text is no line. -/
def linesOf (ls : List (List Char × Terminator)) (last : List Char) : List String :=
  (ls.map Prod.fst ++ if last = [] then [] else [last]).map String.ofList

/-- The expressions of lines that are apart, and of a text behind them. -/
theorem exists_ofText_join (quit : List String) (hls : ∀ l ∈ ls, IsLine l.1)
    (happart : ls.IsChain Terminator.Apart) (tail : List Char) :
    ∃ c, ofText quit (universalNewlines (Terminator.join ls tail)) =
      (ls.map (fun l => String.ofList l.1) ++
        (Text.lines (newlinesAfter c tail)).map expression).takeWhile fun l => l ∉ quit := by
  obtain ⟨c, hlines⟩ := lines_newlinesAfter_join (p := '\n') hls happart
    (fun hreturn => absurd hreturn (by decide)) tail
  have htrim : ls.map (fun l => expression l.1) = ls.map fun l => String.ofList l.1 :=
    List.map_congr_left fun l hl => by rw [expression, trimEnd_of_isLine (hls l hl)]
  refine ⟨c, ?_⟩
  rw [ofText, universalNewlines_eq, hlines, List.map_append, List.map_map, ← htrim]
  rfl

theorem ofText_join (quit : List String) (hls : ∀ l ∈ ls, IsLine l.1)
    (happart : ls.IsChain Terminator.Apart) {last : List Char} (hlast : IsLine last) :
    ofText quit (universalNewlines (Terminator.join ls last)) =
      (linesOf ls last).takeWhile fun l => l ∉ quit := by
  obtain ⟨c, htext⟩ := exists_ofText_join quit hls happart last
  rw [htext, newlinesAfter_of_isLine c hlast, lines_of_isLine hlast, linesOf, List.map_append,
    List.map_map]
  split
  · rfl
  · rw [List.map_singleton, List.map_singleton, expression, trimEnd_of_isLine hlast]
    rfl

/-- The lines of a file are read back whatever ends them, as long as no two run together.
The expressions are the longest beginning of the lines without a quit command. If one of the
lines is a quit command, any text may follow the lines. -/
theorem ofBytes?_join (quit : List String) (hls : ∀ l ∈ ls, IsLine l.1)
    (happart : ls.IsChain Terminator.Apart) :
    (∀ last, IsLine last → ∃ texts,
      ofBytes? quit (String.ofList (Terminator.join ls last)).toUTF8 = some texts ∧
        UpToQuit quit (linesOf ls last) texts) ∧
    ((∃ l ∈ ls, String.ofList l.1 ∈ quit) → ∀ tail, ∃ texts,
      ofBytes? quit (String.ofList (Terminator.join ls tail)).toUTF8 = some texts ∧
        UpToQuit quit (linesOf ls []) texts) := by
  refine ⟨fun last hlast => ?_, fun ⟨l, hl, hquit⟩ tail => ?_⟩
  · refine ⟨_, ?_, upToQuit_takeWhile quit (linesOf ls last)⟩
    rw [ofBytes?_toUTF8, String.toList_ofList, ofText_join quit hls happart hlast]
  · obtain ⟨c, htext⟩ := exists_ofText_join quit hls happart tail
    have hstop : ∃ line ∈ ls.map fun l => String.ofList l.1, line ∈ quit :=
      ⟨_, List.mem_map_of_mem hl, hquit⟩
    refine ⟨_, ?_, upToQuit_takeWhile quit (linesOf ls [])⟩
    rw [ofBytes?_toUTF8, String.toList_ofList, htext, takeWhile_append_of_quit hstop, linesOf,
      if_pos rfl, List.append_nil, List.map_map]
    rfl

/-- Four lines with all three terminators, the second of them empty, and a quit command as the
last one. A line may follow, and also a newline, which belongs to the return behind the quit
command. -/
theorem ofBytes?_join_mixed :
    let ls : List (List Char × Terminator) := [("1+1".toList, .loneReturn), ([], .returnNewline),
      ("\ufeff2\u2028".toList, .newline), ("q".toList, .loneReturn)]
    (∀ l ∈ ls, IsLine l.1) ∧ ls.IsChain Terminator.Apart ∧
      (∃ texts, ofBytes? ["q"] "1+1\r\r\n\ufeff2\u2028\nq\r3".toUTF8 = some texts ∧
        UpToQuit ["q"] ["1+1", "", "\ufeff2\u2028", "q", "3"] texts) ∧
      ∃ texts, ofBytes? ["q"] "1+1\r\r\n\ufeff2\u2028\nq\r\n\n3".toUTF8 = some texts ∧
        UpToQuit ["q"] ["1+1", "", "\ufeff2\u2028", "q"] texts := by
  intro ls
  have hls : ∀ l ∈ ls, IsLine l.1 := by decide
  have happart : ls.IsChain Terminator.Apart := by decide
  obtain ⟨hlast, htail⟩ := ofBytes?_join ["q"] hls happart
  exact ⟨hls, happart, hlast "3".toList (by decide),
    htail ⟨("q".toList, .loneReturn), by decide, by decide⟩ "\n\n3".toList⟩

/-- No return is left in an expression of a text whose line ends have been translated. -/
theorem return_not_mem_universal {cs : List Char} {text : String}
    (htext : text ∈ ofText quit (universalNewlines cs)) : '\r' ∉ text.toList := by
  obtain ⟨l, hl, rfl⟩ := List.mem_map.1 ((List.takeWhile_prefix _).subset htext)
  intro hreturn
  rw [expression, String.toList_ofList] at hreturn
  exact return_not_mem_universalNewlines _ (mem_of_mem_lines hl (mem_of_mem_trimEnd hreturn))

end IntCalc.Input
