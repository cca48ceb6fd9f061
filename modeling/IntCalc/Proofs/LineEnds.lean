import IntCalc.Text.Lines
import IntCalc.Text.Terminator
import Mathlib.Data.List.Basic

/-!
# Line ends and lines

What becomes of the characters of a text when its line ends are written as newlines
(`newlinesAfter_cons`), and how its lines are found (`lines_append_newline`). A text may be cut
wherever no return is separated from its newline (`newlinesAfter_append`,
`newlinesAfter_eq_universalNewlines`), and its lines may be cut behind any newline
(`lines_finished_append`).
-/

namespace IntCalc.Text

variable {c p : Char} {cs l : List Char} {ls ms : List (List Char)}

/-! ## Line ends -/

/-- The text behind the character `previous`, with every line end written as a newline. -/
def newlinesAfter (previous : Char) (cs : List Char) : List Char :=
  ((previous :: cs).zip cs).filterMap fun (previous, c) => newlineOf previous c

theorem universalNewlines_eq (cs : List Char) : universalNewlines cs = newlinesAfter '\n' cs :=
  rfl

theorem newlinesAfter_cons (p c : Char) (cs : List Char) :
    newlinesAfter p (c :: cs) = (newlineOf p c).toList ++ newlinesAfter c cs := by
  simp only [newlinesAfter, List.zip_cons_cons, List.filterMap_cons]
  cases newlineOf p c <;> rfl

theorem newlineOf_of_ne (p : Char) (hc : c ≠ '\r' ∧ c ≠ '\n') : newlineOf p c = some c := by
  simp [newlineOf, hc]

theorem newlineOf_newline (h : p ≠ '\r') : newlineOf p '\n' = some '\n' := by
  simp [newlineOf, h]

/-- A text is read character by character, each with the one in front of it. -/
theorem newlinesAfter_append (p : Char) (cs more : List Char) :
    newlinesAfter p (cs ++ more) = newlinesAfter p cs ++ newlinesAfter (cs.getLastD p) more := by
  induction cs generalizing p with
  | nil => rfl
  | cons c cs ih =>
    rw [List.cons_append, newlinesAfter_cons, newlinesAfter_cons, ih, List.append_assoc,
      List.getLastD_cons]

/-- Only a newline behind a return depends on what is in front of a text. -/
theorem newlinesAfter_eq_universalNewlines (h : p = '\r' → cs.head? ≠ some '\n') :
    newlinesAfter p cs = universalNewlines cs := by
  cases cs with
  | nil => rfl
  | cons c cs =>
    rw [universalNewlines_eq, newlinesAfter_cons, newlinesAfter_cons]
    by_cases hc : c = '\n'
    · subst hc
      rw [newlineOf_newline fun hp => h hp rfl, newlineOf_newline (by decide)]
    · simp [newlineOf, hc]

theorem return_not_mem_universalNewlines (cs : List Char) : '\r' ∉ universalNewlines cs := by
  intro h
  obtain ⟨⟨p, c⟩, -, hc⟩ := List.mem_filterMap.1 h
  simp only [newlineOf] at hc
  split at hc
  · cases hc
  · next hne =>
    split at hc
    · cases hc
    · exact hne (Option.some.inj hc)

/-! ## Lines -/

theorem pushChar_newline (ls : List (List Char)) : pushChar '\n' ls = [] :: ls :=
  rfl

theorem pushChar_nil (hc : c ≠ '\n') : pushChar c [] = [[c]] :=
  if_neg hc

theorem pushChar_cons (hc : c ≠ '\n') (l : List Char) (ls : List (List Char)) :
    pushChar c (l :: ls) = (c :: l) :: ls :=
  if_neg hc

theorem lines_append_newline (hl : IsLine l) (cs : List Char) :
    lines (l ++ '\n' :: cs) = l :: lines cs := by
  induction l with
  | nil => rfl
  | cons c l ih =>
    obtain ⟨hc, hl⟩ := List.forall_mem_cons.1 hl
    rw [List.cons_append, lines_cons, ih hl, pushChar_cons hc.2]

/-- A text without a line end is one line, unless it is empty. -/
theorem lines_of_isLine (hl : IsLine l) : lines l = if l = [] then [] else [l] := by
  induction l with
  | nil => rfl
  | cons c l ih =>
    obtain ⟨hc, hl⟩ := List.forall_mem_cons.1 hl
    rw [lines_cons, ih hl, if_neg (List.cons_ne_nil c l)]
    split
    · next hnil => rw [pushChar_nil hc.2, hnil]
    · rw [pushChar_cons hc.2]

/-- A character of a line with one more character was there or is the new one. -/
theorem eq_or_mem_of_mem_pushChar {d : Char} {m : List (List Char)} (hl : l ∈ pushChar d m)
    (hc : c ∈ l) : c = d ∨ ∃ k ∈ m, c ∈ k := by
  by_cases hd : d = '\n'
  · subst hd
    rcases List.mem_cons.1 (pushChar_newline m ▸ hl) with rfl | hl
    · cases hc
    · exact Or.inr ⟨l, hl, hc⟩
  · cases m with
    | nil =>
      rw [pushChar_nil hd] at hl
      obtain rfl := List.mem_singleton.1 hl
      exact Or.inl (List.mem_singleton.1 hc)
    | cons k m =>
      rw [pushChar_cons hd] at hl
      rcases List.mem_cons.1 hl with rfl | hl
      · exact (List.mem_cons.1 hc).imp_right fun hc => ⟨k, List.mem_cons_self, hc⟩
      · exact Or.inr ⟨l, List.mem_cons_of_mem k hl, hc⟩

theorem mem_of_mem_lines (hl : l ∈ lines cs) (hc : c ∈ l) : c ∈ cs := by
  induction cs generalizing l with
  | nil => cases hl
  | cons d cs ih =>
    rcases eq_or_mem_of_mem_pushChar hl hc with rfl | ⟨k, hk, hc⟩
    · exact List.mem_cons_self
    · exact List.mem_cons_of_mem d (ih hk hc)

theorem trimEnd_of_isLine (hl : IsLine l) : trimEnd l = l := by
  have hhead : l.reverse.dropWhile isLineEnd = l.reverse := by
    cases hreverse : l.reverse with
    | nil => rfl
    | cons c cs =>
      have hc := hl c (List.mem_reverse.1 (hreverse ▸ List.mem_cons_self))
      rw [List.dropWhile_cons_of_neg (by simp [isLineEnd, hc])]
  rw [trimEnd, hhead, List.reverse_reverse]

theorem mem_of_mem_trimEnd (hc : c ∈ trimEnd cs) : c ∈ cs :=
  List.mem_reverse.1 ((List.dropWhile_sublist isLineEnd).subset (List.mem_reverse.1 hc))

/-! ## The last newline -/

theorem finished_append_unfinished (cs : List Char) : finished cs ++ unfinished cs = cs := by
  rw [finished, unfinished, ← List.reverse_append, List.takeWhile_append_dropWhile,
    List.reverse_reverse]

/-- A finished text is empty or ends with a newline. -/
theorem finished_eq (cs : List Char) : finished cs = [] ∨ ∃ l, finished cs = l ++ ['\n'] := by
  unfold finished
  cases hdrop : cs.reverse.dropWhile (· ≠ '\n') with
  | nil => exact Or.inl rfl
  | cons c rest =>
    have hc : c = '\n' := by
      have hhead := List.head?_dropWhile_not (fun c => decide (c ≠ '\n')) cs.reverse
      rw [hdrop] at hhead
      simpa using hhead
    exact Or.inr ⟨rest.reverse, by rw [hc, List.reverse_cons]⟩

theorem pushChar_ne_nil : pushChar c ls ≠ [] := by
  unfold pushChar
  split
  · exact List.cons_ne_nil _ _
  · split <;> exact List.cons_ne_nil _ _

theorem pushChar_append (hls : ls ≠ []) : pushChar c (ls ++ ms) = pushChar c ls ++ ms := by
  obtain ⟨l, ls, rfl⟩ := List.exists_cons_of_ne_nil hls
  by_cases hc : c = '\n'
  · subst hc
    rfl
  · rw [List.cons_append, pushChar_cons hc, pushChar_cons hc, List.cons_append]

theorem lines_newline_append (cs more : List Char) :
    lines (cs ++ '\n' :: more) = lines (cs ++ ['\n']) ++ lines more := by
  induction cs with
  | nil => rfl
  | cons c cs ih =>
    have hlines : lines (cs ++ ['\n']) ≠ [] := by
      cases cs with
      | nil => exact List.cons_ne_nil _ _
      | cons d cs => exact pushChar_ne_nil
    rw [List.cons_append, List.cons_append, lines_cons, lines_cons, ih, pushChar_append hlines]

/-- The lines of a finished text stand for themselves. -/
theorem lines_finished_append (cs more : List Char) :
    lines (finished cs ++ more) = lines (finished cs) ++ lines more := by
  rcases finished_eq cs with h | ⟨l, h⟩
  · rw [h]
    rfl
  · rw [h, List.append_assoc, List.singleton_append, lines_newline_append]

/-- What is behind a finished text has its own last newline. -/
theorem finished_finished_append (cs more : List Char) :
    finished (finished cs ++ more) = finished cs ++ finished more := by
  rcases finished_eq cs with h | ⟨l, h⟩
  · rw [h]
    rfl
  · rw [h]
    simp only [finished, List.reverse_append, List.reverse_cons, List.reverse_nil, List.nil_append,
      List.dropWhile_append, List.singleton_append]
    split
    · next hempty => rw [List.isEmpty_iff.1 hempty]; simp
    · simp

/-- A finished text leaves the end of what is behind it as it is. -/
theorem unfinished_finished_append (cs more : List Char) :
    unfinished (finished cs ++ more) = unfinished more := by
  have h := finished_append_unfinished (finished cs ++ more)
  rw [finished_finished_append, List.append_assoc] at h
  exact List.append_cancel_left
    ((List.append_cancel_left h).trans (finished_append_unfinished more).symm)

end IntCalc.Text
