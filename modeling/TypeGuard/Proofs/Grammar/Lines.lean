import Mathlib
import TypeGuard.Text.Layout

/-! # Lines of a text

A text is cut into lines at its line feeds, and joining the lines with line feeds gives the text
back. A place in the text stands in the line whose number is the number of line feeds before it.
-/

namespace TypeGuard.Text

variable {c : Char} {cs l : List Char}

theorem lines_newline (cs : List Char) : lines ('\n' :: cs) = [] :: lines cs := by
  rw [lines, if_pos rfl]

theorem lines_cons (hc : c ≠ '\n') (cs : List Char) :
    lines (c :: cs) = (lines cs).modifyHead (c :: ·) := by
  rw [lines, if_neg hc]
  cases h : lines cs with
  | nil => exact absurd h (lines_ne_nil cs)
  | cons l ls => rfl

theorem lines_replicate_newline (n : ℕ) (cs : List Char) :
    lines (List.replicate n '\n' ++ cs) = List.replicate n [] ++ lines cs := by
  induction n with
  | zero => rfl
  | succ n ih => rw [List.replicate_succ, List.cons_append, lines_newline, ih]; rfl

theorem lines_eq_splitOn (cs : List Char) : lines cs = cs.splitOn '\n' := by
  induction cs with
  | nil => rfl
  | cons c cs ih =>
    rw [List.splitOn, List.splitOnP_cons_eq_if_modifyHead]
    by_cases hc : c = '\n'
    · rw [hc, lines_newline, ih]
      rfl
    · rw [lines_cons hc, ih, if_neg (by simpa using hc)]
      rfl

/-- A text that is joined from lines has these lines. -/
theorem lines_intercalate {ls : List (List Char)} (h : ∀ l ∈ ls, '\n' ∉ l) (hne : ls ≠ []) :
    lines (List.intercalate ['\n'] ls) = ls := by
  rw [lines_eq_splitOn, List.splitOn_intercalate '\n' h hne]

theorem lines_of_not_mem (h : '\n' ∉ l) : lines l = [l] := by
  have hjoin : List.intercalate ['\n'] [l] = l := by simp
  have hlines := lines_intercalate (List.forall_mem_singleton.mpr h) (List.cons_ne_nil l [])
  rwa [hjoin] at hlines

theorem not_mem_of_mem_lines (h : l ∈ lines cs) : '\n' ∉ l := by
  induction cs generalizing l with
  | nil =>
    rw [List.mem_singleton.mp h]
    exact List.not_mem_nil
  | cons c cs ih =>
    by_cases hc : c = '\n'
    · rw [hc, lines_newline] at h
      rcases List.mem_cons.mp h with rfl | h
      · exact List.not_mem_nil
      · exact ih h
    · rw [lines_cons hc] at h
      cases hls : lines cs with
      | nil => exact absurd hls (lines_ne_nil cs)
      | cons k ks =>
        rw [hls] at h ih
        rcases List.mem_cons.mp h with rfl | h
        · exact not_or.mpr ⟨Ne.symm hc, ih List.mem_cons_self⟩ ∘ List.mem_cons.mp
        · exact ih (List.mem_cons_of_mem k h)

/-! ## The line of a place -/

theorem forall_ne_newline (h : '\n' ∉ l) : ∀ c ∈ l, decide (c ≠ '\n') = true := fun _ hc =>
  decide_eq_true fun hline => h (hline ▸ hc)

def lastLine (cs : List Char) : List Char :=
  (cs.reverse.takeWhile (· ≠ '\n')).reverse

theorem newline_not_mem_lastLine (cs : List Char) : '\n' ∉ lastLine cs := fun hmem =>
  absurd (List.mem_takeWhile_imp (List.mem_reverse.mp hmem)) (by decide)

theorem lastLine_of_not_mem (h : '\n' ∉ l) : lastLine l = l := by
  have hall := forall_ne_newline (mt List.mem_reverse.mp h)
  rw [lastLine, List.takeWhile_eq_self_iff.mpr hall, List.reverse_reverse]

theorem lastLine_append (cs : List Char) (h : '\n' ∉ l) : lastLine (cs ++ '\n' :: l) = l := by
  have hall := forall_ne_newline (mt List.mem_reverse.mp h)
  rw [lastLine, List.reverse_append, List.reverse_cons, List.append_assoc,
    List.takeWhile_append_of_pos hall]
  simp

theorem eq_lastLine_or (cs : List Char) :
    lastLine cs = cs ∨ ∃ before, cs = before ++ '\n' :: lastLine cs := by
  by_cases h : '\n' ∈ cs
  · obtain ⟨l, before, hcs, hl⟩ := List.eq_append_cons_of_mem (List.mem_reverse.mpr h)
    have hsplit : cs = before.reverse ++ '\n' :: l.reverse := by
      rw [← List.reverse_reverse cs, hcs]
      simp
    have hlast : lastLine cs = l.reverse := by
      rw [hsplit]
      exact lastLine_append _ (mt List.mem_reverse.mp hl)
    exact .inr ⟨before.reverse, by rw [hlast]; exact hsplit⟩
  · exact .inl (lastLine_of_not_mem h)

theorem lines_append_newline (as bs : List Char) :
    lines (as ++ '\n' :: bs) = lines as ++ lines bs := by
  induction as with
  | nil => exact lines_newline bs
  | cons c as ih =>
    by_cases hc : c = '\n'
    · rw [hc, List.cons_append, lines_newline, lines_newline, ih]
      rfl
    · rw [List.cons_append, lines_cons hc, lines_cons hc, ih]
      cases h : lines as with
      | nil => exact absurd h (lines_ne_nil as)
      | cons l ls => rfl

theorem lines_flatMap_newline {ls : List (List Char)} (h : ∀ l ∈ ls, '\n' ∉ l) :
    lines (ls.flatMap (· ++ ['\n'])) = ls ++ [[]] := by
  induction ls with
  | nil => rfl
  | cons l ls ih =>
    obtain ⟨hl, hls⟩ := List.forall_mem_cons.mp h
    rw [List.flatMap_cons, List.append_assoc, List.singleton_append, lines_append_newline,
      lines_of_not_mem hl, ih hls]
    rfl

theorem head?_lines (cs : List Char) : (lines cs)[0]? = some (cs.takeWhile (· ≠ '\n')) := by
  induction cs with
  | nil => rfl
  | cons c cs ih =>
    by_cases hc : c = '\n'
    · rw [hc, lines_newline]
      rfl
    · rw [lines_cons hc, List.takeWhile_cons_of_pos (by simpa using hc)]
      cases h : lines cs with
      | nil => exact absurd h (lines_ne_nil cs)
      | cons l ls =>
        rw [h] at ih
        rw [← Option.some.inj ih]
        rfl

theorem sum_length_lines (cs : List Char) :
    ((lines cs).map (·.length + 1)).sum = cs.length + 1 := by
  induction cs with
  | nil => rfl
  | cons c cs ih =>
    by_cases hc : c = '\n'
    · rw [hc, lines_newline, List.map_cons, List.sum_cons, ih, List.length_nil, List.length_cons,
        Nat.add_comm]
    · rw [lines_cons hc]
      cases h : lines cs with
      | nil => exact absurd h (lines_ne_nil cs)
      | cons l ls =>
        rw [h, List.map_cons, List.sum_cons] at ih
        rw [List.modifyHead_cons, List.map_cons, List.sum_cons, List.length_cons, List.length_cons]
        omega

/-- Before the line of a place stand as many lines as line feeds, and they make up the text up to
there. -/
theorem exists_lines_before (before after : List Char) :
    ∃ ls, lines (before ++ after) = ls ++ lines (lastLine before ++ after) ∧
      ls.length = before.count '\n' ∧
      (ls.map (·.length + 1)).sum + (lastLine before).length = before.length := by
  have hlast := newline_not_mem_lastLine before
  rcases eq_lastLine_or before with h | ⟨as, h⟩
  · refine ⟨[], by rw [h, List.nil_append], ?_, by rw [h, List.map_nil, List.sum_nil, Nat.zero_add]⟩
    exact (List.count_eq_zero.mpr (h ▸ hlast)).symm
  · refine ⟨lines as, ?_, ?_, ?_⟩
    · conv_lhs => rw [h]
      rw [List.append_assoc, List.cons_append, lines_append_newline]
    · rw [h, List.count_append, List.count_cons_self, List.count_eq_zero.mpr hlast, length_lines]
    · have hlength := congrArg List.length h
      rw [List.length_append, List.length_cons] at hlength
      rw [sum_length_lines]
      omega

/-- The line of a place goes on behind the last line of the text before it. -/
theorem getElem?_lines (before after : List Char) :
    (lines (before ++ after))[before.count '\n']? =
      some (lastLine before ++ after.takeWhile (· ≠ '\n')) := by
  obtain ⟨ls, hlines, hlength, -⟩ := exists_lines_before before after
  rw [hlines, ← hlength, List.getElem?_append_right le_rfl, Nat.sub_self, head?_lines,
    List.takeWhile_append_of_pos (forall_ne_newline (newline_not_mem_lastLine before))]

theorem lineAt_append (before after : List Char) :
    lineAt (before ++ after) before.length = before.count '\n' + 1 := by
  rw [lineAt, List.take_left]

theorem columnAt_append (before after : List Char) :
    columnAt (before ++ after) before.length = (lastLine before).length + 1 := by
  have hle : (before.reverse.takeWhile (· ≠ '\n')).length ≤ before.length :=
    (List.takeWhile_sublist _).length_le.trans_eq List.length_reverse
  rw [columnAt, lineStart, List.take_left, lastLine, List.length_reverse]
  omega

end TypeGuard.Text
