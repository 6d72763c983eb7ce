import TypeGuard.Proofs.Grammar.Context
import TypeGuard.Proofs.Grammar.Place

/-! # The coordinates of a report

A report states a place of a text as an offset and as a line with a column, it cites the line, and it
shows the line with a caret below. For every place of the text, its end included, these agree: the
line is one of the text, so that there is a line to cite; the lines before it and the column add up
to the offset; and in the context there is one line with a caret, directly below the line.
-/

namespace TypeGuard

open Text

namespace Text

/-- The offset at which a line begins: the lengths of the lines before it, each with its line feed. -/
def offsetOfLine (cs : List Char) (line : ℕ) : ℕ :=
  (((lines cs).take (line - 1)).map (·.length + 1)).sum

theorem offsetOfLine_append (before after : List Char) :
    offsetOfLine (before ++ after) (before.count '\n' + 1) + (lastLine before).length =
      before.length := by
  obtain ⟨ls, hlines, hlength, hsum⟩ := exists_lines_before before after
  rw [offsetOfLine, Nat.add_sub_cancel, hlines, ← hlength, List.take_left, hsum]

end Text

namespace GrammarError

/-! ## Lines with a caret -/

def isCaretLine (l : List Char) : Bool :=
  l.dropWhile (· = ' ') = ['^']

theorem isCaretLine_caret (column : ℤ) : isCaretLine (caret column) = true := by
  have hspaces (n : ℕ) (l : List Char) :
      (List.replicate n ' ' ++ l).dropWhile (· = ' ') = l.dropWhile (· = ' ') :=
    List.dropWhile_append_of_pos fun c hc => decide_eq_true (List.eq_of_mem_replicate hc)
  rw [isCaretLine, caret, List.append_assoc, hspaces, hspaces]
  decide

/-- A numbered line has a colon behind its number. -/
theorem isCaretLine_shownLine (source : String) (n : ℕ) :
    isCaretLine (shownLine source n) = false := by
  have hcolon : ':' ∈ shownLine source n := by simp [shownLine, linePrefix]
  rw [← List.takeWhile_append_dropWhile (p := (· = ' ')) (l := shownLine source n)] at hcolon
  refine decide_eq_false fun hcaret => ?_
  rw [hcaret] at hcolon
  rcases List.mem_append.mp hcolon with hmem | hmem
  · exact absurd (List.mem_takeWhile_imp hmem) (by decide)
  · exact absurd hmem (by decide)

theorem filter_isCaretLine_shownLines (source : String) (ns : List ℕ) :
    (ns.map (shownLine source)).filter isCaretLine = [] := by
  rw [List.filter_eq_nil_iff, List.forall_mem_map]
  exact fun n _ => Bool.eq_false_iff.mp (isCaretLine_shownLine source n)

/-! ## The context -/

theorem newline_not_mem_contextLines {source : List Char} {line column size : ℤ} :
    ∀ l ∈ contextLines source line column size, '\n' ∉ l := by
  intro l hl
  obtain ⟨⟨k, i⟩, hk, hl⟩ := List.mem_flatMap.mp hl
  have hmem : k ∈ lines source :=
    List.fst_mem_of_mem_zipIdx (List.mem_of_mem_take (List.mem_of_mem_drop hk))
  have hshown : '\n' ∉ linePrefix (i + 1) ++ k := fun h =>
    (List.mem_append.mp h).elim (newline_not_mem_linePrefix _) (not_mem_of_mem_lines hmem)
  unfold contextLine at hl
  split at hl
  · rcases List.mem_pair.mp hl with rfl | rfl
    · exact hshown
    · exact newline_not_mem_caret column
  · rw [List.mem_singleton.mp hl]
    exact hshown

theorem lines_contextAt (source : String) {line : ℕ} (column size : ℕ) (hline : 1 ≤ line)
    (hlines : line ≤ (lines source.toList).length) :
    lines (contextAt source line column size).toList =
      contextLines source.toList line column size := by
  rw [contextAt, String.toList_ofList, joinLines]
  refine lines_intercalate newline_not_mem_contextLines ?_
  rw [contextLines_eq source column size hline hlines]
  exact List.append_ne_nil_of_right_ne_nil _ (List.cons_ne_nil _ _)

theorem contextAt_caret (source : String) {line : ℕ} (column size : ℕ) (hline : 1 ≤ line)
    (hlines : line ≤ (lines source.toList).length) :
    [shownLine source line, caret column] <:+:
        lines (contextAt source line column size).toList ∧
      (lines (contextAt source line column size).toList).filter isCaretLine = [caret column] := by
  rw [lines_contextAt source column size hline hlines,
    contextLines_eq source column size hline hlines]
  constructor
  · rw [List.Ico.succ_top (by omega), List.map_append, List.append_assoc]
    exact ⟨_, _, by rw [List.append_assoc]; rfl⟩
  · rw [List.filter_append, List.filter_cons_of_pos (isCaretLine_caret column),
      filter_isCaretLine_shownLines, filter_isCaretLine_shownLines, List.nil_append]

/-! ## The report -/

theorem cited_ne_unknown (text : List Char) : cited text ≠ "unknown" := by
  cases text with
  | nil => decide
  | cons c cs =>
    rw [cited_cons]
    intro h
    have hlist := congrArg String.toList h
    rw [String.toList_ofList] at hlist
    cases hlist

/-- A report of any place of a text, with any message, has coordinates that agree. Its line is one of
the text and its column reaches no further than behind the line's end; the lines before the line
and the columns before the column make up the offset. The line that it cites is found, so what
stands there is never unknown. Its context shows the line and below it the caret, and shows no other
caret. -/
theorem ofFault_coordinates (source : String) (message : List Char) {offset : ℕ}
    (h : offset ≤ source.toList.length) :
    ∃ (line column : ℕ) (l : List Char) (got context : String),
      let e := ofFault ⟨source.toList, offset, message⟩ source
      e.location = offset ∧ e.line = line ∧ e.column = column ∧
      1 ≤ line ∧ line ≤ (lines source.toList).length ∧
      offsetOfLine source.toList line + (column - 1) = offset ∧
      lineNumbered (lines source.toList) line = some l ∧ 1 ≤ column ∧ column ≤ l.length + 1 ∧
      e.got = some got ∧ got ≠ "unknown" ∧ e.context = some context ∧
      [linePrefix line ++ l, caret column] <:+: lines context.toList ∧
      (lines context.toList).filter isCaretLine = [caret column] := by
  obtain ⟨before, after, hsource, rfl⟩ :
      ∃ before after, source.toList = before ++ after ∧ offset = before.length :=
    ⟨_, _, (List.take_append_drop offset _).symm, (List.length_take_of_le h).symm⟩
  have hline : (Fault.mk source.toList before.length message).line = before.count '\n' + 1 := by
    rw [Fault.line, hsource, lineAt_append]
  have hcolumn : (Fault.mk source.toList before.length message).column =
      (lastLine before).length + 1 := by
    rw [Fault.column, hsource, columnAt_append]
  have hlines : before.count '\n' + 1 ≤ (lines source.toList).length := by
    rw [length_lines, hsource, List.count_append]
    omega
  have hoffset := offsetOfLine_append before after
  have hget := getElem?_lines before after
  rw [← hsource] at hoffset hget
  obtain ⟨hbelow, honly⟩ :=
    contextAt_caret source ((lastLine before).length + 1) 1 (Nat.le_add_left 1 _) hlines
  rw [shownLine, Nat.add_sub_cancel, List.getD_eq_getElem?_getD, hget] at hbelow
  simp only [ofFault, hline, hcolumn, gotAt_place source hsource]
  refine ⟨before.count '\n' + 1, (lastLine before).length + 1, _, _, _, trivial, rfl, rfl,
    Nat.le_add_left 1 _, hlines, hoffset, (lineNumbered_succ _ _).trans hget, Nat.le_add_left 1 _, ?_,
    rfl, cited_ne_unknown _, rfl, hbelow, honly⟩
  rw [List.length_append]
  omega

/-- The report of the place behind a last line feed is about the empty line there. -/
theorem ofFault_coordinates_of_newline :
    let e := ofFault ⟨"[\n".toList, 2, "Expected ']'".toList⟩ "[\n"
    2 ≤ "[\n".toList.length ∧ e.line = 2 ∧ e.column = 1 ∧ offsetOfLine "[\n".toList 2 = 2 ∧
      e.got = some "end of expression" ∧ ∃ context, e.context = some context ∧
        [linePrefix 2, caret 1] <:+: lines context.toList ∧
        (lines context.toList).filter isCaretLine = [caret 1] := by
  intro e
  have hoffset : 2 ≤ "[\n".toList.length := by decide
  obtain ⟨line, column, l, got, context, -, hline, hcolumn, -, -, hplace, hl, -, -, -, -, hcontext,
    hbelow, honly⟩ := ofFault_coordinates "[\n" "Expected ']'".toList hoffset
  obtain rfl : 2 = line := by
    have hsecond : ((2 : ℕ) : ℤ) = line := hline
    omega
  obtain rfl : 1 = column := by
    have hfirst : ((1 : ℕ) : ℤ) = column := hcolumn
    omega
  obtain rfl : [] = l := Option.some.inj hl
  rw [List.append_nil] at hbelow
  exact ⟨hoffset, hline, hcolumn, hplace, by decide, context, hcontext, hbelow, honly⟩

end GrammarError

end TypeGuard
