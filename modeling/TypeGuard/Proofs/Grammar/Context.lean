import Mathlib
import TypeGuard.Grammar.Error
import TypeGuard.Proofs.Grammar.Lines
import TypeGuard.Proofs.Number.Writing

/-! # The context of a place

The context shows the numbered lines around a line, and a caret below that line. The number stands
in four columns, which is enough for the first 9999 lines of a text. The indentation of the caret
counts on these four columns: below a line with a longer number the caret stands too far left, by
one column for each further digit.
-/

namespace TypeGuard.GrammarError

/-- A line of a text, numbered from one, as the context shows it. -/
def shownLine (source : String) (n : ℕ) : List Char :=
  linePrefix n ++ (Text.lines source.toList).getD (n - 1) []

/-- The index in `shownLine` at which a column of the line stands. -/
def shownColumn (line column : ℕ) : ℕ :=
  (linePrefix line).length + (column - 1)

def caretColumn (column : ℕ) : ℕ :=
  (caret column).idxOf '^'

/-! ## Columns -/

theorem length_linePrefix (n : ℕ) : (linePrefix n).length = max 4 (digitChars n).length + 2 := by
  simp only [linePrefix, List.length_append, List.length_replicate, List.length_cons,
    List.length_nil]
  omega

theorem caret_eq {column : ℕ} (h : 1 ≤ column) :
    caret column = List.replicate (5 + column) ' ' ++ ['^'] := by
  have hcolumn : ((column : ℤ) - 1).toNat = column - 1 := by omega
  rw [caret, hcolumn, List.replicate_append_replicate]
  congr 2
  omega

theorem caretColumn_eq {column : ℕ} (h : 1 ≤ column) : caretColumn column = 5 + column := by
  have hspaces : '^' ∉ List.replicate (5 + column) ' ' := fun hmem =>
    absurd (List.eq_of_mem_replicate hmem) (by decide)
  rw [caretColumn, caret_eq h, List.idxOf_append_of_notMem hspaces, List.length_replicate,
    List.idxOf_cons_self, Nat.add_zero]

/-- The caret falls short by the digits for which its indentation does not provide. -/
theorem caretColumn_add (line : ℕ) {column : ℕ} (h : 1 ≤ column) :
    caretColumn column + ((digitChars line).length - 4) = shownColumn line column := by
  rw [caretColumn_eq h, shownColumn, length_linePrefix]
  omega

theorem caretColumn_eq_iff (line : ℕ) {column : ℕ} (h : 1 ≤ column) :
    caretColumn column = shownColumn line column ↔ line < 10000 := by
  have hdigits : (digitChars line).length ≤ 4 ↔ line < 10 ^ 4 :=
    length_digitChars_le_iff (by norm_num)
  have hadd := caretColumn_add line h
  constructor
  · intro heq
    apply hdigits.mp
    omega
  · intro hline
    have hle := hdigits.mpr hline
    omega

theorem getElem?_shownLine (source : String) (line column : ℕ) :
    (shownLine source line)[shownColumn line column]? =
      ((Text.lines source.toList).getD (line - 1) [])[column - 1]? := by
  rw [shownLine, shownColumn, List.getElem?_append_right (Nat.le_add_right _ _),
    Nat.add_sub_cancel_left]

theorem newline_not_mem_linePrefix (n : ℕ) : '\n' ∉ linePrefix n := by
  have hdigits : '\n' ∉ digitChars n := fun hmem =>
    absurd (isDigit_digitChars n '\n' hmem) (by decide)
  have hspaces : '\n' ∉ List.replicate (4 - (digitChars n).length) ' ' := fun hmem =>
    absurd (List.eq_of_mem_replicate hmem) (by decide)
  simp [linePrefix, hdigits, hspaces]

theorem newline_not_mem_shownLine (source : String) (n : ℕ) : '\n' ∉ shownLine source n := by
  have hline : '\n' ∉ (Text.lines source.toList).getD (n - 1) [] := by
    rw [List.getD_eq_getElem?_getD]
    cases h : (Text.lines source.toList)[n - 1]? with
    | none => exact List.not_mem_nil
    | some l => exact Text.not_mem_of_mem_lines (List.mem_of_getElem? h)
  exact fun hmem =>
    (List.mem_append.mp hmem).elim (newline_not_mem_linePrefix n) hline

theorem newline_not_mem_caret (column : ℤ) : '\n' ∉ caret column := by
  simp [caret]

/-! ## The window -/

theorem drop_take_zipIdx (ls : List (List Char)) (first last : ℕ) :
    (ls.zipIdx.take last).drop first =
      (List.Ico first (min last ls.length)).map fun i => (ls.getD i [], i) := by
  apply List.ext_getElem
  · simp
  · intro k hk hk'
    simp only [List.length_map, List.Ico.length] at hk'
    have hget : first + k < ls.length := by omega
    simp [List.Ico, List.getD_eq_getElem?_getD, List.getElem?_eq_getElem hget]

theorem contextLine_self (line column : ℕ) (h : 1 ≤ line) (l : List Char) :
    contextLine line column (l, line - 1) = [linePrefix line ++ l, caret column] := by
  have hline : ((line - 1 : ℕ) : ℤ) = (line : ℤ) - 1 := by omega
  simp only [contextLine, if_pos hline, Nat.sub_add_cancel h]

theorem contextLine_of_ne {line i : ℕ} (h : i ≠ line - 1) (hline : 1 ≤ line) (column : ℕ)
    (l : List Char) : contextLine line column (l, i) = [linePrefix (i + 1) ++ l] := by
  have hi : (i : ℤ) ≠ (line : ℤ) - 1 := by omega
  simp only [contextLine, if_neg hi]

theorem flatMap_contextLine (source : String) {line a b : ℕ} (column : ℕ) (hline : 1 ≤ line)
    (h : ∀ i ∈ List.Ico a b, i ≠ line - 1) :
    ((List.Ico a b).flatMap fun i =>
        contextLine line column ((Text.lines source.toList).getD i [], i)) =
      (List.Ico (a + 1) (b + 1)).map (shownLine source) := by
  have hone : ∀ i ∈ List.Ico a b,
      contextLine line column ((Text.lines source.toList).getD i [], i) =
        [shownLine source (1 + i)] := by
    intro i hi
    rw [contextLine_of_ne (h i hi) hline, shownLine, Nat.add_comm 1 i, Nat.add_sub_cancel]
  calc (List.Ico a b).flatMap _
      = (List.Ico a b).flatMap fun i => [shownLine source (1 + i)] := List.flatMap_congr hone
    _ = ((List.Ico a b).map (1 + ·)).map (shownLine source) := by
        rw [List.map_map, List.map_eq_flatMap]
        rfl
    _ = (List.Ico (a + 1) (b + 1)).map (shownLine source) := by rw [List.Ico.map_add]

theorem contextLines_eq (source : String) {line : ℕ} (column size : ℕ) (hline : 1 ≤ line)
    (hlines : line ≤ (Text.lines source.toList).length) :
    contextLines source.toList line column size =
      (List.Ico (max 1 (line - size)) (line + 1)).map (shownLine source) ++ caret column ::
        (List.Ico (line + 1) (min (Text.lines source.toList).length (line + size) + 1)).map
          (shownLine source) := by
  have hfirst : ((line : ℤ) - size - 1).toNat = line - size - 1 := by omega
  have hlast : ((line : ℤ) + size).toNat = line + size := by omega
  rw [contextLines, hfirst, hlast, drop_take_zipIdx, List.flatMap_map]
  generalize hn : (Text.lines source.toList).length = n at hlines ⊢
  have hsplit : List.Ico (line - size - 1) (min (line + size) n) =
      List.Ico (line - size - 1) (line - 1) ++
        (line - 1) :: List.Ico line (min (line + size) n) := by
    rw [← List.Ico.append_consecutive (m := line - 1) (by omega) (by omega),
      List.Ico.eq_cons (n := line - 1) (by omega), Nat.sub_add_cancel hline]
  have hbefore : ∀ i ∈ List.Ico (line - size - 1) (line - 1), i ≠ line - 1 := fun i hi =>
    (List.Ico.mem.mp hi).2.ne
  have hafter : ∀ i ∈ List.Ico line (min (line + size) n), i ≠ line - 1 := fun i hi => by
    have := (List.Ico.mem.mp hi).1
    omega
  have hself : shownLine source line =
      linePrefix line ++ (Text.lines source.toList).getD (line - 1) [] := rfl
  have hupto : List.Ico (max 1 (line - size)) (line + 1) =
      List.Ico (line - size - 1 + 1) (line - 1 + 1) ++ [line] := by
    rw [Nat.sub_add_cancel hline, List.Ico.succ_top (by omega)]
    congr 2
    omega
  rw [hsplit, List.flatMap_append, List.flatMap_cons, flatMap_contextLine source column hline hbefore,
    contextLine_self line column hline, ← hself, flatMap_contextLine source column hline hafter, hupto,
    min_comm]
  simp

/-- The context of a line shows the lines from `size` lines before it to `size` lines after it, as
far as the text has them, in their order and each behind its number, and the caret directly below
the line. The caret stands below the given column of the line for the first 9999 lines only: its
indentation is that of a number in four columns. -/
theorem contextAt_shows (source : String) {line column : ℕ} (size : ℕ) (hline : 1 ≤ line)
    (hlines : line ≤ (Text.lines source.toList).length) (hcolumn : 1 ≤ column) :
    Text.lines (contextAt source line column size).toList =
        (List.Ico (max 1 (line - size)) (line + 1)).map (shownLine source) ++ caret column ::
          (List.Ico (line + 1) (min (Text.lines source.toList).length (line + size) + 1)).map
            (shownLine source) ∧
      caret column = List.replicate (caretColumn column) ' ' ++ ['^'] ∧
      (shownLine source line)[shownColumn line column]? =
        ((Text.lines source.toList).getD (line - 1) [])[column - 1]? ∧
      (caretColumn column = shownColumn line column ↔ line < 10000) := by
  refine ⟨?_, ?_, getElem?_shownLine source line column, caretColumn_eq_iff line hcolumn⟩
  · rw [contextAt, String.toList_ofList, joinLines, contextLines_eq source column size hline hlines]
    apply Text.lines_intercalate
    · intro l hl
      rcases List.mem_append.mp hl with hl | hl
      · obtain ⟨n, -, rfl⟩ := List.mem_map.mp hl
        exact newline_not_mem_shownLine source n
      · rcases List.mem_cons.mp hl with rfl | hl
        · exact newline_not_mem_caret column
        · obtain ⟨n, -, rfl⟩ := List.mem_map.mp hl
          exact newline_not_mem_shownLine source n
    · simp
  · rw [caretColumn_eq hcolumn, caret_eq hcolumn]

theorem exists_lastLine (n : ℕ) (l : List Char) (h : '\n' ∉ l) :
    ∃ source : String, (Text.lines source.toList).length = n + 1 ∧
      (Text.lines source.toList).getD n [] = l := by
  have hlines : Text.lines (String.ofList (List.replicate n '\n' ++ l)).toList =
      List.replicate n [] ++ [l] := by
    rw [String.toList_ofList, Text.lines_replicate_newline, Text.lines_of_not_mem h]
  refine ⟨String.ofList (List.replicate n '\n' ++ l), ?_, ?_⟩
  · rw [hlines]
    simp
  · rw [hlines]
    simp [List.getD_eq_getElem?_getD]

/-- Below the only character of a ten thousandth line the caret stands one column too far left. -/
theorem contextAt_shows_tenThousandth :
    ∃ source : String, 10000 ≤ (Text.lines source.toList).length ∧
      Text.lines (contextAt source 10000 1 0).toList = [shownLine source 10000, caret 1] ∧
      (shownLine source 10000)[shownColumn 10000 1]? = some 'x' ∧
      caretColumn 1 ≠ shownColumn 10000 1 := by
  obtain ⟨source, hlength, hlast⟩ := exists_lastLine 9999 ['x'] (by decide)
  have hline : 1 ≤ 10000 := by norm_num
  obtain ⟨hshown, -, hchar, hcaret⟩ := contextAt_shows source 0 hline hlength.ge (le_refl 1)
  refine ⟨source, hlength.ge, ?_, ?_, fun h => absurd (hcaret.mp h) (by norm_num)⟩
  · rw [hlength] at hshown
    exact hshown
  · rw [hchar, hlast]
    rfl

end TypeGuard.GrammarError
