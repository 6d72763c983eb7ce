import TypeGuard.Proofs.Grammar.Place

/-! # Hints

A report hints that a literal text is not closed if there is a quote in what it says of the place. A
citation is itself written between quotes, so the hint is given with every citation, whatever is
cited: exactly if what follows the place on its line, up to eleven characters, is not all white
space.
-/

namespace TypeGuard

open Text Grammar

variable {before after : List Char} {source : String} {e : GrammarError}

theorem mem_trim_iff {c : Char} (hc : isBlank c = false) (cs : List Char) : c ∈ trim cs ↔ c ∈ cs := by
  have hdrop (ds : List Char) : c ∈ ds.dropWhile isBlank ↔ c ∈ ds := by
    have hnot : c ∉ ds.takeWhile isBlank := fun hmem =>
      absurd (List.mem_takeWhile_imp hmem) (by simp [hc])
    conv_rhs => rw [← List.takeWhile_append_dropWhile (p := isBlank) (l := ds), List.mem_append]
    exact (or_iff_right hnot).symm
  rw [trim, List.mem_reverse, hdrop, List.mem_reverse, hdrop]

namespace GrammarError

def unclosedHint : String :=
  "String literals must be closed with the same quote they open with"

def IsQuote (c : Char) : Prop :=
  c = '\'' ∨ c = '"'

theorem IsQuote.not_blank {c : Char} (h : IsQuote c) : isBlank c = false := by
  rcases h with rfl | rfl <;> decide

theorem unclosedHint_mem_suggestionsFor_iff (source got : String) :
    unclosedHint ∈ suggestionsFor source got ↔ ∃ c ∈ got.toList, IsQuote c := by
  have hquotes : (∃ c ∈ got.toList, IsQuote c) ↔ '\'' ∈ got.toList ∨ '"' ∈ got.toList := by
    simp [IsQuote, and_or_left, exists_or]
  rw [hquotes]
  simp [suggestionsFor, unclosedHint]

theorem exists_quote_cited_iff (text : List Char) :
    (∃ c ∈ (cited text).toList, IsQuote c) ↔ text ≠ [] := by
  cases text with
  | nil => simp [cited, IsQuote]
  | cons c cs =>
    rw [cited_cons, String.toList_ofList]
    exact iff_of_true ⟨'\'', List.mem_cons_self, .inl rfl⟩ (List.cons_ne_nil c cs)

/-- The eleven characters of a line, or as many as it has, behind the given number of others. -/
def window (line : List Char) (column : ℕ) : List Char :=
  (line.drop column).take 11

theorem fragment_succ (line : List Char) (column : ℕ) :
    fragment line (column + 1 : ℕ) = trim (window line column) := by
  have hfirst : (((column + 1 : ℕ) : ℤ) - 1).toNat = column := by omega
  have hlast : min (line.length : ℤ) (((column + 1 : ℕ) : ℤ) + 10) =
      ((min line.length (column + 11) : ℕ) : ℤ) := by omega
  rw [fragment, hfirst, hlast, slice, if_neg (by omega), Int.toNat_natCast, window, List.take_drop,
    min_comm, ← List.take_eq_take_min]

/-- What a report says of a place is what the line holds there, if anything. -/
theorem gotAt_window (source : String) (h : source.toList = before ++ after) (column : ℕ) :
    gotAt source (before.count '\n' + 1 : ℕ) (column + 1 : ℕ) =
      cited (trim (window (lastLine before ++ after.takeWhile (· ≠ '\n')) column)) := by
  rw [gotAt_place source h, fragment_succ]
  split_ifs with hcolumn
  · rfl
  · have hnone : window (lastLine before ++ after.takeWhile (· ≠ '\n')) column = [] := by
      rw [window, List.drop_of_length_le (by omega), List.take_nil]
    rw [hnone]
    rfl

end GrammarError

open GrammarError

theorem TypeExpr.suggestions_of_parse_error {got : String} (h : TypeExpr.parse source = .error e)
    (hcontent : trim source.toList ≠ []) (hgot : e.got = some got) :
    e.suggestions = suggestionsFor source got := by
  cases hread : parseText (expandTabs source.toList) with
  | ok t =>
    rw [parse_eq_ok_iff_parseText.mpr hread] at h
    cases h
  | error f =>
    rw [parse_eq_error hcontent hread] at h
    cases h
    cases hgot
    rfl

/-- A report of a text with content cites what stands in the line from the reported column on, up to
eleven characters and without margins. It hints at a literal text that is not closed exactly if
there is something to cite. So the hint tells whether there is a quote in what is cited exactly if
there is one whenever something is cited: it is wrong for what is cited without containing a quote.
-/
theorem TypeExpr.parse_error_hint (h : TypeExpr.parse source = .error e)
    (hcontent : trim source.toList ≠ []) :
    ∃ (line column : ℕ) (l : List Char), e.line = (line + 1 : ℕ) ∧ e.column = (column + 1 : ℕ) ∧
      (lines source.toList)[line]? = some l ∧ e.got = some (cited (trim (window l column))) ∧
      (unclosedHint ∈ e.suggestions ↔ ∃ c ∈ window l column, isBlank c = false) ∧
      ((unclosedHint ∈ e.suggestions ↔ ∃ c ∈ trim (window l column), IsQuote c) ↔
        ((∃ c ∈ window l column, isBlank c = false) → ∃ c ∈ window l column, IsQuote c)) := by
  obtain ⟨before, after, -, -, hreports⟩ := parse_error_reports h hcontent
  have hgot := hreports.got
  rw [gotAt_window source hreports.split] at hgot
  generalize hl : lastLine before ++ after.takeWhile (· ≠ '\n') = l at hgot
  have hcolumn := hreports.column
  generalize (expandTabs (lastLine before)).length = column at hgot hcolumn
  have hhint : unclosedHint ∈ e.suggestions ↔ ∃ c ∈ window l column, isBlank c = false := by
    rw [suggestions_of_parse_error h hcontent hgot, unclosedHint_mem_suggestionsFor_iff,
      exists_quote_cited_iff, Ne, trim_eq_nil_iff]
    simp
  have hquote : (∃ c ∈ trim (window l column), IsQuote c) ↔ ∃ c ∈ window l column, IsQuote c :=
    exists_congr fun c => and_congr_left fun hc => mem_trim_iff hc.not_blank _
  have hcited : (∃ c ∈ window l column, IsQuote c) → ∃ c ∈ window l column, isBlank c = false :=
    fun ⟨c, hmem, hc⟩ => ⟨c, hmem, hc.not_blank⟩
  refine ⟨before.count '\n', column, l, hreports.line, hcolumn, ?_, hgot, hhint, ?_⟩
  · rw [hreports.split, getElem?_lines, hl]
  · rw [hhint, hquote]
    exact ⟨Iff.mp, fun h => ⟨h, hcited⟩⟩

/-- The report on two numbers cites the second one, which is no quote, and has the hint. -/
theorem TypeExpr.parse_error_hint_of_numbers :
    ∃ e, TypeExpr.parse "1 2" = .error e ∧ trim "1 2".toList ≠ [] ∧ e.got = some "'2'" ∧
      unclosedHint ∈ e.suggestions ∧ ¬ ∃ c ∈ trim (window ['1', ' ', '2'] 2), IsQuote c := by
  have hread : parseText (expandTabs "1 2".toList) = .error ⟨1, .endOfText⟩ := by cbv
  have hcontent : trim "1 2".toList ≠ [] := by decide
  have herror := parse_eq_error hcontent hread
  obtain ⟨line, column, l, hline, hcolumn, hl, hgot, hhint, -⟩ := parse_error_hint herror hcontent
  obtain rfl : line = 0 := by
    have hfirst : ((0 + 1 : ℕ) : ℤ) = (line + 1 : ℕ) := hline
    omega
  obtain rfl : column = 2 := by
    have hthird : ((2 + 1 : ℕ) : ℤ) = (column + 1 : ℕ) := hcolumn
    omega
  obtain rfl : ['1', ' ', '2'] = l := Option.some.inj hl
  refine ⟨_, herror, hcontent, hgot, hhint.mpr ⟨'2', by decide, by decide⟩, ?_⟩
  have htrim : trim (window ['1', ' ', '2'] 2) = ['2'] := by decide
  simp [htrim, IsQuote]

end TypeGuard
