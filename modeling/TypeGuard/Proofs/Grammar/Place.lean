import Mathlib
import TypeGuard.Grammar.Parser
import TypeGuard.Proofs.Grammar.Layout
import TypeGuard.Proofs.Grammar.Lines
import TypeGuard.Proofs.Grammar.Recognition
import TypeGuard.Proofs.Grammar.Stopping

/-! # The place of a grammar error

A text is laid out before it is read, so a reading stops at a place of the layout. This place
belongs to a character of the text, or to its end; the report of the error counts in the layout but
cites the text. Line numbers are not affected. Location and column are those of the layout: they
are too large if a tab before the place takes more than one column, and then what the report cites
stands elsewhere. The margins of a citation are cut, so that it lacks the character at the place if
that is white space without being a gap.
-/

namespace TypeGuard

open Text Grammar

variable {before after source : List Char}

/-! ## The place in the text -/

/-- The place of a text at which the reading of its layout stops: what stands before the place takes
as many columns as the reading got through. -/
def StopsAt (source : List Char) (i : ℕ) : Prop :=
  i ≤ source.length ∧ ∃ f, parseText (expandTabs source) = .error f ∧
    (Fault.ofFailure (expandTabs source) f).offset = (expandTabs (source.take i)).length

theorem getElem?_place (before after : List Char) :
    (before ++ after)[before.length]? = after.head? := by
  rw [List.getElem?_append_right le_rfl, Nat.sub_self, List.head?_eq_getElem?]

theorem length_expandTabs_append (before after : List Char) :
    (expandTabs before).length + after.length ≤ (expandTabs (before ++ after)).length := by
  obtain ⟨column, h⟩ := expandTabsFrom_append 0 before
  have hle := length_le_expandTabsFrom column after
  rw [expandTabs, expandTabs, h, List.length_append]
  omega

theorem length_expandTabs_take_lt {i j : ℕ} (hij : i < j) (hj : j ≤ source.length) :
    (expandTabs (source.take i)).length < (expandTabs (source.take j)).length := by
  have hsplit : source.take j = source.take i ++ (source.take j).drop i := by
    conv_lhs => rw [← List.take_append_drop i (source.take j), List.take_take, min_eq_left hij.le]
  have hle := length_expandTabs_append (source.take i) ((source.take j).drop i)
  rw [← hsplit, List.length_drop, List.length_take, min_eq_left hj] at hle
  omega

theorem StopsAt.unique {i j : ℕ} (hi : StopsAt source i) (hj : StopsAt source j) : i = j := by
  obtain ⟨hile, f, hf, hioffset⟩ := hi
  obtain ⟨hjle, g, hg, hjoffset⟩ := hj
  rw [hf] at hg
  cases hg
  rw [hioffset] at hjoffset
  rcases lt_trichotomy i j with hlt | rfl | hlt
  · exact absurd hjoffset (length_expandTabs_take_lt hlt hjle).ne
  · rfl
  · exact absurd hjoffset (length_expandTabs_take_lt hlt hile).ne'

/-- A failed reading stops at a character of the text that is no gap, or at the end of the text. -/
theorem exists_place {f : Failure} (h : parseText (expandTabs source) = .error f) :
    ∃ before after, source = before ++ after ∧ (∀ c ∈ after.head?, isGap c = false) ∧
      (Fault.ofFailure (expandTabs source) f).offset = (expandTabs before).length ∧
      ∃ rest, expandTabs source = expandTabs before ++ rest := by
  obtain ⟨rest, hrest, hf⟩ := parseText_stops h
  have hhead : ∀ c ∈ (skipGaps rest).head?, isGap c = false := head?_dropWhile_false isGap rest
  have hspace : (skipGaps rest).head? ≠ some ' ' := fun hs => absurd (hhead ' ' hs) (by decide)
  obtain ⟨before, after, rfl, hlayout, heq⟩ :=
    exists_split_of_suffix ((skipGaps_suffix rest).trans hrest) hspace
  refine ⟨before, after, rfl, heq ▸ hhead, ?_, skipGaps rest, hlayout⟩
  change (expandTabs (before ++ after)).length - f.remaining = (expandTabs before).length
  rw [expandTabs, hlayout, hf, List.length_append, Nat.add_sub_cancel]
  rfl

/-! ## The place in the layout -/

theorem lastLine_expandTabs (cs : List Char) : lastLine (expandTabs cs) = expandTabs (lastLine cs) := by
  have hlayout : ∀ l, '\n' ∉ l → '\n' ∉ expandTabs l := fun l hl => by
    rw [← List.count_eq_zero, expandTabs, count_newline_expandTabsFrom]
    exact List.count_eq_zero.mpr hl
  have hlast := newline_not_mem_lastLine cs
  rcases eq_lastLine_or cs with h | ⟨before, h⟩
  · rw [h] at hlast ⊢
    exact lastLine_of_not_mem (hlayout cs hlast)
  · obtain ⟨column, happend⟩ := expandTabsFrom_append 0 before
    have hcs : expandTabs cs = expandTabs before ++ '\n' :: expandTabs (lastLine cs) := by
      rw [h, expandTabs, happend, expandTabsFrom_newline, ← h]
      rfl
    rw [hcs, lastLine_append _ (hlayout _ hlast)]

theorem length_expandTabs_lastLine (h : (expandTabs before).length = before.length) :
    (expandTabs (lastLine before)).length = (lastLine before).length := by
  rcases eq_lastLine_or before with hlast | ⟨cs, hlast⟩
  · rw [hlast]
    exact h
  · generalize lastLine before = l at hlast ⊢
    obtain ⟨column, happend⟩ := expandTabsFrom_append 0 cs
    have hcs := length_le_expandTabsFrom 0 cs
    have hline := length_le_expandTabsFrom 0 l
    rw [hlast, expandTabs, happend, expandTabsFrom_newline, List.length_append, List.length_append,
      List.length_cons, List.length_cons] at h
    rw [expandTabs]
    omega

/-! ## The citation -/

theorem trim_prefix (cs : List Char) : trim cs <+: cs.dropWhile isBlank :=
  List.rdropWhile_prefix isBlank _

theorem exists_trim_cons {c : Char} (h : isBlank c = false) (cs : List Char) :
    ∃ rest, trim (c :: cs) = c :: rest := by
  have hleft : (c :: cs).dropWhile isBlank = c :: cs := List.dropWhile_cons_of_neg (by simp [h])
  have hprefix := trim_prefix (c :: cs)
  cases htrim : trim (c :: cs) with
  | nil =>
    have hblank := trim_eq_nil_iff.mp htrim c List.mem_cons_self
    exact absurd hblank (by simp [h])
  | cons d rest =>
    rw [htrim, hleft] at hprefix
    exact ⟨rest, by rw [(List.cons_prefix_cons.mp hprefix).1]⟩

theorem trim_cons_ne {c : Char} (h : isBlank c = true) (cs rest : List Char) :
    trim (c :: cs) ≠ c :: rest := by
  intro heq
  obtain ⟨w, hw⟩ := heq ▸ trim_prefix (c :: cs)
  have hhead := head?_dropWhile_false isBlank (c :: cs) c (by rw [← hw]; rfl)
  exact absurd h (by simp [hhead])

namespace GrammarError

def cited (text : List Char) : String :=
  if text.isEmpty then "end of expression" else "'" ++ String.ofList text ++ "'"

theorem cited_cons (c : Char) (cs : List Char) :
    cited (c :: cs) = String.ofList ('\'' :: c :: cs ++ ['\'']) := by
  rw [← String.toList_inj]
  simp [cited]

theorem cited_eq_iff {c : Char} {text cs : List Char} :
    cited text = String.ofList ('\'' :: c :: cs ++ ['\'']) ↔ text = c :: cs := by
  cases text with
  | nil =>
    rw [← String.toList_inj, String.toList_ofList]
    simp [cited]
  | cons d ds =>
    rw [cited_cons, String.ofList_inj]
    simp

theorem lineNumbered_succ (ls : List (List Char)) (k : ℕ) :
    lineNumbered ls (k + 1 : ℕ) = ls[k]? := by
  have hk : ((k + 1 : ℕ) : ℤ) - 1 = k := by omega
  simp only [lineNumbered, hk, Int.natCast_nonneg, if_true, Int.toNat_natCast]

theorem gotAt_place (source : String) (h : source.toList = before ++ after) (column : ℕ) :
    gotAt source (before.count '\n' + 1 : ℕ) column =
      cited (if column ≤ (lastLine before ++ after.takeWhile (· ≠ '\n')).length
        then fragment (lastLine before ++ after.takeWhile (· ≠ '\n')) column else []) := by
  have hline : ((before.count '\n' + 1 : ℕ) : ℤ) ≤ (lines source.toList).length := by
    rw [length_lines, h, List.count_append]
    omega
  have hget : lineNumbered (lines source.toList) (before.count '\n' + 1 : ℕ) =
      some (lastLine before ++ after.takeWhile (· ≠ '\n')) := by
    rw [lineNumbered_succ, h, getElem?_lines]
  unfold gotAt
  rw [if_pos hline, hget]
  simp only [Nat.cast_le]
  rfl

theorem exists_fragment (line : List Char) (c : Char) (rest : List Char) :
    ∃ cs, fragment (line ++ c :: rest) (line.length + 1 : ℕ) = trim (c :: cs) := by
  have hfirst : (((line.length + 1 : ℕ) : ℤ) - 1).toNat = line.length := by omega
  have hlast : ∃ k, min ((line ++ c :: rest).length : ℤ) (((line.length + 1 : ℕ) : ℤ) + 10) =
      ((line.length + (k + 1) : ℕ) : ℤ) := by
    refine ⟨min rest.length 10, ?_⟩
    rw [List.length_append, List.length_cons]
    omega
  obtain ⟨k, hk⟩ := hlast
  refine ⟨rest.take k, ?_⟩
  rw [fragment, hfirst, hk, slice, if_neg (by omega), Int.toNat_natCast, List.take_length_add_append,
    List.drop_left, List.take_succ_cons]

/-- A report points at a place of the text: it has the place's index, line and column, and cites
the text from the character there on, unless the text ends at the place. -/
structure PointsAt (e : GrammarError) (source : List Char) (i : ℕ) : Prop where
  location : e.location = i
  line : e.line = lineAt source i
  column : e.column = columnAt source i
  got_end : e.got = some "end of expression" ↔ i = source.length
  got_char : ∀ c, source[i]? = some c →
    ∃ cs, e.got = some (String.ofList ('\'' :: c :: cs ++ ['\'']))

theorem gotAt_end (source : String) {column : ℕ}
    (hcolumn : (lastLine source.toList).length < column) :
    gotAt source (source.toList.count '\n' + 1 : ℕ) column = "end of expression" := by
  rw [gotAt_place source (List.append_nil _).symm, List.takeWhile_nil, List.append_nil,
    if_neg (not_le.mpr hcolumn)]
  rfl

theorem gotAt_char (source : String) {c : Char} (h : source.toList = before ++ c :: after)
    (hc : isGap c = false) :
    ∃ cs, gotAt source (before.count '\n' + 1 : ℕ) ((lastLine before).length + 1 : ℕ) =
      cited (trim (c :: cs)) := by
  have hline : c ≠ '\n' := fun heq => absurd hc (by rw [heq]; decide)
  obtain ⟨cs, hcs⟩ :=
    exists_fragment (lastLine before) c (after.takeWhile (· ≠ '\n'))
  refine ⟨cs, ?_⟩
  rw [gotAt_place source h, List.takeWhile_cons_of_pos (by simpa using hline), hcs, if_pos]
  rw [List.length_append, List.length_cons]
  omega

/-- At a character that is no gap, a report with the right place cites the text from there on
exactly if the character is no white space. -/
theorem cites_iff (source : String) {c : Char} (h : source.toList = before ++ c :: after)
    (hc : isGap c = false) :
    (∃ cs, gotAt source (before.count '\n' + 1 : ℕ) ((lastLine before).length + 1 : ℕ) =
        String.ofList ('\'' :: c :: cs ++ ['\''])) ↔ isBlank c = false := by
  obtain ⟨cs, hgot⟩ := gotAt_char source h hc
  simp only [hgot, cited_eq_iff]
  constructor
  · rintro ⟨rest, htrim⟩
    by_contra hblank
    exact trim_cons_ne (by simpa using hblank) cs rest htrim
  · exact fun hblank => exists_trim_cons hblank cs

/-! ## The report -/

structure ReportsAt (e : GrammarError) (source : String) (before after : List Char) : Prop where
  split : source.toList = before ++ after
  location : e.location = (expandTabs before).length
  line : e.line = (before.count '\n' + 1 : ℕ)
  column : e.column = ((expandTabs (lastLine before)).length + 1 : ℕ)
  got : e.got = some (gotAt source (before.count '\n' + 1 : ℕ)
    ((expandTabs (lastLine before)).length + 1 : ℕ))

variable {source : String} {e : GrammarError}

theorem ReportsAt.got_end (h : e.ReportsAt source before []) :
    e.got = some "end of expression" := by
  have hsource : source.toList = before := h.split.trans (List.append_nil before)
  have hcolumn : (lastLine before).length < (expandTabs (lastLine before)).length + 1 :=
    Nat.lt_succ_of_le (length_le_expandTabsFrom 0 _)
  rw [h.got, ← hsource, gotAt_end source (hsource ▸ hcolumn)]

theorem ReportsAt.pointsAt_iff (h : e.ReportsAt source before after)
    (hgap : ∀ c ∈ after.head?, isGap c = false) :
    e.PointsAt source.toList before.length ↔
      (expandTabs before).length = before.length ∧ ∀ c ∈ after.head?, isBlank c = false := by
  constructor
  · intro hpoints
    have hlength : (expandTabs before).length = before.length :=
      h.location.symm.trans hpoints.location
    refine ⟨hlength, fun c hc => ?_⟩
    obtain ⟨rest, rfl⟩ := List.head?_eq_some_iff.mp hc
    obtain ⟨cs, hcs⟩ := hpoints.got_char c (by rw [h.split]; simp)
    rw [h.got, length_expandTabs_lastLine hlength] at hcs
    exact (cites_iff source h.split (hgap c hc)).mp ⟨cs, Option.some.inj hcs⟩
  · rintro ⟨hlength, hblank⟩
    have hgot := h.got
    rw [length_expandTabs_lastLine hlength] at hgot
    have hchar : ∀ c ∈ after.head?,
        ∃ cs, e.got = some (String.ofList ('\'' :: c :: cs ++ ['\''])) := by
      intro c hc
      obtain ⟨rest, rfl⟩ := List.head?_eq_some_iff.mp hc
      obtain ⟨cs, hcs⟩ := (cites_iff source h.split (hgap c hc)).mpr (hblank c hc)
      exact ⟨cs, by rw [hgot, hcs]⟩
    constructor
    · exact h.location.trans hlength
    · rw [h.line, h.split, lineAt_append]
    · rw [h.column, h.split, columnAt_append, length_expandTabs_lastLine hlength]
    · cases after with
      | nil => simp [h.got_end, h.split]
      | cons c rest =>
        obtain ⟨cs, hcs⟩ := hchar c rfl
        rw [hcs, h.split]
        constructor
        · intro heq
          have hlist := congrArg String.toList (Option.some.inj heq)
          rw [String.toList_ofList] at hlist
          cases hlist
        · intro heq
          simp at heq
    · intro c hc
      apply hchar c
      rwa [h.split, getElem?_place] at hc

end GrammarError

theorem TypeExpr.parse_eq_error {source : String} {f : Failure} (hcontent : trim source.toList ≠ [])
    (h : parseText (expandTabs source.toList) = .error f) :
    TypeExpr.parse source =
      .error (.ofFault (.ofFailure (expandTabs source.toList) f) source) := by
  rw [TypeExpr.parse, if_neg (mt List.isEmpty_iff.mp hcontent)]
  simp only [h]

theorem TypeExpr.parse_error_reports {source : String} {e : GrammarError}
    (h : TypeExpr.parse source = .error e) (hcontent : trim source.toList ≠ []) :
    ∃ before after, StopsAt source.toList before.length ∧
      (∀ c ∈ after.head?, isGap c = false) ∧ e.ReportsAt source before after := by
  cases hread : parseText (expandTabs source.toList) with
  | ok t =>
    rw [parse_eq_ok_iff_parseText.mpr hread] at h
    cases h
  | error f =>
    rw [parse_eq_error hcontent hread] at h
    obtain ⟨before, after, hsplit, hgap, hoffset, rest, hlayout⟩ := exists_place hread
    have hline : (Fault.ofFailure (expandTabs source.toList) f).line = before.count '\n' + 1 := by
      rw [Fault.line, hoffset]
      change lineAt (expandTabs source.toList) _ = _
      rw [hlayout, lineAt_append, expandTabs, count_newline_expandTabsFrom]
    have hcolumn : (Fault.ofFailure (expandTabs source.toList) f).column =
        (expandTabs (lastLine before)).length + 1 := by
      rw [Fault.column, hoffset]
      change columnAt (expandTabs source.toList) _ = _
      rw [hlayout, columnAt_append, lastLine_expandTabs]
    refine ⟨before, after, ⟨?_, f, hread, ?_⟩, hgap, ?_⟩
    · rw [hsplit, List.length_append]
      omega
    · rw [hoffset, hsplit, List.take_left]
    · cases h
      constructor
      · exact hsplit
      · exact hoffset
      · rw [← hline]
        rfl
      · rw [← hcolumn]
        rfl
      · rw [← hline, ← hcolumn]
        rfl

/-- A report of a text with content belongs to one place of the text, at a character that is no gap
or at the end. Its line is that of the place. Location and column are those of the layout, and at
the end of the text it says so. It points at the place exactly if the text before the place keeps
its length in the layout, so that every tab there takes one column, and the character at the place
is no white space. -/
theorem TypeExpr.parse_error_place {source : String} {e : GrammarError}
    (h : TypeExpr.parse source = .error e) (hcontent : trim source.toList ≠ []) :
    ∃ i, StopsAt source.toList i ∧ (∀ j, StopsAt source.toList j → j = i) ∧
      (∀ c, source.toList[i]? = some c → isGap c = false) ∧
      e.location = (expandTabs (source.toList.take i)).length ∧
      e.line = lineAt source.toList i ∧
      e.column = (expandTabs (lastLine (source.toList.take i))).length + 1 ∧
      (i = source.toList.length → e.got = some "end of expression") ∧
      (e.PointsAt source.toList i ↔ (expandTabs (source.toList.take i)).length = i ∧
        ∀ c, source.toList[i]? = some c → isBlank c = false) := by
  obtain ⟨before, after, hstops, hgap, hreports⟩ := parse_error_reports h hcontent
  have hbefore : source.toList.take before.length = before := by
    rw [hreports.split, List.take_left]
  have hafter : source.toList[before.length]? = after.head? := by
    rw [hreports.split, getElem?_place]
  have hpoints := hreports.pointsAt_iff hgap
  refine ⟨before.length, hstops, fun j hj => hj.unique hstops, ?_, ?_, ?_, ?_, ?_, ?_⟩
  · rw [hafter]
    exact hgap
  · rw [hbefore]
    exact hreports.location
  · rw [hreports.line, hreports.split, lineAt_append]
  · rw [hbefore, hreports.column]
    rfl
  · intro hend
    have hnil : after = [] := by
      rw [hreports.split, List.length_append] at hend
      exact List.eq_nil_of_length_eq_zero (by omega)
    exact (hnil ▸ hreports).got_end
  · rw [hbefore, hafter]
    exact hpoints

/-- Two texts whose reports do not point at the place: before a parenthesis stands a tab, which takes
eight columns, and behind a type stands a space that is no gap. -/
theorem TypeExpr.parse_error_place_misses :
    (∃ e, TypeExpr.parse "\t)" = .error e ∧ StopsAt "\t)".toList 1 ∧ ¬ e.PointsAt "\t)".toList 1) ∧
      ∃ e, TypeExpr.parse "any \u00a0" = .error e ∧ StopsAt "any \u00a0".toList 4 ∧
        ¬ e.PointsAt "any \u00a0".toList 4 := by
  have htab : parseText (expandTabs "\t)".toList) = .error ⟨1, .type⟩ := by cbv
  have hblank : parseText (expandTabs "any \u00a0".toList) = .error ⟨1, .endOfText⟩ := by cbv
  have htabStops : StopsAt "\t)".toList 1 := ⟨by decide, _, htab, by decide⟩
  have hblankStops : StopsAt "any \u00a0".toList 4 := ⟨by decide, _, hblank, by decide⟩
  have htabContent : trim "\t)".toList ≠ [] := by decide
  have hblankContent : trim "any \u00a0".toList ≠ [] := by decide
  have htabError := parse_eq_error htabContent htab
  have hblankError := parse_eq_error hblankContent hblank
  constructor
  · obtain ⟨i, -, hunique, -, -, -, -, -, hpoints⟩ := parse_error_place htabError htabContent
    obtain rfl := hunique 1 htabStops
    exact ⟨_, htabError, htabStops, fun h => absurd (hpoints.mp h).1 (by decide)⟩
  · obtain ⟨i, -, hunique, -, -, -, -, -, hpoints⟩ := parse_error_place hblankError hblankContent
    obtain rfl := hunique 4 hblankStops
    exact ⟨_, hblankError, hblankStops,
      fun h => absurd ((hpoints.mp h).2 '\u00a0' (by decide)) (by decide)⟩

end TypeGuard
