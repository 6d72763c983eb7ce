import Mathlib
import TypeGuard.Text.Layout

/-! # Laid-out texts

Laying out a text puts spaces for its tabs and changes nothing else. The column in which the text
begins decides on the width of the first tab at most: what follows a tab stands in a column that is
known.
-/

namespace TypeGuard.Text

variable {c : Char} {cs : List Char}

theorem exists_tabWidth (column : ℕ) : ∃ n, 8 - column % 8 = n + 1 :=
  ⟨7 - column % 8, by omega⟩

theorem expandTabsFrom_tab (column : ℕ) (cs : List Char) :
    expandTabsFrom column ('\t' :: cs) =
      List.replicate (8 - column % 8) ' ' ++ expandTabsFrom 0 cs := by
  rw [expandTabsFrom, if_pos rfl]

theorem expandTabsFrom_cons (hc : c ≠ '\t') (column : ℕ) :
    ∃ column', ∀ cs, expandTabsFrom column (c :: cs) = c :: expandTabsFrom column' cs := by
  by_cases hline : (c = '\n' || c = '\r') = true
  · exact ⟨0, fun cs => by rw [expandTabsFrom, if_neg hc, if_pos hline]⟩
  · exact ⟨column + 1, fun cs => by rw [expandTabsFrom, if_neg hc, if_neg hline]⟩

theorem expandTabsFrom_append (column : ℕ) (w : List Char) :
    ∃ column', ∀ cs,
      expandTabsFrom column (w ++ cs) = expandTabsFrom column w ++ expandTabsFrom column' cs := by
  induction w generalizing column with
  | nil => exact ⟨column, fun cs => rfl⟩
  | cons c w ih =>
    by_cases hc : c = '\t'
    · obtain ⟨column', h⟩ := ih 0
      refine ⟨column', fun cs => ?_⟩
      rw [hc, List.cons_append, expandTabsFrom_tab, expandTabsFrom_tab, h, List.append_assoc]
    · obtain ⟨next, hnext⟩ := expandTabsFrom_cons hc column
      obtain ⟨column', h⟩ := ih next
      exact ⟨column', fun cs => by rw [List.cons_append, hnext, hnext, h, List.cons_append]⟩

theorem expandTabsFrom_of_not_mem (h : '\t' ∉ cs) (column : ℕ) :
    expandTabsFrom column cs = cs := by
  induction cs generalizing column with
  | nil => rfl
  | cons c cs ih =>
    obtain ⟨hc, hcs⟩ := not_or.mp (mt List.mem_cons.mpr h)
    obtain ⟨next, hnext⟩ := expandTabsFrom_cons (Ne.symm hc) column
    rw [hnext, ih hcs]

theorem forall_mem_expandTabsFrom {p : Char → Prop} (hspace : p ' ') (h : ∀ c ∈ cs, p c)
    (column : ℕ) : ∀ c ∈ expandTabsFrom column cs, p c := by
  induction cs generalizing column with
  | nil => exact h
  | cons c cs ih =>
    obtain ⟨hc, hcs⟩ := List.forall_mem_cons.mp h
    by_cases htab : c = '\t'
    · rw [htab, expandTabsFrom_tab]
      refine List.forall_mem_append.mpr ⟨fun d hd => ?_, ih hcs 0⟩
      rwa [List.eq_of_mem_replicate hd]
    · obtain ⟨next, hnext⟩ := expandTabsFrom_cons htab column
      rw [hnext]
      exact List.forall_mem_cons.mpr ⟨hc, ih hcs next⟩

theorem head?_expandTabsFrom (column : ℕ) (cs : List Char) :
    (expandTabsFrom column cs).head? = cs.head?.map fun c => if c = '\t' then ' ' else c := by
  cases cs with
  | nil => rfl
  | cons c cs =>
    by_cases hc : c = '\t'
    · obtain ⟨n, hn⟩ := exists_tabWidth column
      rw [hc, expandTabsFrom_tab, hn]
      rfl
    · obtain ⟨next, hnext⟩ := expandTabsFrom_cons hc column
      simp [hnext, hc]

theorem expandTabsFrom_newline (column : ℕ) (cs : List Char) :
    expandTabsFrom column ('\n' :: cs) = '\n' :: expandTabsFrom 0 cs := by
  rw [expandTabsFrom, if_neg (by decide), if_pos (by decide)]

theorem length_le_expandTabsFrom (column : ℕ) (cs : List Char) :
    cs.length ≤ (expandTabsFrom column cs).length := by
  induction cs generalizing column with
  | nil => exact le_rfl
  | cons c cs ih =>
    by_cases hc : c = '\t'
    · obtain ⟨n, hn⟩ := exists_tabWidth column
      have := ih 0
      rw [hc, expandTabsFrom_tab, hn, List.length_append, List.length_replicate, List.length_cons]
      omega
    · obtain ⟨next, hnext⟩ := expandTabsFrom_cons hc column
      rw [hnext, List.length_cons, List.length_cons]
      exact Nat.succ_le_succ (ih next)

theorem count_newline_expandTabsFrom (column : ℕ) (cs : List Char) :
    (expandTabsFrom column cs).count '\n' = cs.count '\n' := by
  induction cs generalizing column with
  | nil => rfl
  | cons c cs ih =>
    by_cases hc : c = '\t'
    · rw [hc, expandTabsFrom_tab, List.count_append, ih, List.count_replicate]
      simp
    · obtain ⟨next, hnext⟩ := expandTabsFrom_cons hc column
      rw [hnext, List.count_cons, List.count_cons, ih]

/-- An end of a layout that does not begin inside the spaces of a tab is the layout of an end of the
text, and what stands before it is the layout of the text before that. -/
theorem exists_split_of_suffix {rest : List Char} {column : ℕ}
    (h : rest <:+ expandTabsFrom column cs) (hrest : rest.head? ≠ some ' ') :
    ∃ before after, cs = before ++ after ∧
      expandTabsFrom column cs = expandTabsFrom column before ++ rest ∧
      rest.head? = after.head? := by
  induction cs generalizing column with
  | nil =>
    obtain rfl := List.suffix_nil.mp h
    exact ⟨[], [], rfl, rfl, rfl⟩
  | cons c cs ih =>
    by_cases hc : c = '\t'
    · subst hc
      rw [expandTabsFrom_tab] at h
      have hskip : ∀ n, rest <:+ List.replicate n ' ' ++ expandTabsFrom 0 cs →
          rest <:+ expandTabsFrom 0 cs := by
        intro n hn
        induction n with
        | zero => exact hn
        | succ n ihn =>
          rw [List.replicate_succ, List.cons_append] at hn
          rcases List.suffix_cons_iff.mp hn with rfl | hn
          · exact absurd rfl hrest
          · exact ihn hn
      obtain ⟨before, after, rfl, hlayout, hhead⟩ := ih (hskip _ h)
      refine ⟨'\t' :: before, after, rfl, ?_, hhead⟩
      rw [expandTabsFrom_tab, expandTabsFrom_tab, hlayout, List.append_assoc]
    · obtain ⟨next, hnext⟩ := expandTabsFrom_cons hc column
      have hlayout := hnext cs
      rw [hnext] at h
      rcases List.suffix_cons_iff.mp h with rfl | h
      · exact ⟨[], c :: cs, rfl, hlayout, rfl⟩
      · obtain ⟨before, after, rfl, hbefore, hhead⟩ := ih h
        refine ⟨c :: before, after, rfl, ?_, hhead⟩
        rw [hlayout, hnext, hbefore, List.cons_append]

/-! ## Runs of spaces -/

/-- Two texts that differ in the width of one run of spaces at most. -/
inductive Stretched : List Char → List Char → Prop
  | refl (w) : Stretched w w
  | run (before m n after) :
      Stretched (before ++ List.replicate (m + 1) ' ' ++ after)
        (before ++ List.replicate (n + 1) ' ' ++ after)

theorem Stretched.cons {v w : List Char} (h : Stretched v w) (c : Char) :
    Stretched (c :: v) (c :: w) := by
  cases h with
  | refl => exact .refl _
  | run before m n after => exact .run (c :: before) m n after

theorem Stretched.eq_of_not_mem {v w : List Char} (h : Stretched v w) (hv : ' ' ∉ v) : w = v := by
  cases h with
  | refl => rfl
  | run => simp at hv

/-- The layouts of one text, whatever the columns in which it begins. -/
theorem stretched_expandTabsFrom (column column' : ℕ) (cs : List Char) :
    Stretched (expandTabsFrom column cs) (expandTabsFrom column' cs) := by
  induction cs generalizing column column' with
  | nil => exact .refl _
  | cons c cs ih =>
    by_cases hc : c = '\t'
    · obtain ⟨m, hm⟩ := exists_tabWidth column
      obtain ⟨n, hn⟩ := exists_tabWidth column'
      rw [hc, expandTabsFrom_tab, expandTabsFrom_tab, hm, hn]
      exact .run [] m n (expandTabsFrom 0 cs)
    · obtain ⟨next, hnext⟩ := expandTabsFrom_cons hc column
      obtain ⟨next', hnext'⟩ := expandTabsFrom_cons hc column'
      rw [hnext, hnext']
      exact (ih next next').cons c

/-! ## Layouts of several texts -/

def LaidOut (cs ds : List Char) : Prop :=
  ∃ column, ds = expandTabsFrom column cs

theorem LaidOut.eq_of_not_mem {ds : List Char} (h : LaidOut cs ds) (hcs : '\t' ∉ cs) : ds = cs := by
  obtain ⟨column, rfl⟩ := h
  exact expandTabsFrom_of_not_mem hcs column

variable {ws vs : List (List Char)}

theorem mem_of_laidOut {w : List Char} (h : List.Forall₂ LaidOut ws vs) (hw : w ∈ ws)
    (htab : '\t' ∉ w) : w ∈ vs := by
  induction h with
  | nil => exact hw
  | cons hv _ ih =>
    rcases List.mem_cons.mp hw with rfl | hw
    · rw [hv.eq_of_not_mem htab]
      exact List.mem_cons_self
    · exact List.mem_cons_of_mem _ (ih hw)

theorem eq_of_laidOut (h : List.Forall₂ LaidOut ws vs) (htab : ∀ w ∈ ws, '\t' ∉ w) : vs = ws := by
  induction h with
  | nil => rfl
  | cons hv _ ih =>
    obtain ⟨hw, hws⟩ := List.forall_mem_cons.mp htab
    rw [hv.eq_of_not_mem hw, ih hws]

theorem stretched_of_laidOut {vs' : List (List Char)} (h : List.Forall₂ LaidOut ws vs)
    (h' : List.Forall₂ LaidOut ws vs') : List.Forall₂ Stretched vs vs' := by
  induction h generalizing vs' with
  | nil =>
    cases h'
    exact .nil
  | cons hv _ ih =>
    obtain _ | ⟨hv', hvs'⟩ := h'
    obtain ⟨column, rfl⟩ := hv
    obtain ⟨column', rfl⟩ := hv'
    exact .cons (stretched_expandTabsFrom column column' _) (ih hvs')

end TypeGuard.Text
