import TypeGuard.Proofs.Grammar.Quotation

/-! # Quotations read back

What was quoted is read back one character at a time. The printable characters of ASCII and four
control characters come back as themselves; of every other one comes back a letter, or the digits of
its code.
-/

namespace TypeGuard.Grammar

open Text

/-! ## Whole escapes -/

theorem unescape_append_of_no_escape {cs : List Char} (h : '\\' ∉ cs) (rest : List Char) :
    unescape (cs ++ rest) = cs ++ unescape rest := by
  induction cs with
  | nil => rfl
  | cons c cs ih =>
    have hc : c ≠ '\\' := fun hc => h (hc ▸ List.mem_cons_self)
    rw [List.cons_append, unescape_cons hc, ih fun hcs => h (List.mem_cons_of_mem _ hcs),
      List.cons_append]

theorem unescape_of_no_escape {cs : List Char} (h : '\\' ∉ cs) : unescape cs = cs := by
  simpa [show unescape [] = [] from rfl] using unescape_append_of_no_escape h []

/-- A text in which no escape is cut off: what it stands for does not depend on what follows. -/
def ReadsApart (cs : List Char) : Prop :=
  ∀ rest, unescape (cs ++ rest) = unescape cs ++ unescape rest

namespace ReadsApart

variable {cs ds : List Char}

theorem of_no_escape (h : '\\' ∉ cs) : ReadsApart cs := by
  intro rest
  rw [unescape_append_of_no_escape h, unescape_of_no_escape h]

theorem append (h : ReadsApart cs) (h' : ReadsApart ds) : ReadsApart (cs ++ ds) := by
  intro rest
  rw [List.append_assoc, h, h', h ds, List.append_assoc]

theorem of_escape {c : Char} {text : List Char}
    (h : ∀ rest, escape c (cs ++ rest) = (text, ds ++ rest)) (hds : ReadsApart ds) :
    ReadsApart ('\\' :: c :: cs) := by
  have h₀ : escape c cs = (text, ds) := by simpa using h []
  intro rest
  rw [List.cons_append, List.cons_append, unescape_escape, unescape_escape, h, h₀, hds rest,
    List.append_assoc]

theorem of_letter {c d : Char} (h : ∀ rest, escape c rest = ([d], rest)) : ReadsApart ['\\', c] :=
  have hnil (rest : List Char) : escape c ([] ++ rest) = ([d], [] ++ rest) := h rest
  of_escape hnil (of_no_escape List.not_mem_nil)

end ReadsApart

theorem unescape_letter {c d : Char} (h : ∀ rest, escape c rest = ([d], rest)) :
    unescape ['\\', c] = [d] := by
  rw [unescape_escape, h]
  rfl

theorem escape_of_control {letter c : Char} (h : controlEscape letter = some c)
    (rest : List Char) : escape letter rest = ([c], rest) := by
  simp [escape, h]

theorem escape_b (rest : List Char) : escape 'b' rest = (['b'], rest) :=
  escape_of_ordinary rfl rfl (by decide) (by decide) rest

/-! ## Codes -/

theorem length_hexDigits (width n : ℕ) : (hexDigits width n).length = width := by
  induction width generalizing n with
  | zero => rfl
  | succ width ih => rw [hexDigits, List.length_append, ih, List.length_singleton]

theorem exists_of_mem_hexDigits {width n : ℕ} {d : Char} (h : d ∈ hexDigits width n) :
    ∃ m < 16, d = hexDigit m := by
  induction width generalizing n with
  | zero => exact absurd h List.not_mem_nil
  | succ width ih =>
    rcases List.mem_append.mp h with h | h
    · exact ih h
    · exact ⟨n % 16, Nat.mod_lt _ (by norm_num), List.mem_singleton.mp h⟩

/-- The characters that have a meaning of their own between quotes, or are not read there. -/
def marks : List Char :=
  ['\\', '"', '\n', '\r', '\t']

theorem not_mem_hexDigits {c : Char} (hc : c ∈ marks) (width n : ℕ) : c ∉ hexDigits width n := by
  have hdigit : ∀ m < 16, hexDigit m ∉ marks := by decide
  intro h
  obtain ⟨m, hm, rfl⟩ := exists_of_mem_hexDigits h
  exact hdigit m hm hc

/-- A code in four digits is read as a code in two, if the second digit is a four, with the other
two digits behind it. Else the four digits stay, with the letter before them. -/
theorem exists_escape_code (n : ℕ) : ∃ text more,
    (∀ rest, escape 'u' (hexDigits 4 n ++ rest) = (text, more ++ rest)) ∧
      more ⊆ hexDigits 4 n ∧ 3 ≤ text.length + more.length := by
  have hlength := length_hexDigits 4 n
  generalize hexDigits 4 n = cs at hlength ⊢
  match cs, hlength with
  | [a, b, c, d], _ =>
    have hoctal (ds : List Char) :
        ¬ (isOctalDigit 'u' = true ∧ (a :: b :: ds).head? = some '3') := fun h =>
      absurd h.1 (by decide)
    have hescape (ds : List Char) := escape_of_not_octal (c := 'u') rfl (hoctal ds)
    by_cases h : ∃ m, hexValue a = some m ∧ b = '4'
    · obtain ⟨m, ha, rfl⟩ := h
      refine ⟨[Char.ofNat (16 * m + 4)], [c, d], fun rest => ?_, by simp, le_rfl⟩
      rw [List.cons_append, List.cons_append, hescape]
      simp [codeEscape, ha]
    · refine ⟨['u'], [a, b, c, d], fun rest => ?_, List.Subset.refl _, by simp⟩
      rw [List.cons_append, List.cons_append, hescape, codeEscape]
      cases ha : hexValue a with
      | none => rfl
      | some m =>
        have hb : b ≠ '4' := fun hb => h ⟨m, ha, hb⟩
        simp [hb]

def unitEscape (n : ℕ) : List Char :=
  '\\' :: 'u' :: hexDigits 4 n

theorem readsApart_unitEscape (n : ℕ) : ReadsApart (unitEscape n) := by
  obtain ⟨text, more, hescape, hmore, -⟩ := exists_escape_code n
  refine .of_escape hescape (.of_no_escape fun h => ?_)
  exact not_mem_hexDigits (by decide) 4 n (hmore h)

theorem three_le_length_unitEscape (n : ℕ) : 3 ≤ (unescape (unitEscape n)).length := by
  obtain ⟨text, more, hescape, hmore, hlength⟩ := exists_escape_code n
  have hplain : '\\' ∉ more := fun h => not_mem_hexDigits (by decide) 4 n (hmore h)
  have h₀ : escape 'u' (hexDigits 4 n) = (text, more) := by simpa using hescape []
  rwa [unitEscape, unescape_escape, h₀, unescape_of_no_escape hplain, List.length_append]

theorem quotedBody_unitEscape (n : ℕ) {body : List Char} (h : QuotedBody '"' body) :
    QuotedBody '"' (unitEscape n ++ body) := by
  suffices hdigits : ∀ cs, (∀ c ∈ marks, c ∉ cs) → QuotedBody '"' (cs ++ body) from
    .escape (by decide) (hdigits _ fun c hc => not_mem_hexDigits hc 4 n)
  intro cs hcs
  induction cs with
  | nil => exact h
  | cons c cs ih =>
    have hc : c ∉ marks := fun hm => hcs c hm List.mem_cons_self
    simp only [marks, List.mem_cons, not_or] at hc
    obtain ⟨hescape, hquote, hn, hr, -⟩ := hc
    exact .plain hquote hescape hn hr (ih fun d hd hm => hcs d hd (List.mem_cons_of_mem _ hm))

/-! ## What is written for a character -/

/-- The characters that come back as themselves: the printable ones of ASCII, tab, line feed, form
feed and carriage return. -/
def IsKept (c : Char) : Prop :=
  IsPrintableAscii c ∨ c ∈ ['\t', '\n', '\x0c', '\r']

inductive Written : Char → List Char → Prop
  | plain {c} : IsPrintableAscii c → c ≠ '"' → c ≠ '\\' → Written c [c]
  | escaped {c} : c = '"' ∨ c = '\\' → Written c ['\\', c]
  | control {c letter} : controlEscape letter = some c → Written c ['\\', letter]
  | backspace : Written '\x08' ['\\', 'b']
  | unit {c} (n) : ¬ IsKept c → Written c (unitEscape n)
  | units {c} (m n) : ¬ IsKept c → Written c (unitEscape m ++ unitEscape n)

theorem written_unitEscapes {c : Char} (hc : ¬ IsKept c) (n : ℕ) : Written c (unitEscapes n) := by
  rw [unitEscapes]
  split
  · exact .unit n hc
  · have h := Written.units (0xd800 + (n - 0x10000) / 0x400) (0xdc00 + (n - 0x10000) % 0x400) hc
    simpa [unitEscape] using h

theorem written_literalChar (c : Char) : Written c (literalChar c) := by
  unfold literalChar
  simp only [Bool.or_eq_true, Bool.and_eq_true, decide_eq_true_eq]
  split_ifs with hmark hn hr ht hf hb hplain
  · exact .escaped hmark
  · exact .control (hn ▸ rfl)
  · exact .control (hr ▸ rfl)
  · exact .control (ht ▸ rfl)
  · exact .control (hf ▸ rfl)
  · exact hb ▸ .backspace
  · obtain ⟨hquote, hescape⟩ := not_or.mp hmark
    exact .plain ⟨hplain.1, by omega⟩ hquote hescape
  · refine written_unitEscapes ?_ _
    rintro (⟨hl, hu⟩ | hcontrol)
    · exact hplain ⟨hl, by omega⟩
    · simp [hn, hr, ht, hf] at hcontrol

/-! ## Reading what was quoted -/

namespace Written

variable {c : Char} {cs : List Char}

theorem readsApart (h : Written c cs) : ReadsApart cs := by
  cases h with
  | plain _ _ hc => exact .of_no_escape (by simpa using hc.symm)
  | escaped hc => exact .of_letter (escape_of_quote hc)
  | control h => exact .of_letter (escape_of_control h)
  | backspace => exact .of_letter escape_b
  | unit n => exact readsApart_unitEscape n
  | units m n => exact (readsApart_unitEscape m).append (readsApart_unitEscape n)

/-- What is written for a character stands for something, and for the character itself if it is one
of those that are kept. -/
theorem unescape_eq_iff (h : Written c cs) : unescape cs ≠ [] ∧ (unescape cs = [c] ↔ IsKept c) := by
  cases h with
  | plain hprintable _ hc =>
    rw [unescape_of_no_escape (by simpa using hc.symm)]
    exact ⟨by simp, by simp [IsKept, hprintable]⟩
  | escaped hc =>
    have hprintable : IsPrintableAscii c := by
      rcases hc with rfl | rfl <;> exact ⟨by decide, by decide⟩
    rw [unescape_letter (escape_of_quote hc)]
    exact ⟨by simp, by simp [IsKept, hprintable]⟩
  | control h =>
    have hcontrol : c ∈ ['\t', '\n', '\x0c', '\r'] := by
      unfold controlEscape at h
      split_ifs at h <;> (obtain rfl := Option.some.inj h; decide)
    rw [unescape_letter (escape_of_control h)]
    exact ⟨by simp, iff_of_true rfl (.inr hcontrol)⟩
  | backspace =>
    rw [unescape_letter escape_b]
    exact ⟨by simp, by simp [IsKept, IsPrintableAscii]⟩
  | unit n hc =>
    have hlength := three_le_length_unitEscape n
    exact ⟨fun h => by simp [h] at hlength, iff_of_false (fun h => by simp [h] at hlength) hc⟩
  | units m n hc =>
    have hlength : 3 ≤ (unescape (unitEscape m ++ unitEscape n)).length := by
      rw [readsApart_unitEscape, List.length_append]
      exact Nat.le_add_right_of_le (three_le_length_unitEscape m)
    exact ⟨fun h => by simp [h] at hlength, iff_of_false (fun h => by simp [h] at hlength) hc⟩

theorem quotedBody_append (h : Written c cs) {body : List Char} (hbody : QuotedBody '"' body) :
    QuotedBody '"' (cs ++ body) := by
  cases h with
  | plain hprintable hquote hescape =>
    have hn : c ≠ '\n' := by rintro rfl; simp [IsPrintableAscii] at hprintable
    have hr : c ≠ '\r' := by rintro rfl; simp [IsPrintableAscii] at hprintable
    exact .plain hquote hescape hn hr hbody
  | escaped hc => exact .escape (by rcases hc with rfl | rfl <;> decide) hbody
  | control h => exact .escape (by rintro rfl; exact absurd h (by simp [controlEscape])) hbody
  | backspace => exact .escape (by decide) hbody
  | unit n => exact quotedBody_unitEscape n hbody
  | units m n =>
    rw [List.append_assoc]
    exact quotedBody_unitEscape m (quotedBody_unitEscape n hbody)

theorem noTab (h : Written c cs) : '\t' ∉ cs := by
  have hunit (n : ℕ) : '\t' ∉ unitEscape n := by
    simp [unitEscape, not_mem_hexDigits (show '\t' ∈ marks by decide)]
  cases h with
  | plain hprintable =>
    have ht : '\t' ≠ c := by rintro rfl; simp [IsPrintableAscii] at hprintable
    simpa using ht
  | escaped hc => rcases hc with rfl | rfl <;> decide
  | control h =>
    next letter =>
    have ht : '\t' ≠ letter := by rintro rfl; exact absurd h (by simp [controlEscape])
    simpa using ht
  | backspace => decide
  | unit n => exact hunit n
  | units m n => exact fun h => (List.mem_append.mp h).elim (hunit m) (hunit n)

end Written

/-- What comes back of a text that was quoted. -/
def reread (s : String) : String :=
  String.ofList (s.toList.flatMap fun c => unescape (literalChar c))

theorem unescape_literal (cs : List Char) :
    unescape (cs.flatMap literalChar) = cs.flatMap fun c => unescape (literalChar c) := by
  induction cs with
  | nil => rfl
  | cons c cs ih =>
    rw [List.flatMap_cons, (written_literalChar c).readsApart, ih, List.flatMap_cons]

theorem quotedBody_literal (cs : List Char) : QuotedBody '"' (cs.flatMap literalChar) := by
  induction cs with
  | nil => exact .nil
  | cons c cs ih =>
    rw [List.flatMap_cons]
    exact (written_literalChar c).quotedBody_append ih

theorem quoted_literal (s : String) (rest : List Char) :
    Quoted (reread s) (Text.literal s.toList ++ rest) rest :=
  ⟨'"', s.toList.flatMap literalChar, .inl rfl, quotedBody_literal s.toList,
    congrArg String.ofList (unescape_literal s.toList).symm, [], by simp, by simp [Text.literal]⟩

theorem noTab_literal (cs : List Char) : '\t' ∉ Text.literal cs := by
  have hchars : '\t' ∉ cs.flatMap literalChar := by
    intro ht
    obtain ⟨c, -, ht⟩ := List.mem_flatMap.mp ht
    exact (written_literalChar c).noTab ht
  simp [Text.literal, hchars]

/-! ## What is kept -/

theorem length_le_length_flatMap {f : Char → List Char} (h : ∀ c, f c ≠ []) (cs : List Char) :
    cs.length ≤ (cs.flatMap f).length := by
  induction cs with
  | nil => exact le_rfl
  | cons c cs ih =>
    have hc := List.length_pos_iff.mpr (h c)
    rw [List.flatMap_cons, List.length_append, List.length_cons]
    omega

/-- A text whose characters are replaced by texts that are not empty stays as it is only if each of
its characters does: there is no room for a longer one. -/
theorem flatMap_eq_self_iff {f : Char → List Char} (h : ∀ c, f c ≠ []) {cs : List Char} :
    cs.flatMap f = cs ↔ ∀ c ∈ cs, f c = [c] := by
  induction cs with
  | nil => simp
  | cons c cs ih =>
    rw [List.flatMap_cons, List.forall_mem_cons, ← ih]
    constructor
    · intro heq
      obtain ⟨d, ds, hd⟩ := List.exists_cons_of_ne_nil (h c)
      rw [hd, List.cons_append, List.cons.injEq] at heq
      obtain ⟨rfl, heq⟩ := heq
      have hlength := congrArg List.length heq
      rw [List.length_append] at hlength
      have hle := length_le_length_flatMap h cs
      obtain rfl : ds = [] := List.length_eq_zero_iff.mp (by omega)
      exact ⟨hd, heq⟩
    · rintro ⟨hc, hcs⟩
      rw [hc, hcs, List.singleton_append]

/-- A text comes back as itself if and only if all its characters are kept. -/
theorem reread_eq_self_iff {s : String} : reread s = s ↔ ∀ c ∈ s.toList, IsKept c := by
  have hchar (c : Char) := (written_literalChar c).unescape_eq_iff
  rw [reread, ← String.toList_inj, String.toList_ofList, flatMap_eq_self_iff fun c => (hchar c).1]
  exact forall₂_congr fun c _ => (hchar c).2

theorem reread_of_printable {s : String} (h : ∀ c ∈ s.toList, IsPrintableAscii c) : reread s = s :=
  reread_eq_self_iff.mpr fun c hc => .inl (h c hc)

end TypeGuard.Grammar
