/-! # White space and lines

Two notions of white space meet in a type expression. Between tokens only the four *gaps* of the
grammar are skipped; emptiness of a text and the margins of a quotation follow the wider class of
Unicode white space.
-/

namespace TypeGuard.Text

/-- Unicode white space, together with the separators `\x1c` to `\x1f`. -/
def isBlank (c : Char) : Bool :=
  let n := c.toNat
  (9 ≤ n && n ≤ 13) || (28 ≤ n && n ≤ 32) || n = 0x85 || n = 0xa0 || n = 0x1680 ||
    (0x2000 ≤ n && n ≤ 0x200a) || n = 0x2028 || n = 0x2029 || n = 0x202f || n = 0x205f || n = 0x3000

/-- The characters that may stand between two tokens: space, line feed, tab, carriage return. -/
def isGap (c : Char) : Bool :=
  c = ' ' || c = '\n' || c = '\t' || c = '\r'

theorem isBlank_of_isGap {c : Char} (h : isGap c = true) : isBlank c = true := by
  simp only [isGap, Bool.or_eq_true, decide_eq_true_eq] at h
  rcases h with ((rfl | rfl) | rfl) | rfl <;> decide

def skipGaps (cs : List Char) : List Char :=
  cs.dropWhile isGap

def trim (cs : List Char) : List Char :=
  ((cs.dropWhile isBlank).reverse.dropWhile isBlank).reverse

/-- The lines of a text, without their line feeds; a text has one line more than line feeds. -/
def lines : List Char → List (List Char)
  | [] => [[]]
  | c :: cs =>
    if c = '\n' then [] :: lines cs
    else match lines cs with
      | [] => [[c]]
      | l :: ls => (c :: l) :: ls

theorem lines_ne_nil (cs : List Char) : lines cs ≠ [] := by
  cases cs with
  | nil => simp [lines]
  | cons c cs =>
    simp only [lines]
    split
    · simp
    · split <;> simp

theorem length_lines (cs : List Char) : (lines cs).length = cs.count '\n' + 1 := by
  induction cs with
  | nil => rfl
  | cons c cs ih =>
    simp only [lines]
    split
    · next h => simp [h, ih]
    · next h =>
      have hc : (c == '\n') = false := by simpa using h
      split
      · next he => exact absurd he (lines_ne_nil cs)
      · next he =>
        rw [he] at ih
        simp only [List.length_cons, List.count_cons, hc] at ih ⊢
        simpa using ih

end TypeGuard.Text
