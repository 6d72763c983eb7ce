import TypeGuard.Text.Blank

/-! # Positions in a text

Tabs are laid out in columns of eight before a text is read, and an offset into the text so laid
out is reported as a line and a column, both counted from one.
-/

namespace TypeGuard.Text

def expandTabsFrom (column : Nat) : List Char → List Char
  | [] => []
  | c :: cs =>
    if c = '\t' then
      List.replicate (8 - column % 8) ' ' ++ expandTabsFrom 0 cs
    else if c = '\n' || c = '\r' then
      c :: expandTabsFrom 0 cs
    else
      c :: expandTabsFrom (column + 1) cs

/-- Fills each tab with spaces up to the next multiple of eight columns. -/
def expandTabs (cs : List Char) : List Char :=
  expandTabsFrom 0 cs

/-- The line of an offset: one more than the line feeds before it. -/
def lineAt (cs : List Char) (offset : Nat) : Nat :=
  (cs.take offset).count '\n' + 1

def lineStart (cs : List Char) (offset : Nat) : Nat :=
  let before := cs.take offset
  before.length - (before.reverse.takeWhile (· ≠ '\n')).length

/-- The column of an offset: its distance from the start of its line, plus one. -/
def columnAt (cs : List Char) (offset : Nat) : Nat :=
  offset + 1 - lineStart cs offset

end TypeGuard.Text
