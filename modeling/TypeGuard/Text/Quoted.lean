import TypeGuard.Text.Digit
import TypeGuard.Text.Printable

/-! # Quotations

A text is quoted in one of two ways: for a reader, where printable characters of every script stand
for themselves, and for a type expression, where the result is ASCII only.
-/

namespace TypeGuard.Text

/-- An unprintable character as an escape of the least width that holds it. -/
def hexEscape (c : Char) : List Char :=
  let n := c.toNat
  if n < 0x100 then '\\' :: 'x' :: hexDigits 2 n
  else if n < 0x10000 then '\\' :: 'u' :: hexDigits 4 n
  else '\\' :: 'U' :: hexDigits 8 n

def displayChar (quote c : Char) : List Char :=
  if c = quote || c = '\\' then ['\\', c]
  else if c = '\n' then ['\\', 'n']
  else if c = '\r' then ['\\', 'r']
  else if c = '\t' then ['\\', 't']
  else if isPrintable c then [c]
  else hexEscape c

/-- The quote that needs fewer escapes: a single one unless only single ones occur. -/
def displayQuote (cs : List Char) : Char :=
  if cs.contains '\'' && !cs.contains '"' then '"' else '\''

def display (cs : List Char) : List Char :=
  let quote := displayQuote cs
  quote :: cs.flatMap (displayChar quote) ++ [quote]

/-- Whether a code point is one half of a character beyond the basic plane. -/
def isSurrogate (n : Nat) : Bool :=
  0xd800 ≤ n && n < 0xe000

def replaceSurrogates (codes : List Nat) : List Char :=
  codes.map fun n => if isSurrogate n then '\ufffd' else Char.ofNat n

/-- Quotes code points for a reader; a surrogate is written as an escape. -/
def displayCodes (codes : List Nat) : List Char :=
  let quote := displayQuote (replaceSurrogates codes)
  let shown (n : Nat) :=
    if isSurrogate n then '\\' :: 'u' :: hexDigits 4 n else displayChar quote (Char.ofNat n)
  quote :: codes.flatMap shown ++ [quote]

/-- A code point as UTF-16 escapes, two of them beyond the basic plane. -/
def unitEscapes (n : Nat) : List Char :=
  if n < 0x10000 then '\\' :: 'u' :: hexDigits 4 n
  else
    let m := n - 0x10000
    ['\\', 'u'] ++ hexDigits 4 (0xd800 + m / 0x400) ++
      ['\\', 'u'] ++ hexDigits 4 (0xdc00 + m % 0x400)

def literalChar (c : Char) : List Char :=
  if c = '"' || c = '\\' then ['\\', c]
  else if c = '\n' then ['\\', 'n']
  else if c = '\r' then ['\\', 'r']
  else if c = '\t' then ['\\', 't']
  else if c = '\x0c' then ['\\', 'f']
  else if c = '\x08' then ['\\', 'b']
  else if 32 ≤ c.toNat && c.toNat < 127 then [c]
  else unitEscapes c.toNat

def literal (cs : List Char) : List Char :=
  '"' :: cs.flatMap literalChar ++ ['"']

def displayString (s : String) : String :=
  String.ofList (display s.toList)

end TypeGuard.Text
