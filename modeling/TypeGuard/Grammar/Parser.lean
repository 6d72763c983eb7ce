import TypeGuard.Grammar.Parse
import TypeGuard.Grammar.Error

/-! # Parsing type expressions

The public entry: a text is laid out, read as one type, and refused with a report otherwise.
-/

namespace TypeGuard

open Text Grammar

/-- The fault that a failed reading of a laid-out text amounts to. -/
def Fault.ofFailure (laidOut : List Char) (f : Failure) : Fault :=
  ⟨laidOut, laidOut.length - f.remaining, ("Expected " ++ f.expected.text).toList⟩

def TypeExpr.parse (source : String) : Except GrammarError TypeExpr :=
  if (trim source.toList).isEmpty then .error .empty
  else
    let laidOut := expandTabs source.toList
    match parseText laidOut with
    | .ok t => .ok t
    | .error f => .error (.ofFault (.ofFailure laidOut f) source)

end TypeGuard
