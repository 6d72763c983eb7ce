import TypeGuard.Proofs.CommandLine.Modes
import TypeGuard.Proofs.Json.Denotation

/-! # Judgements

What the command reports on an expression and values, when no argument begins with a hyphen. It is
the refusal of an expression that does not compile, or what is wrong with the first value that is no
document, or else one line for each value: the type is asked about every one of them, and what it
says of one does not depend on the others.
-/

namespace TypeGuard.CommandLine

/-! ## Arguments without options -/

section Plain

variable {a : String} {as : List String}

end Plain

/-! ## Decoding values -/

end TypeGuard.CommandLine
