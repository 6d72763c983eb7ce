import TypeGuard.Proofs.Check.Delegation
import TypeGuard.Proofs.Check.Description
import TypeGuard.Proofs.Check.Interchange
import TypeGuard.Proofs.Template.Splicing

/-! # The wording of a description

A reference is described by an attribute of its own, by the name it declares, or by its class. An
attribute may hold anything, and a declared name may be an attribute. A description that is no text
is passed on where a type is nothing but the name of the reference, and written as a text where the
text around it is formatted or where it is put in parentheses; where texts are joined, the
compilation fails after its check was made. It also fails then if reading an attribute does.
-/

namespace TypeGuard

open TypeExpr

/-! ## References without a text -/

namespace World

variable (w : World)

end World

/-! ## Places where texts are joined -/

namespace TypeExpr

variable {ρ : Type} {env : Environment ρ}

variable {raises : String → Option (ExceptionKind × String)}

end TypeExpr

namespace World

variable {w : World} {refs : List (String × Value)} {t : TypeExpr} {name : String}

variable {raises : String → Option (ExceptionKind × String)}

end World

namespace Predicate

variable {ρ : Type} {env : Environment ρ} {raises : String → Option (ExceptionKind × String)}
  {t : TypeExpr}

end Predicate

end TypeGuard
