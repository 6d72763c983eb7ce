import TypeGuard.Template
import TypeGuard.TypeExpr.Listing
import TypeGuard.TypeExpr.Tree
import TypeGuard.CommandLine.Report
import TypeGuard.Main
import TypeGuard.Proofs.Grammar.Recognition
import TypeGuard.Proofs.TypeExpr.Numbers
import TypeGuard.Proofs.Check.Description
import TypeGuard.Proofs.Check.Desugaring
import TypeGuard.Proofs.Callable.Arity
import TypeGuard.Proofs.Callable.Sufficiency
import TypeGuard.Proofs.Template.Splicing
import TypeGuard.Proofs.Grammar.Placeholder
import TypeGuard.Proofs.Check.Offence
import TypeGuard.Proofs.Check.Delegation
import TypeGuard.Proofs.Template.Reserved
import TypeGuard.Proofs.Grammar.Spacing
import TypeGuard.Proofs.Check.Decision
import TypeGuard.Proofs.Check.Meaning
import TypeGuard.Proofs.Check.Correspondence
import TypeGuard.Proofs.Check.Interchange
import TypeGuard.Proofs.Check.Widening
import TypeGuard.Proofs.Grammar.Escapes
import TypeGuard.Proofs.TypeExpr.Readability
import TypeGuard.Proofs.Check.Equality
import TypeGuard.Proofs.Grammar.Context
import TypeGuard.Proofs.Grammar.Place
import TypeGuard.Proofs.Check.Wording
import TypeGuard.Proofs.Check.Answering
import TypeGuard.Proofs.Grammar.Hints
import TypeGuard.Proofs.Grammar.Coordinates
import TypeGuard.Proofs.TypeExpr.Recovery
import TypeGuard.Proofs.Json.Denotation
import TypeGuard.Proofs.CommandLine.Modes
import TypeGuard.Proofs.CommandLine.Judgement
import TypeGuard.Proofs.Value.Category
