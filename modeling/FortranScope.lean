import FortranScope.Phrase.Reading
import FortranScope.Resolution
import FortranScope.Tree.Dump
import FortranScope.Tree.Range
import FortranScope.Tree.Units
import FortranScope.Proofs.Phrase.Grammar
import FortranScope.Proofs.Phrase.Stack
import FortranScope.Proofs.Phrase.Soundness
import FortranScope.Proofs.Phrase.Completeness
import FortranScope.Proofs.Phrase.Numeral
import FortranScope.Proofs.Phrase.Writing
import FortranScope.Proofs.Phrase.Restoring
import FortranScope.Proofs.Phrase.RoundTrip
import FortranScope.Proofs.Token.Lexeme
import FortranScope.Proofs.Token.Lexing
import FortranScope.Proofs.Expr.Writing
import FortranScope.Proofs.Expr.Reading
import FortranScope.Proofs.Expr.Folding
import FortranScope.Proofs.Session.Operation
import FortranScope.Proofs.Tree.Frame
import FortranScope.Proofs.Resolution.Cell
import FortranScope.Proofs.Resolution.Settling
import FortranScope.Proofs.Resolution.Progress
import FortranScope.Proofs.Resolution.Settled
import FortranScope.Proofs.Tree.Inversion
import FortranScope.Proofs.Tree.Coherence
import FortranScope.Proofs.Tree.Walk
import FortranScope.Proofs.Resolution.Run
import FortranScope.Proofs.Tree.Association
import FortranScope.Proofs.Tree.Containment
import FortranScope.Proofs.Expr.Evaluation
import FortranScope.Proofs.Resolution.Constants
import FortranScope.Proofs.Tree.Persistence
import FortranScope.Proofs.Expr.Reference
import FortranScope.Proofs.Resolution.Property
import FortranScope.Proofs.Tree.Soundness
import FortranScope.Proofs.Session.Integrity
import FortranScope.Proofs.Tree.Naming
import FortranScope.Proofs.Tree.Stepwise
import FortranScope.Proofs.Session.Atomicity
import FortranScope.Proofs.Token.Pattern
import FortranScope.Proofs.Token.Recognition
import FortranScope.Proofs.Token.Spelling
import FortranScope.Proofs.Token.Partition
import FortranScope.Proofs.Phrase.Halting
import FortranScope.Proofs.Phrase.Viability
import FortranScope.Proofs.Expr.Faults
import FortranScope.Proofs.Token.Legibility
import FortranScope.Proofs.Phrase.Legibility
import FortranScope.Proofs.Expr.Vocabulary
import FortranScope.Proofs.Expr.Renewal
import FortranScope.Proofs.Expr.Refolding
import FortranScope.Proofs.Session.Provenance
import FortranScope.Proofs.Session.Rereading
import FortranScope.Proofs.Token.Lines
import FortranScope.Proofs.Token.LetterCase
import FortranScope.Proofs.Resolution.Parallel
import FortranScope.Proofs.Session.Occurrences
import FortranScope.Proofs.Tree.Reordering
import FortranScope.Proofs.Resolution.Independence
import FortranScope.Proofs.Session.SiblingOrder
import FortranScope.Proofs.Resolution.Order
import FortranScope.Proofs.Integer.Exactness
import FortranScope.Proofs.Expr.NormalForm
import FortranScope.Proofs.Expr.Irreducible
import FortranScope.Proofs.Expr.Limits
import FortranScope.Proofs.Guarded.Computation
import FortranScope.Proofs.Guarded.LookUp
import FortranScope.Proofs.Guarded.Folding
import FortranScope.Proofs.Guarded.Analysis
import FortranScope.Proofs.Guarded.Resolution
import FortranScope.Proofs.Session.Effects
import FortranScope.Proofs.Tree.Innermost
import FortranScope.Proofs.Session.Ranges
import FortranScope.Proofs.Token.Stretch
import FortranScope.Proofs.Phrase.Spans
import FortranScope.Proofs.Session.Imports
import FortranScope.Proofs.Phrase.Separators
import FortranScope.Proofs.Token.Operators
import FortranScope.Proofs.Expr.Typing
import FortranScope.Proofs.Resolution.Types
import FortranScope.Proofs.Token.Quoting
import FortranScope.Proofs.Session.ImportedNames
