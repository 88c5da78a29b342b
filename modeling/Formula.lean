import Formula.Datum.Equality
import Formula.Expr.Blank
import Formula.File.Tree
import Formula.Grammar.Session
import Formula.Main
import Formula.Proofs.CommandLine
import Formula.Proofs.Expr.Construction
import Formula.Proofs.Expr.Erasure
import Formula.Proofs.Expr.Respacing
import Formula.Proofs.Grammar.Descent
import Formula.Proofs.Grammar.Factors
import Formula.Proofs.Grammar.Interruption
import Formula.Proofs.Grammar.Labels
import Formula.Proofs.Grammar.Nesting
import Formula.Proofs.Grammar.Sessions
import Formula.Proofs.Grammar.SingleEntry
import Formula.Proofs.Grammar.Substitution
import Formula.Proofs.Reading
import Formula.Proofs.Reports
import Formula.Proofs.Text.Quotation
import Formula.Proofs.Token.Displacement
import Formula.Proofs.Token.Faults
import Formula.Proofs.Token.LongestMatch
import Formula.Proofs.Token.Lossless
