import Propositional.Main
import Propositional.TruthTable.Storage
import Propositional.Proofs.Formula.Completeness
import Propositional.Proofs.Formula.Soundness
import Propositional.Proofs.Formula.Refusal
import Propositional.Proofs.Formula.Limit
import Propositional.Proofs.Formula.Balance
import Propositional.Proofs.Formula.OpenLevels
import Propositional.Proofs.Token.Lexer
import Propositional.Proofs.Token.Seam
import Propositional.Proofs.Connective
import Propositional.Proofs.Token.Lexeme
import Propositional.Proofs.Token.Spelling
import Propositional.Proofs.Token.Paren
import Propositional.Proofs.Surface
import Propositional.Proofs.Surface.Verdict
import Propositional.Proofs.Formula.Printer
import Propositional.Proofs.Formula.Text
import Propositional.Proofs.Formula.Precedence
import Propositional.Proofs.Formula.CheckedText
import Propositional.Proofs.Formula.RoundTrip
import Propositional.Proofs.Formula.Depth
import Propositional.Proofs.Formula.Readability
import Propositional.Proofs.Formula.Eval
import Propositional.Proofs.Formula.Missing
import Propositional.Proofs.Formula.Rearrangement
import Propositional.Proofs.Formula.ChainValue
import Propositional.Proofs.Formula.Grouping
import Propositional.Proofs.Formula.Renaming
import Propositional.Proofs.TruthTable.Collector
import Propositional.Proofs.TruthTable.Rows
import Propositional.Proofs.TruthTable.Rearrangement
import Propositional.Proofs.TruthTable.Renaming
import Propositional.Proofs.TruthTable.Lines
import Propositional.Proofs.TruthTable.Models
import Propositional.Proofs.Request
import Propositional.Proofs.CommandLine
import Propositional.Proofs.Variable
import Propositional.Proofs.TruthTable.Build
import Propositional.Proofs.TruthTable.Outcome
import Propositional.Proofs.TruthTable.Word64
import Propositional.Proofs.Tree.Basic
import Propositional.Proofs.Tree.Build
import Propositional.Proofs.Tree.Descent
import Propositional.Proofs.Tree.Agreement
import Propositional.Proofs.Tree.Activation
import Propositional.Proofs.Tree.OpenLevels
import Propositional.Proofs.Tree.Panic
import Propositional.Proofs.Tree.Reachable
import Propositional.Proofs.Formula.Build
import Propositional.Proofs.TruthTable.Columns
import Propositional.Proofs.TruthTable.Storage
import Propositional.Proofs.Assignment.Text
