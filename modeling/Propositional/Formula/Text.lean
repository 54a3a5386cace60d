import Propositional.Error
import Propositional.Formula.Printer
import Propositional.Token.Lexer

/-!
# Formulas in text

`Formula.ofText` reads a formula: the text is checked, cut into tokens and parsed. `Formula.text`
writes one. Reading what was written gives the formula back, unless it is nested too deeply or a
variable is spelled like a connective.
-/

namespace Propositional.Formula

/-- The formula that a text writes. -/
def ofText (s : String) : Except Error Formula :=
  match Surface.check s with
  | .error e => .error (.surface e)
  | .ok () => (ofTokens (Token.tokenize s)).mapError .parse

end Propositional.Formula
