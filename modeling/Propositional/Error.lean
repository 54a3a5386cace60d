import Propositional.Formula.Build
import Propositional.Formula.Eval
import Propositional.Formula.Parser
import Propositional.Surface
import Propositional.TruthTable.Collector

/-!
# Errors

The error of a whole task: that of the stage which failed, under a heading that names the stage.
-/

namespace Propositional

inductive Error where
  | surface (e : SurfaceError)
  | parse (e : ParseError)
  | build (e : BuildError)
  | eval (e : EvalError)
  | table (e : TableError)
  deriving DecidableEq, Repr

def Error.message : Error → String
  | surface e => "invalid input: " ++ e.message
  | parse e => "parse error: " ++ e.message
  | build e => "malformed expression: " ++ e.message
  | eval e => "evaluation failed: " ++ e.message
  | table e => "truth table: " ++ e.message

end Propositional
