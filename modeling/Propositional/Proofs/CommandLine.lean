import Propositional.CommandLine
import Propositional.Proofs.TruthTable.Build
import Propositional.Proofs.TruthTable.Lines
import Propositional.Proofs.TruthTable.Models
import Propositional.Proofs.TruthTable.Storage

/-!
# What the program prints

The program has two modes, which evaluate a formula in different ways: one reads an assignment from
text and evaluates once, the other prints a row for each assignment. They agree: the value under an
assignment is the last character of its row. `Fails` lists the ends with an error and what is
printed before each: nothing if the formula cannot be read, and else the line that shows it. The
logger writes one line, for the arguments, before anything is printed, and nothing among it.
-/

namespace Propositional

namespace TruthTable

variable {f : Formula} {t : TruthTable} {settings : Settings} {n : Nat}

end TruthTable

namespace CommandLine

open TruthTable

variable {args : Arguments} {f : Formula} {output assign : String} {ending : Ending}
  {a : Assignment}

end CommandLine

end Propositional
