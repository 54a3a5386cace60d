import Mathlib.Data.Nat.Count
import Mathlib.Data.Set.Card
import Propositional.Proofs.TruthTable.Outcome

/-!
# Counting models

A model of a formula is an assignment of its variables under which its connectives make it true.
Every assignment of the variables is that of one row of the full table, so there are as many models
as true rows.
-/

namespace Propositional

namespace Formula

end Formula

namespace TruthTable

variable {vs : List Variable}

end TruthTable

end Propositional
