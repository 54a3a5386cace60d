import Propositional.TruthTable.Basic

/-!
# Printed truth tables

One line names the variables and one line follows per row that is kept. Every column is as wide as
the name of its variable; a row has the bit of the variable at the left of the column. Behind a
bar stands the value of the formula.
-/

namespace Propositional.TruthTable

def bit (b : Bool) : Char := if b then '1' else '0'

/-- The name of a variable in the heading. -/
def headingCell (v : Variable) : List Char := v.name.toList ++ [' ']

/-- The value of a variable in a row, as wide as the name. -/
def cell (v : Variable) (b : Bool) : List Char := bit b :: List.replicate v.name.length ' '

def heading (vs : List Variable) : List Char := vs.flatMap headingCell ++ ['|', ' ', '=', '\n']

/-- The line of row `i` with value `b`. -/
def rowLine (vs : List Variable) (i : Nat) (b : Bool) : List Char :=
  (rowEntries vs i).flatMap (fun e => cell e.1 e.2) ++ ['|', ' ', bit b, '\n']

/-- The lines of the table. -/
def lines (t : TruthTable) : List (List Char) :=
  heading t.vars :: t.values.toList.mapIdx (rowLine t.vars)

def text (t : TruthTable) : String := String.ofList t.lines.flatten

instance : ToString TruthTable := ⟨text⟩

/-- The bit and the blanks behind it take as much room as the name and its blank. -/
theorem length_cell (v : Variable) (b : Bool) : (cell v b).length = (headingCell v).length := by
  simp [cell, headingCell, ← String.length_toList]

end Propositional.TruthTable
