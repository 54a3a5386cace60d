import Propositional.Error
import Propositional.TruthTable.Search

/-!
# Truth tables

The variables of a formula in ascending order are its columns, and the rows are numbered so that
variable `j` has the value of bit `j` of the row number: the first variable changes fastest. The
formula is evaluated at every row and the values are collected in the order of the rows. Row
numbers are 64-bit words, which bounds the variables by 63 whatever the settings allow.
-/

namespace Propositional

/-- What happens to a row that no longer fits. -/
inductive Overflow where
  /-- it is dropped -/
  | truncate
  /-- the table is an error -/
  | refuse
  deriving DecidableEq, Repr

namespace TruthTable

/-- Settings for building a table. -/
structure Settings where
  maxVariables : Nat := 30
  /-- how many rows are kept; all of them if absent -/
  rowLimit : Option Nat := none
  overflow : Overflow := .truncate
  deriving DecidableEq, Repr

/-- More variables than this cannot be numbered in a 64-bit word. -/
def maxNumbered : Nat := 63

/-- A row as a valuation: each variable has the bit of its place. -/
def rowValuation (vs : List Variable) (row : Nat) : Valuation := fun v =>
  (search vs v).map row.testBit

/-- The values of the variables in a row. -/
def rowEntries (vs : List Variable) (row : Nat) : List (Variable × Bool) :=
  vs.mapIdx fun j v => (v, row.testBit j)

end TruthTable

structure TruthTable where
  vars : List Variable
  values : Collector
  deriving DecidableEq

namespace TruthTable

/-- Evaluates `remaining` rows from `row` on and offers their values to the collector. -/
def fill (f : Formula) (vs : List Variable) (overflow : Overflow) (remaining row : Nat)
    (values : Collector) : Except Error Collector :=
  match remaining with
  | 0 => .ok values
  | remaining + 1 =>
    match f.eval (rowValuation vs row) with
    | .error e => .error (.eval e)
    | .ok b =>
      match overflow, values.tryPush b with
      | .refuse, (.error e, _) => .error (.table e)
      | _, (_, values) => fill f vs overflow remaining (row + 1) values

/-- The table of a formula, if its variables can be numbered; `reserve` makes the collector for its
values from the capacity and the number of rows. -/
def buildIn {m : Type → Type} [Monad m] (reserve : Nat → Nat → m Collector) (f : Formula)
    (settings : Settings) : m (Except Error TruthTable) :=
  let vs := f.vars
  let max := min settings.maxVariables maxNumbered
  if max < vs.length then return .error (.table (.tooManyVariables vs.length max))
  else do
    let rows := 1 <<< vs.length
    let room ← reserve (settings.rowLimit.getD rows) rows
    return (fill f vs settings.overflow rows 0 room).map fun values => ⟨vs, values⟩

/-- The table of a formula, where there is room for any number of values. -/
def build (f : Formula) (settings : Settings := {}) : Except Error TruthTable :=
  Id.run (buildIn (fun capacity expected => pure (.withReserved capacity expected)) f settings)

theorem build_eq (f : Formula) (settings : Settings) :
    build f settings =
      if min settings.maxVariables maxNumbered < f.vars.length then
        .error (.table (.tooManyVariables f.vars.length (min settings.maxVariables maxNumbered)))
      else
        (fill f f.vars settings.overflow (1 <<< f.vars.length) 0
          (.withReserved (settings.rowLimit.getD (1 <<< f.vars.length)) (1 <<< f.vars.length))).map
          fun values => ⟨f.vars, values⟩ := by
  simp only [build, buildIn]
  split <;> rfl

/-- How many rows are kept. -/
def size (t : TruthTable) : Nat := t.values.size

/-- The value of a formula at a row, if the row is kept. -/
def row (t : TruthTable) (i : Nat) : Option Bool := t.values.values[i]?

/-- The values of the variables at a row number, kept or not. -/
def assignment (t : TruthTable) (i : Nat) : List (Variable × Bool) := rowEntries t.vars i

/-- The values of a formula at all rows, under the default settings. -/
def enumerate (f : Formula) : Except Error (List Bool) := (build f).map (·.values.toList)

/-- How many of the rows kept are true. -/
def trueRows (t : TruthTable) : Nat := t.values.toList.count true

end TruthTable

end Propositional
