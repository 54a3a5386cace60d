import Propositional.Formula.Basic

/-!
# Evaluation

A valuation gives a truth value to some variables. Evaluating a formula needs a value for every
variable in it: all operands of a chain are evaluated, from left to right, and the value of the
chain is their left fold, so `A > B > C` means `(A > B) > C`. The first variable without a value,
from the left, is the error.
-/

namespace Propositional

abbrev Valuation := Variable → Option Bool

inductive EvalError where
  | missing (v : Variable)
  deriving DecidableEq, Repr

def EvalError.message : EvalError → String
  | missing v => "no value assigned to variable '" ++ v.name ++ "'"

namespace Junction

/-- The left fold of truth values. -/
def applyAll (j : Junction) (a : Bool) (rest : List Bool) : Bool := rest.foldl j.apply a

/-- The left fold of results; the first error from the left is the error of the whole. -/
def combine {ε : Type} (j : Junction) (a : Except ε Bool) (rest : List (Except ε Bool)) :
    Except ε Bool := do
  let first ← a
  rest.foldlM (fun acc b => return j.apply acc (← b)) first

end Junction

namespace Formula

/-- The value of a formula. -/
def eval (val : Valuation) : Formula → Except EvalError Bool :=
  fold
    (fun v =>
      match val v with
      | some b => .ok b
      | none => .error (.missing v))
    (fun r => return !(← r))
    (fun j a b rest => j.combine a (b :: rest))

theorem eval_atom {val : Valuation} {v : Variable} {b : Bool} (h : val v = some b) :
    (atom v).eval val = .ok b := by
  simp [eval, fold, h]

theorem eval_atom_missing {val : Valuation} {v : Variable} (h : val v = none) :
    (atom v).eval val = .error (.missing v) := by
  simp [eval, fold, h]

theorem eval_neg (val : Valuation) (f : Formula) :
    (neg f).eval val = (f.eval val).map (!·) := rfl

theorem eval_chain (val : Valuation) (j : Junction) (f g : Formula) (rest : List Formula) :
    (chain j f g rest).eval val =
      j.combine (f.eval val) ((g :: rest).map (eval val)) := by
  simp only [eval, fold, foldAll_eq_map, List.map_cons]

end Formula

end Propositional
