import Propositional.Formula.Basic

/-!
# Building formulas

A chain is asked for by a connective and a list of operands, or assembled operand by operand with
the connective before each. Both are checked once, when the formula is made: negation joins
nothing, a chain has at least two operands, and an assembled one uses one connective throughout.
-/

namespace Propositional

/-- Why no chain can be made. -/
inductive BuildError where
  | notChainable (c : Connective)
  | tooFewOperands (count : Nat)
  /-- `other` is the earliest connective different from `first` -/
  | mixedConnectives (first other : Connective)
  deriving DecidableEq, Repr

namespace BuildError

def message : BuildError → String
  | notChainable c => "operator " ++ c.word ++ " cannot join a chain"
  | tooFewOperands count => "chain needs at least 2 operands, got " ++ toString count
  | mixedConnectives first other =>
    "chain mixes operators " ++ first.word ++ " and " ++ other.word

end BuildError

namespace Formula

/-- The operands joined by `c`. -/
def ofOperands : Connective → List Formula → Except BuildError Formula
  | .not, _ => .error (.notChainable .not)
  | .binary j, first :: second :: rest => .ok (chain j first second rest)
  | .binary _, few => .error (.tooFewOperands few.length)

/-- Two operands joined by `c`. -/
def binary (f : Formula) (c : Connective) (g : Formula) : Except BuildError Formula :=
  ofOperands c [f, g]

/-- `count` negations around a formula. -/
def negate : Nat → Formula → Formula
  | 0, f => f
  | count + 1, f => negate count (neg f)

@[simp] theorem ofOperands_binary (j : Junction) (f g : Formula) (rest : List Formula) :
    ofOperands (.binary j) (f :: g :: rest) = .ok (chain j f g rest) := rfl

theorem leaves_negate (count : Nat) (f : Formula) : (negate count f).leaves = f.leaves := by
  induction count generalizing f with
  | zero => rfl
  | succ count ih => exact ih (neg f)

theorem operands_of_ofOperands {c : Connective} {fs : List Formula} {f : Formula}
    (h : ofOperands c fs = .ok f) : f.connective? = some c ∧ f.operands = fs := by
  unfold ofOperands at h
  split at h
  · cases h
  · cases h; exact ⟨rfl, rfl⟩
  · cases h

end Formula

/-- A chain in the making: its first operand, and each later one behind its connective. -/
structure ChainBuilder where
  first : Formula
  pushed : List (Connective × Formula) := []
  deriving DecidableEq

namespace ChainBuilder

/-- The builder with one more operand. -/
def push (b : ChainBuilder) (c : Connective) (f : Formula) : ChainBuilder :=
  { b with pushed := b.pushed ++ [(c, f)] }

/-- The chain of all operands in the order in which they were pushed. -/
def build (b : ChainBuilder) : Except BuildError Formula :=
  match b.pushed with
  | [] => .error (.tooFewOperands 1)
  | (c, f) :: rest =>
    match rest.find? (·.1 ≠ c) with
    | some (other, _) => .error (.mixedConnectives c other)
    | none => Formula.ofOperands c (b.first :: f :: rest.map (·.2))

end ChainBuilder

end Propositional
