/-!
# Connectives

A formula is built with one unary connective, negation, and three that join a run of operands:
conjunction, disjunction and implication. `Junction` is the closed set of the latter, so that what
joins operands never has to ask whether it may. `Connective` adds negation; it is what a text
spells, what precedence orders and what messages name.
-/

namespace Propositional

/-- A connective that joins two or more operands. -/
inductive Junction where
  | and
  | or
  | implies
  deriving DecidableEq, Repr

/-- Implication fails only from true to false. -/
def Junction.apply : Junction → Bool → Bool → Bool
  | .and, a, b => a && b
  | .or, a, b => a || b
  | .implies, a, b => !a || b

inductive Connective where
  | not
  | binary (j : Junction)
  deriving DecidableEq, Repr

/-- A connective used with the wrong number of truth values. -/
inductive ArityError where
  /-- negation was given two -/
  | notBinary
  /-- a junction was given one -/
  | notUnary (j : Junction)
  deriving DecidableEq, Repr

namespace Connective

/-- Every connective, least first. -/
def all : List Connective := [.not, .binary .and, .binary .or, .binary .implies]

/-- Upper-case word. Text may spell it in any letter case. -/
def word : Connective → String
  | .not => "NOT"
  | .binary .and => "AND"
  | .binary .or => "OR"
  | .binary .implies => "IMPLIES"

def symbol : Connective → String
  | .not => "!"
  | .binary .and => "&"
  | .binary .or => "|"
  | .binary .implies => ">"

/-- The other symbolic spelling. -/
def altSymbol : Connective → String
  | .not => "~"
  | .binary .and => "&&"
  | .binary .or => "||"
  | .binary .implies => "=>"

instance : ToString Connective := ⟨word⟩

/-- Binding strength: a higher one binds tighter. -/
def precedence : Connective → Nat
  | .binary .implies => 1
  | .binary .or => 2
  | .binary .and => 3
  | .not => 4

/-- Place in the order of connectives. -/
def rank : Connective → Nat
  | .not => 0
  | .binary .and => 1
  | .binary .or => 2
  | .binary .implies => 3

instance : LT Connective := ⟨fun a b => a.rank < b.rank⟩

instance (a b : Connective) : Decidable (a < b) := inferInstanceAs (Decidable (a.rank < b.rank))

/-- The connectives before `c`. -/
def below (c : Connective) : List Connective := all.filter (· < c)

def isChainable : Connective → Bool
  | .not => false
  | .binary _ => true

/-- The value of a junction on two truth values. -/
def reduce : Connective → Bool → Bool → Except ArityError Bool
  | .not, _, _ => .error .notBinary
  | .binary j, a, b => .ok (j.apply a b)

/-- The value of negation on one truth value. -/
def applyUnary : Connective → Bool → Except ArityError Bool
  | .not, a => .ok !a
  | .binary j, _ => .error (.notUnary j)

/-- Whether the letters spell `c`: one of its two symbols, or its word in any letter case. -/
def spelled (c : Connective) (letters : List Char) : Bool :=
  letters == c.symbol.toList || letters == c.altSymbol.toList ||
    letters.map Char.toUpper == c.word.toList

/-- The connective that the letters spell. -/
def ofLetters? (letters : List Char) : Option Connective := all.find? (·.spelled letters)

/-- The connective that a text spells as a whole. -/
def ofSpelling? (s : String) : Option Connective := ofLetters? s.toList

theorem mem_all (c : Connective) : c ∈ all := by
  cases c with
  | not => simp [all]
  | binary j => cases j <;> simp [all]

theorem ofLetters?_word (c : Connective) : ofLetters? c.word.toList = some c := by
  cases c with
  | not => decide
  | binary j => cases j <;> decide

theorem ofLetters?_altSymbol (c : Connective) : ofLetters? c.altSymbol.toList = some c := by
  cases c with
  | not => decide
  | binary j => cases j <;> decide

theorem ofLetters?_symbol (c : Connective) : ofLetters? c.symbol.toList = some c := by
  cases c with
  | not => decide
  | binary j => cases j <;> decide

theorem spelled_of_ofLetters? {letters : List Char} {c : Connective}
    (h : ofLetters? letters = some c) : c.spelled letters = true := by
  simpa using List.find?_some h

end Connective

namespace ArityError

def message : ArityError → String
  | .notBinary => "NOT is a unary operator and cannot reduce two operands"
  | .notUnary j => (Connective.binary j).word ++ " is not a unary operator"

end ArityError

end Propositional
