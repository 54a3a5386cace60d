import Propositional.Connective

/-!
# Tokens

The parts of a formula's text: parentheses, connectives, and identifiers. An identifier may hold
any text; whether it names a variable is for the parser to say.
-/

namespace Propositional

inductive Token where
  | lparen
  | rparen
  | op (c : Connective)
  | ident (name : String)
  deriving DecidableEq, Repr

namespace Token

/-- A connective is shown as its word, however it was spelled. -/
def text : Token → String
  | lparen => "("
  | rparen => ")"
  | op c => c.word
  | ident name => name

instance : ToString Token := ⟨text⟩

/-- The tokens on one line, a space between any two. -/
def line (ts : List Token) : String := " ".intercalate (ts.map text)

end Token

end Propositional
