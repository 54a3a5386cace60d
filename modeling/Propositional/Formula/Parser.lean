import Propositional.Formula.Build
import Propositional.Token.Basic

/-!
# Parser

Reads a formula from tokens, one token at a time. Implication binds weakest, then disjunction,
conjunction and negation; a run of operands of one connective becomes one chain, and parentheses
add no node.

Between two tokens the parser is in a `State`: what the current group has read so far, what the
groups around it had read when it was opened, and whether an operand or an operator comes next.
`depth` counts the open parentheses and the negations whose operand has not ended. An opening
parenthesis or negation at the limit is refused, so the depth never exceeds it. `step` is the
effect of one token; an error names the first token that no formula can have there.
-/

namespace Propositional

/-- What a text that ends too early should go on with. -/
inductive Wanted where
  | operand
  | closing
  deriving DecidableEq, Repr

def Wanted.text : Wanted → String
  | operand => "operand"
  | closing => "')'"

/-- Why tokens are no formula. Positions count tokens from 0. -/
inductive ParseError where
  | empty
  | unexpectedToken (token : Token) (position : Nat)
  | unexpectedEnd (wanted : Wanted)
  | trailingToken (token : Token) (position : Nat)
  | invalidIdentifier (name : String) (position : Nat)
  | tooDeep (position : Nat)
  deriving DecidableEq, Repr

namespace ParseError

def message : ParseError → String
  | empty => "empty expression"
  | unexpectedToken token position =>
    "unexpected token '" ++ token.text ++ "' at position " ++ toString position
  | unexpectedEnd wanted => "unexpected end of input, expected " ++ wanted.text
  | trailingToken token position =>
    "trailing token '" ++ token.text ++ "' at position " ++ toString position
  | invalidIdentifier name position =>
    "invalid identifier '" ++ name ++ "' at position " ++ toString position
  | tooDeep position => "nesting too deep at position " ++ toString position

end ParseError

namespace Parsing

/-- The operands of a group that wait for a later one, the latest first: those of its
implication, of the disjunction read last, and of the conjunction read last. -/
structure Pending where
  premises : List Formula := []
  disjuncts : List Formula := []
  conjuncts : List Formula := []

/-- The chain of `earlier`, latest first, then `f`, then `later`. -/
def gather (j : Junction) : List Formula → Formula → List Formula → Formula
  | [], f, later => .join j f later
  | e :: earlier, f, later => gather j earlier e (f :: later)

theorem gather_eq_join {j : Junction} {earlier later fs : List Formula} {f first : Formula}
    (h : earlier.reverse ++ f :: later = first :: fs) :
    gather j earlier f later = .join j first fs := by
  induction earlier generalizing f later with
  | nil => cases h; rfl
  | cons e earlier ih => exact ih (by simpa using h)

namespace Pending

/-- The conjunction that ends with `f`. -/
def conjunction (p : Pending) (f : Formula) : Formula := gather .and p.conjuncts f []

/-- The disjunction that ends with `f`. -/
def disjunction (p : Pending) (f : Formula) : Formula :=
  gather .or p.disjuncts (p.conjunction f) []

/-- The whole group that ends with `f`. -/
def close (p : Pending) (f : Formula) : Formula := gather .implies p.premises (p.disjunction f) []

/-- The group goes on with `j` after `f`: chains of tighter connectives end here. -/
def add (p : Pending) (f : Formula) : Junction → Pending
  | .and => { p with conjuncts := f :: p.conjuncts }
  | .or => { p with disjuncts := p.conjunction f :: p.disjuncts, conjuncts := [] }
  | .implies => { premises := p.disjunction f :: p.premises }

end Pending

/-- A group that was interrupted by an opening parenthesis, with the negations before it. -/
structure Frame where
  pending : Pending
  negations : Nat

/-- What comes next. -/
inductive Focus where
  /-- an operand, behind this many negations -/
  | operand (negations : Nat)
  /-- an operator or an end, behind this operand -/
  | operator (f : Formula)

structure State where
  depth : Nat := 0
  pending : Pending := {}
  /-- the interrupted groups, the innermost first -/
  outer : List Frame := []
  focus : Focus := .operand 0

namespace State

/-- One level deeper, if the limit allows it. -/
def enter (limit position : Nat) (s : State) : Except ParseError State :=
  if s.depth < limit then .ok { s with depth := s.depth + 1 } else .error (.tooDeep position)

/-- An operand behind `negations` negations has ended: it leaves their levels. -/
def complete (s : State) (negations : Nat) (f : Formula) : State :=
  { s with depth := s.depth - negations, focus := .operator (.negate negations f) }

/-- A token where an operand is due. -/
def readOperand (limit position negations : Nat) (s : State) : Token → Except ParseError State
  | .ident name =>
    match Variable.ofName? name with
    | some v => .ok (s.complete negations (.atom v))
    | none => .error (.invalidIdentifier name position)
  | .op .not => do
    let s ← s.enter limit position
    return { s with focus := .operand (negations + 1) }
  | .lparen => do
    let s ← s.enter limit position
    return { s with pending := {}, outer := ⟨s.pending, negations⟩ :: s.outer, focus := .operand 0 }
  | t => .error (.unexpectedToken t position)

/-- A token behind an operand. -/
def readOperator (position : Nat) (f : Formula) (s : State) : Token → Except ParseError State
  | .op (.binary j) => .ok { s with pending := s.pending.add f j, focus := .operand 0 }
  | t =>
    match s.outer with
    | [] => .error (.trailingToken t position)
    | frame :: outer =>
      if t = .rparen then
        .ok ({ s with depth := s.depth - 1, pending := frame.pending, outer }.complete
          frame.negations (s.pending.close f))
      else .error (.unexpectedToken t position)

/-- The effect of the token at `position`. -/
def step (limit position : Nat) (s : State) (t : Token) : Except ParseError State :=
  match s.focus with
  | .operand negations => s.readOperand limit position negations t
  | .operator f => s.readOperator position f t

/-- The effect of tokens from `position` on. -/
def run (limit : Nat) (s : State) (position : Nat) : List Token → Except ParseError State
  | [] => .ok s
  | t :: ts =>
    match s.step limit position t with
    | .ok s => s.run limit (position + 1) ts
    | .error e => .error e

theorem run_append (limit : Nat) (s : State) (position : Nat) (ts us : List Token) :
    s.run limit position (ts ++ us) =
      match s.run limit position ts with
      | .ok s => s.run limit (position + ts.length) us
      | .error e => .error e := by
  induction ts generalizing s position with
  | nil => rfl
  | cons t ts ih =>
    rw [List.cons_append, run, run]
    cases s.step limit position t with
    | error e => rfl
    | ok s => simp only [ih, List.length_cons, Nat.add_assoc, Nat.add_comm 1]

/-- The formula, if the tokens may end here. -/
def finish (s : State) : Except ParseError Formula :=
  match s.focus, s.outer with
  | .operand _, _ => .error (.unexpectedEnd .operand)
  | .operator f, [] => .ok (s.pending.close f)
  | .operator _, _ :: _ => .error (.unexpectedEnd .closing)

end State

end Parsing

namespace Formula

/-- How many parentheses and negations may be open at once, unless another limit is given. -/
def nestingLimit : Nat := 256

/-- The formula that the tokens write, with at most `limit` open parentheses and negations. -/
def ofTokens (tokens : List Token) (limit : Nat := nestingLimit) : Except ParseError Formula :=
  if tokens.isEmpty then .error .empty
  else do
    let s ← Parsing.State.run limit {} 0 tokens
    s.finish

end Formula

end Propositional
