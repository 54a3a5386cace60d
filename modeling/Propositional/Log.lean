/-!
# Log

A program keeps a log of records and prints besides. What becomes of a record is for the logger to
say, which is no part of the program: it passes over the records below its level, and on a terminal
it writes errors to the error stream and all others to standard output, among what is printed there.
How it writes a record, with the time or in colour, is left open.
-/

namespace Propositional

/-- The levels of records, the gravest first. -/
inductive Level where
  | error
  | warn
  | info
  | debug
  | trace
  deriving DecidableEq, Repr

/-- Place in the order of levels. -/
def Level.rank : Level → Nat
  | error => 1
  | warn => 2
  | info => 3
  | debug => 4
  | trace => 5

structure Record where
  level : Level
  message : String
  deriving DecidableEq, Repr

/-- A logger on a terminal. -/
structure Logger where
  /-- the level of the least grave records that are written -/
  level : Level
  /-- how a record is written, with its line end -/
  line : Record → String

/-- What the logger writes to standard output for a record. -/
def Logger.output (logger : Logger) (r : Record) : String :=
  if r.level.rank ≤ logger.level.rank ∧ r.level ≠ .error then logger.line r else ""

/-- What a program does that can be seen on the way. -/
inductive Event where
  | log (r : Record)
  | print (text : String)
  deriving DecidableEq, Repr

namespace Event

/-- What the program prints itself. -/
def printed : Event → String
  | log _ => ""
  | print text => text

/-- What comes to standard output. -/
def output (logger : Logger) : Event → String
  | log r => logger.output r
  | print text => text

@[simp] theorem printed_print (text : String) : (print text).printed = text := rfl

end Event

end Propositional
