import Propositional.Assignment.Text
import Propositional.Formula.Text
import Propositional.Log
import Propositional.Request
import Propositional.TruthTable.Printer
import Propositional.TruthTable.Storage

/-!
# Command line

The program logs what it was asked and reads the formula. It prints the formula; then it prints the
value of the formula under an assignment if one is given, and else its truth table with a count of
the true rows. What was printed before an error stays. The stages log on their own, but the
program's logger passes over all of that, so it is left out here, save for a warning about dropped
rows.
-/

namespace Propositional

namespace TruthTable

/-- What is logged about rows that were dropped. -/
def warnings (t : TruthTable) : List Record :=
  if 0 < t.values.dropped then
    [⟨.warn, "truth table truncated: dropped " ++ toString t.values.dropped ++ " of " ++
      toString (1 <<< t.vars.length) ++ " rows"⟩]
  else []

end TruthTable

namespace Arguments

/-- The assignment as the log shows it. -/
def assignText (args : Arguments) : String :=
  match args.assign with
  | none => "None"
  | some assign => "Some(" ++ Text.quoted assign ++ ")"

/-- What is logged before the formula is read. -/
def record (args : Arguments) : Record where
  level := .info
  message := "args = Cli \x7b expr: " ++ Text.quoted args.formula ++ ", assign: " ++
    args.assignText ++ ", max_vars: " ++ toString args.maxVars ++ " \x7d"

/-- The settings for a table. -/
def settings (args : Arguments) : TruthTable.Settings := { maxVariables := args.maxVars }

end Arguments

namespace CommandLine

/-- The program's logger. How it writes a record is left open. -/
def logger (line : Record → String) : Logger where
  level := .info
  line := line

/-- How a run ends. -/
inductive Ending where
  | done
  | failed (message : String)
  /-- there was no storage for a table -/
  | panicked (message : String)
  deriving DecidableEq, Repr

def Ending.exitCode : Ending → Nat
  | done => 0
  | failed _ => 1
  | panicked _ => 101

structure Outcome where
  events : List Event
  ending : Ending
  deriving DecidableEq, Repr

namespace Outcome

/-- Before the rest of a run, an event. -/
def after (e : Event) (rest : Outcome) : Outcome := { rest with events := e :: rest.events }

/-- What the program prints itself. -/
def printed (outcome : Outcome) : String :=
  outcome.events.foldr (fun e text => e.printed ++ text) ""

/-- What comes to standard output, the lines of the log among what is printed. -/
def output (logger : Logger) (outcome : Outcome) : String :=
  outcome.events.foldr (fun e text => e.output logger ++ text) ""

@[simp] theorem printed_nil (ending : Ending) : printed ⟨[], ending⟩ = "" := rfl

@[simp] theorem printed_cons (e : Event) (events : List Event) (ending : Ending) :
    printed ⟨e :: events, ending⟩ = e.printed ++ printed ⟨events, ending⟩ := rfl

end Outcome

/-- The line that shows the formula. -/
def formulaLine (f : Formula) : String := "expr = " ++ f.text ++ "\n"

/-- Prints the value of a formula under the assignment that a text writes. -/
def runAssignment (f : Formula) (assign : String) : Outcome :=
  match Assignment.ofText assign with
  | .error e => ⟨[], .failed e.message⟩
  | .ok a =>
    match f.eval a.get? with
    | .error e => ⟨[], .failed e.message⟩
    | .ok b => ⟨[.print ("value = " ++ (if b then "true" else "false") ++ "\n")], .done⟩

/-- The line that counts the true rows. -/
def countLine (t : TruthTable) : String :=
  toString t.trueRows ++ " of " ++ toString t.size ++ " rows are true\n"

/-- Prints the truth table of a formula. -/
def runTable (f : Formula) (settings : TruthTable.Settings) : Outcome :=
  match TruthTable.buildInStorage f settings with
  | .error e => ⟨[], .panicked e.message⟩
  | .ok (.error e) => ⟨[], .failed e.message⟩
  | .ok (.ok t) => ⟨t.warnings.map .log ++ [.print t.text, .print (countLine t)], .done⟩

/-- What follows once the formula has been read. -/
def runFormula (args : Arguments) (f : Formula) : Outcome :=
  .after (.print (formulaLine f)) <|
    match args.assign with
    | some assign => runAssignment f assign
    | none => runTable f args.settings

def run (args : Arguments) : Outcome :=
  .after (.log args.record) <|
    match Formula.ofText args.formula with
    | .error e => ⟨[], .failed e.message⟩
    | .ok f => runFormula args f

end CommandLine

end Propositional
