import Propositional.CommandLine

/-!
# Program

Does what the command line asks for. Errors go to the error stream, and the exit code tells success,
an error, a panic and refused words apart.
-/

namespace Propositional

def Level.name : Level → String
  | error => "ERROR"
  | warn => "WARN"
  | info => "INFO"
  | debug => "DEBUG"
  | trace => "TRACE"

namespace CommandLine

def usage : String := "Usage: truth_table [OPTIONS] <EXPR>\n"

def help : String := String.join [
  usage,
  "\nArguments:\n  <EXPR>  Expression, e.g. \"(A | B) & !C\"\n",
  "\nOptions:\n",
  "      --assign <ASSIGNMENT>  Evaluate under a single assignment, e.g. \"A:1;B:0;C:1\"\n",
  "      --max-vars <INT>       Maximum number of free variables [default: 30]\n",
  "  -h, --help                 Print help\n",
  "  -V, --version              Print version\n"]

def version : String := "logic-eval 0.1.0\n"

/-- The level and the message of a record, and no time. -/
def recordLine (r : Record) : String := "[" ++ r.level.name ++ "] " ++ r.message ++ "\n"

def execute (words : List String) : IO UInt32 := do
  match Request.ofWords words with
  | .run args =>
    let outcome := run args
    IO.print (outcome.output (logger recordLine))
    match outcome.ending with
    | .done => pure ()
    | .failed message | .panicked message => IO.eprintln ("Error: " ++ message)
    return outcome.ending.exitCode.toUInt32
  | .help =>
    IO.print help
    return 0
  | .version =>
    IO.print version
    return 0
  | .refused =>
    IO.eprint usage
    return 2

end CommandLine

end Propositional

def main (words : List String) : IO UInt32 := Propositional.CommandLine.execute words
