import Propositional.Text.Split
import Propositional.Text.Word64

/-!
# Requests

The words of a command line are read from left to right. A word that begins with a minus sign is an
option, unless it is the minus sign alone or stands behind `--`; every other word is a formula, or
the value of the option before it. An option has its value in the same word, behind an equals sign,
or in the next. There is one formula, and each option stands once at most. The first word that asks
for help or for the version, or that does not fit, ends the reading.
-/

namespace Propositional

/-- What the program is asked to work on. -/
structure Arguments where
  formula : String
  assign : Option String := none
  maxVars : Nat := 30
  deriving DecidableEq, Repr

inductive Request where
  | run (args : Arguments)
  | help
  | version
  | refused
  deriving DecidableEq, Repr

namespace Request

open Text

/-- The options that take a value. -/
inductive Key where
  | assign
  | maxVars
  deriving DecidableEq, Repr

def Key.name : Key → String
  | assign => "assign"
  | maxVars => "max-vars"

/-- What a word is where options may stand. -/
inductive Word where
  | plain
  | option (key : Key) (value : Option String)
  | help
  | version
  /-- behind it there are no options -/
  | last
  | unknown
  deriving DecidableEq, Repr

/-- The option with this name, and the value behind the equals sign if there is one. -/
def Word.ofName (name : List Char) (value : Option String) : Word :=
  if name = Key.assign.name.toList then .option .assign value
  else if name = Key.maxVars.name.toList then .option .maxVars value
  else if name = "help".toList ∧ value = none then .help
  else if name = "version".toList ∧ value = none then .version
  else .unknown

/-- Of letters behind a single minus sign the first one tells. -/
def Word.ofChars : List Char → Word
  | ['-', '-'] => .last
  | '-' :: '-' :: cs =>
    match splitOnce? '=' cs with
    | some (name, value) => .ofName name (some (String.ofList value))
    | none => .ofName cs none
  | '-' :: 'h' :: _ => .help
  | '-' :: 'V' :: _ => .version
  | '-' :: _ :: _ => .unknown
  | _ => .plain

/-- What has been read so far. -/
structure Draft where
  formula : Option String := none
  assign : Option String := none
  maxVars : Option Nat := none
  deriving DecidableEq, Repr

namespace Draft

/-- Takes a word as the formula, if there is none yet. -/
def setFormula (d : Draft) (word : String) : Option Draft :=
  if d.formula = none then some { d with formula := some word } else none

/-- Gives an option its value, if it fits and the option has none yet. -/
def set (d : Draft) : Key → String → Option Draft
  | .assign, value => if d.assign = none then some { d with assign := some value } else none
  | .maxVars, value =>
    if d.maxVars = none then (word64? value).map fun n => { d with maxVars := some n } else none

/-- The request at the end of the words. -/
def request (d : Draft) : Request :=
  match d.formula with
  | some formula => .run { formula, assign := d.assign, maxVars := d.maxVars.getD 30 }
  | none => .refused

/-- Reads the words behind `--`. -/
def readPlain (d : Draft) : List String → Request
  | [] => d.request
  | word :: words =>
    match d.setFormula word with
    | some d => d.readPlain words
    | none => .refused

def read (d : Draft) : List String → Request
  | [] => d.request
  | word :: words =>
    match Word.ofChars word.toList, words with
    | .plain, words =>
      match d.setFormula word with
      | some d => d.read words
      | none => .refused
    | .option key (some value), words =>
      match d.set key value with
      | some d => d.read words
      | none => .refused
    | .option key none, value :: words =>
      match Word.ofChars value.toList, d.set key value with
      | .plain, some d => d.read words
      | _, _ => .refused
    | .help, _ => .help
    | .version, _ => .version
    | .last, words => d.readPlain words
    | _, _ => .refused

end Draft

/-- The request that the words of a command line make. -/
def ofWords (words : List String) : Request := Draft.read {} words

end Request

end Propositional
