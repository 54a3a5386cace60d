import Propositional.Assignment.Basic
import Propositional.Text.Split

/-!
# Assignments in text

`A:1;B:0` gives true to `A` and false to `B`. Segments are separated by semicolons and may be
blank; in the others the name stands before the first colon and the bit after it, both with blanks
around them. Of two segments for one variable the later counts, and of two bad segments the
earlier is the error.
-/

namespace Propositional

/-- Why a text is no assignment. -/
inductive AssignmentError where
  | missingColon (segment : String)
  | invalidName (name : String)
  | invalidBit (bit : String) (v : Variable)
  deriving DecidableEq, Repr

def AssignmentError.message : AssignmentError → String
  | missingColon segment => "expected name:bit, got " ++ Text.quoted segment
  | invalidName name => "invalid variable name " ++ Text.quoted name
  | invalidBit bit v =>
    "invalid bit " ++ Text.quoted bit ++ " for " ++ v.name ++ ", expected 0 or 1"

namespace Assignment

open Text

/-- The truth value of a bit. -/
def readBit? (cs : List Char) : Option Bool :=
  if cs = ['1'] then some true else if cs = ['0'] then some false else none

/-- The entry that a segment writes. -/
def readEntry (segment : List Char) : Except AssignmentError (Variable × Bool) :=
  match splitOnce? ':' segment with
  | none => .error (.missingColon (String.ofList segment))
  | some (name, bit) =>
    match Variable.ofName? (String.ofList (trim name)) with
    | none => .error (.invalidName (String.ofList name))
    | some v =>
      match readBit? (trim bit) with
      | none => .error (.invalidBit (String.ofList (trim bit)) v)
      | some b => .ok (v, b)

/-- The segments that are not blank. -/
def segments (cs : List Char) : List (List Char) :=
  (splitAll ';' cs).filter fun segment => !segment.all isBlank

/-- The assignment that a text writes. -/
def ofText (s : String) : Except AssignmentError Assignment :=
  ((segments s.toList).mapM readEntry).map ofList

end Assignment

end Propositional
