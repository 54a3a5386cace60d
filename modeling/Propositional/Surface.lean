import Propositional.Text.CharClass
import Propositional.Text.Quoted

/-!
# Surface of a text

The first look at a text, before its tokens: every character belongs to a class that formulas use,
and the parentheses are balanced. Grammar is left to the parser. The scan goes from left to right
and stops at the first violation; offsets count bytes of the UTF-8 form.
-/

namespace Propositional

inductive SurfaceError where
  | invalidCharacter (c : Char) (offset : Nat)
  | unbalancedClose (offset : Nat)
  | unclosed (count : Nat)
  deriving DecidableEq, Repr

def SurfaceError.message : SurfaceError → String
  | invalidCharacter c offset =>
    "invalid character " ++ Text.quotedChar c ++ " at offset " ++ toString offset
  | unbalancedClose offset => "unbalanced ')' at offset " ++ toString offset
  | unclosed count => toString count ++ " unclosed '(' at end of input"

namespace Surface

open Text

/-- Scans the characters from `offset` on, inside `opened` parentheses. -/
def scan (opened offset : Nat) : List Char → Except SurfaceError Unit
  | [] => if opened = 0 then .ok () else .error (.unclosed opened)
  | c :: cs =>
    match CharClass.of c with
    | .opening => scan (opened + 1) (offset + c.utf8Size) cs
    | .closing =>
      match opened with
      | 0 => .error (.unbalancedClose offset)
      | opened + 1 => scan opened (offset + c.utf8Size) cs
    | .other => .error (.invalidCharacter c offset)
    | .blank | .word | .symbol => scan opened (offset + c.utf8Size) cs

/-- Whether a text has the surface of a formula. -/
def check (s : String) : Except SurfaceError Unit := scan 0 0 s.toList

def isValid (s : String) : Bool := (check s).isOk

end Surface

end Propositional
