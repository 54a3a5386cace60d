import Propositional.Text.Extender
import Propositional.Text.Unprintable

/-!
# Quoted text

A message shows a name or a character between quotes so that each mark on the line stands for one
character: line breaks, tabs and the like have a short escape, the quote and the backslash are
escaped by a backslash, and whatever has no mark of its own is written as its code point.
-/

namespace Propositional.Text

/-- A code point in lower-case hexadecimal, between braces. -/
def codeEscape (c : Char) : List Char :=
  ['\\', 'u', '\x7b'] ++ Nat.toDigits 16 c.toNat ++ ['\x7d']

/-- How `c` is written between two marks `quote`. -/
def escape (quote c : Char) : List Char :=
  if c = '\x00' then ['\\', '0']
  else if c = '\t' then ['\\', 't']
  else if c = '\n' then ['\\', 'n']
  else if c = '\r' then ['\\', 'r']
  else if c = '\\' || c = quote then ['\\', c]
  else if isExtender c || isUnprintable c then codeEscape c
  else [c]

/-- A character between single quotes. -/
def quotedChar (c : Char) : String :=
  String.ofList ('\'' :: escape '\'' c ++ ['\''])

/-- A text between double quotes. -/
def quoted (s : String) : String :=
  String.ofList ('"' :: s.toList.flatMap (escape '"') ++ ['"'])

end Propositional.Text
