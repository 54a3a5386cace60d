import Propositional.Text.CharClass
import Propositional.Token.Basic

/-!
# Lexer

A text falls into runs, the longest stretches of characters of one class, and each run is read on
its own. Blanks separate and leave nothing, parentheses stand singly, and a word is a connective
or an identifier. Symbols are split from the left by a table of their own, a longer symbol before a
shorter one; where none fits, the rest of the run is one identifier. Characters of no other class
form identifiers that no variable has. Every text has tokens.
-/

namespace Propositional

/-- A non-empty stretch of text. -/
structure Run where
  head : Char
  tail : List Char
  deriving DecidableEq, Repr

namespace Run

open Text

def chars (r : Run) : List Char := r.head :: r.tail

def charClass (r : Run) : CharClass := .of r.head

/-- Puts `c` in front: into the first run if that is of the class of `c`. -/
def attach (c : Char) : List Run → List Run
  | [] => [⟨c, []⟩]
  | r :: rs => if CharClass.of c = r.charClass then ⟨c, r.chars⟩ :: rs else ⟨c, []⟩ :: r :: rs

/-- The runs of a text. -/
def ofChars (cs : List Char) : List Run := cs.foldr attach []

theorem flatMap_attach (c : Char) (rs : List Run) :
    (attach c rs).flatMap chars = c :: rs.flatMap chars := by
  cases rs with
  | nil => rfl
  | cons r rs => simp only [attach]; split <;> simp [chars]

/-- The runs are the text, cut into pieces. -/
theorem flatMap_ofChars (cs : List Char) : (ofChars cs).flatMap chars = cs := by
  induction cs with
  | nil => rfl
  | cons c cs ih => exact (flatMap_attach c _).trans (congrArg (c :: ·) ih)

/-- All characters of a run are of its class. -/
def Uniform (r : Run) : Prop := ∀ c ∈ r.chars, CharClass.of c = r.charClass

theorem uniform_of_mem_attach {c : Char} {rs : List Run} (h : ∀ r ∈ rs, r.Uniform) {r : Run}
    (hr : r ∈ attach c rs) : r.Uniform := by
  cases rs with
  | nil => simp_all [attach, Uniform, chars, charClass]
  | cons s rs =>
    rw [attach] at hr
    split at hr
    · rename_i hc
      rcases List.mem_cons.1 hr with rfl | hr
      · intro d hd
        rcases List.mem_cons.1 hd with rfl | hd
        · rfl
        · exact (h s List.mem_cons_self d hd).trans hc.symm
      · exact h r (List.mem_cons_of_mem _ hr)
    · rcases List.mem_cons.1 hr with rfl | hr
      · simp [Uniform, chars, charClass]
      · exact h r hr

theorem uniform_of_mem_ofChars {cs : List Char} {r : Run} (hr : r ∈ ofChars cs) : r.Uniform := by
  induction cs generalizing r with
  | nil => cases hr
  | cons c cs ih => exact uniform_of_mem_attach (fun s hs => ih hs) hr

end Run

namespace Token

open Text

/-- A word is a connective if it spells one. -/
def ofWord (letters : List Char) : Token :=
  match Connective.ofLetters? letters with
  | some c => op c
  | none => ident (String.ofList letters)

/-- The symbols, the longer ones first: of two that fit, the one found first is the longer. -/
def symbols : List (String × Connective) :=
  [("&&", .binary .and), ("||", .binary .or), ("=>", .binary .implies), ("!", .not), ("~", .not),
    ("&", .binary .and), ("|", .binary .or), (">", .binary .implies)]

/-- The symbol that the characters begin with. -/
def symbolAt? (cs : List Char) : Option (String × Connective) :=
  symbols.find? fun s => s.1.toList.isPrefixOf cs

theorem toList_ne_nil_of_symbolAt? {cs : List Char} {s : String × Connective}
    (h : symbolAt? cs = some s) : s.1.toList ≠ [] := by
  have hall : symbols.all (fun s => s.1.toList ≠ []) = true := by decide
  exact of_decide_eq_true (List.all_eq_true.1 hall s (List.mem_of_find?_eq_some h))

/-- A symbol takes up a character at least. -/
theorem length_drop_lt_of_symbolAt? {c : Char} {cs : List Char} {s : String × Connective}
    (h : symbolAt? (c :: cs) = some s) :
    ((c :: cs).drop s.1.toList.length).length < (c :: cs).length := by
  have hpos := List.length_pos_iff.2 (toList_ne_nil_of_symbolAt? h)
  rw [List.length_drop, List.length_cons]
  omega

/-- The tokens of a run of symbol characters. -/
def ofSymbols : List Char → List Token
  | [] => []
  | c :: cs =>
    match h : symbolAt? (c :: cs) with
    | some s =>
      have := length_drop_lt_of_symbolAt? h
      op s.2 :: ofSymbols ((c :: cs).drop s.1.toList.length)
    | none => [ident (String.ofList (c :: cs))]
termination_by cs => cs.length
decreasing_by exact this

theorem ofSymbols_nil : ofSymbols [] = [] := by rw [ofSymbols]

theorem ofSymbols_of_symbolAt? {cs : List Char} {s : String × Connective}
    (h : symbolAt? cs = some s) :
    ofSymbols cs = op s.2 :: ofSymbols (cs.drop s.1.toList.length) := by
  cases cs with
  | nil =>
    have hnone : symbolAt? [] = none := by decide
    rw [hnone] at h
    cases h
  | cons c cs =>
    rw [ofSymbols]
    split
    · rename_i t ht
      rw [h] at ht
      cases ht
      rfl
    · rename_i ht
      rw [h] at ht
      cases ht

theorem ofSymbols_of_symbolAt?_eq_none {cs : List Char} (hne : cs ≠ []) (h : symbolAt? cs = none) :
    ofSymbols cs = [ident (String.ofList cs)] := by
  obtain ⟨c, cs, rfl⟩ := List.exists_cons_of_ne_nil hne
  rw [ofSymbols]
  split
  · rename_i t ht
    rw [h] at ht
    cases ht
  · rfl

/-- The tokens of one run. -/
def ofRun (r : Run) : List Token :=
  match r.charClass with
  | .blank => []
  | .opening => r.chars.map fun _ => lparen
  | .closing => r.chars.map fun _ => rparen
  | .word => [ofWord r.chars]
  | .symbol => ofSymbols r.chars
  | .other => [ident (String.ofList r.chars)]

def ofChars (cs : List Char) : List Token := (Run.ofChars cs).flatMap ofRun

/-- The tokens of a text. -/
def tokenize (s : String) : List Token := ofChars s.toList

theorem ofChars_nil : ofChars [] = [] := rfl

end Token

end Propositional
