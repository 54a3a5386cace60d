import Propositional.Surface

/-!
# Parentheses of a text

`openAfter opened ps` follows the parentheses `ps` and tells how many are open behind them. The scan
accepts a text exactly if all its characters are of a class that formulas use and its parentheses
leave none open.
-/

namespace Propositional

inductive Paren where
  | opening
  | closing
  deriving DecidableEq, Repr

namespace Paren

/-- How many are open behind the given ones, if each one that closes has one to close. -/
def openAfter : Nat → List Paren → Option Nat
  | opened, [] => some opened
  | opened, opening :: ps => openAfter (opened + 1) ps
  | 0, closing :: _ => none
  | opened + 1, closing :: ps => openAfter opened ps

theorem openAfter_append (opened : Nat) (ps qs : List Paren) :
    openAfter opened (ps ++ qs) = (openAfter opened ps).bind (openAfter · qs) := by
  induction ps generalizing opened with
  | nil => rfl
  | cons p ps ih =>
    cases p with
    | opening => exact ih (opened + 1)
    | closing =>
      cases opened with
      | zero => rfl
      | succ opened => exact ih opened

/-- Parentheses that close what they open do so inside others too. -/
theorem openAfter_add {m k : Nat} {ps : List Paren} (h : openAfter m ps = some k) (n : Nat) :
    openAfter (m + n) ps = some (k + n) := by
  induction ps generalizing m with
  | nil =>
    cases h
    rfl
  | cons p ps ih =>
    cases p with
    | opening =>
      rw [openAfter, Nat.add_right_comm]
      exact ih h
    | closing =>
      cases m with
      | zero => cases h
      | succ m =>
        rw [Nat.add_right_comm]
        exact ih h

/-- A matching pair may be left out. -/
theorem openAfter_append_pair (opened : Nat) (ps : List Paren) {qs : List Paren}
    (hq : openAfter 0 qs = some 0) (rs : List Paren) :
    openAfter opened (ps ++ opening :: (qs ++ closing :: rs)) =
      openAfter opened (ps ++ (qs ++ rs)) := by
  have hqs (n : Nat) : openAfter n qs = some n := by
    simpa using openAfter_add hq n
  rw [openAfter_append, openAfter_append]
  congr 1
  funext n
  rw [openAfter, openAfter_append, openAfter_append, hqs, hqs]
  rfl

end Paren

namespace Text

def CharClass.paren? : CharClass → Option Paren
  | opening => some .opening
  | closing => some .closing
  | blank | word | symbol | other => none

/-- The parentheses of a text in their order. -/
def parens (cs : List Char) : List Paren := cs.filterMap fun c => (CharClass.of c).paren?

end Text

namespace Surface

open Text Paren

theorem scan_eq_ok_iff {cs : List Char} {opened offset : Nat} :
    scan opened offset cs = .ok () ↔
      (∀ c ∈ cs, CharClass.of c ≠ .other) ∧ openAfter opened (parens cs) = some 0 := by
  induction cs generalizing opened offset with
  | nil => simp [scan, parens, openAfter]
  | cons c cs ih =>
    rw [parens, List.filterMap_cons, List.forall_mem_cons]
    cases hc : CharClass.of c with
    | opening => simp [scan, hc, CharClass.paren?, ih, openAfter, parens]
    | closing =>
      cases opened with
      | zero => simp [scan, hc, CharClass.paren?, openAfter]
      | succ opened => simp [scan, hc, CharClass.paren?, ih, openAfter, parens]
    | other => simp [scan, hc]
    | blank | word | symbol => simp [scan, hc, CharClass.paren?, ih, parens]

/-- Which texts have the surface of a formula. -/
theorem check_eq_ok_iff {s : String} :
    check s = .ok () ↔
      (∀ c ∈ s.toList, CharClass.of c ≠ .other) ∧ openAfter 0 (parens s.toList) = some 0 :=
  scan_eq_ok_iff

end Surface

end Propositional
