import Propositional.Text.Blank

/-!
# Character classes

Every character falls into one class, and a class change is where one part of a formula's text
ends and the next begins. Word characters spell variables and operator words, symbol characters
spell the symbolic operators; a few of the latter spell nothing and are left to the parser.
-/

namespace Propositional.Text

/-- ASCII letters, digits and the underscore. -/
def isWord (c : Char) : Bool := c.isAlphanum || c == '_'

/-- The characters of symbolic operators, with some that only look like one. -/
def isSymbol (c : Char) : Bool := ['!', '~', '&', '|', '>', '<', '^', '='].contains c

theorem toNat_of_between {c : Char} {low high : UInt32} (h : low ≤ c.val ∧ c.val ≤ high) :
    low.toNat ≤ c.toNat ∧ c.toNat ≤ high.toNat :=
  ⟨UInt32.le_iff_toNat_le.1 h.1, UInt32.le_iff_toNat_le.1 h.2⟩

theorem toNat_of_isWord {c : Char} (h : isWord c = true) :
    (48 ≤ c.toNat ∧ c.toNat ≤ 57) ∨ (65 ≤ c.toNat ∧ c.toNat ≤ 90) ∨ c.toNat = 95 ∨
      (97 ≤ c.toNat ∧ c.toNat ≤ 122) := by
  rcases Bool.or_eq_true_iff.1 h with h | h
  · rcases Bool.or_eq_true_iff.1 h with h | h
    · rcases Bool.or_eq_true_iff.1 h with h | h
      · exact .inr (.inl (toNat_of_between (of_decide_eq_true h)))
      · have ⟨hl, hh⟩ := Bool.and_eq_true_iff.1 h
        have := toNat_of_between ⟨of_decide_eq_true hl, of_decide_eq_true hh⟩
        exact .inr (.inr (.inr this))
    · have ⟨hl, hh⟩ := Bool.and_eq_true_iff.1 h
      exact .inl (toNat_of_between ⟨of_decide_eq_true hl, of_decide_eq_true hh⟩)
  · obtain rfl := eq_of_beq h
    decide

theorem isBlank_eq_false_of_isWord {c : Char} (h : isWord c = true) : isBlank c = false := by
  have := toNat_of_isWord h
  simp [isBlank, blankRanges, CodeRange.contains]
  omega

inductive CharClass where
  | blank
  | opening
  | closing
  | word
  | symbol
  | other
  deriving DecidableEq, Repr

def CharClass.of (c : Char) : CharClass :=
  if isBlank c then .blank
  else if c = '(' then .opening
  else if c = ')' then .closing
  else if isWord c then .word
  else if isSymbol c then .symbol
  else .other

namespace CharClass

theorem of_eq_blank_iff {c : Char} : of c = .blank ↔ isBlank c = true := by
  unfold of
  split
  · simp_all
  · repeat' split
    all_goals simp_all

theorem of_eq_word_iff {c : Char} : of c = .word ↔ isWord c = true := by
  constructor
  · unfold of
    repeat' split
    all_goals simp_all
  · intro h
    have ho : c ≠ '(' := by rintro rfl; revert h; decide
    have hc : c ≠ ')' := by rintro rfl; revert h; decide
    simp [of, isBlank_eq_false_of_isWord h, ho, hc, h]

theorem isSymbol_of_eq_symbol {c : Char} (h : of c = .symbol) : isSymbol c = true := by
  unfold of at h
  repeat' split at h
  all_goals simp_all

theorem of_eq_symbol_iff {c : Char} : of c = .symbol ↔ isSymbol c = true := by
  refine ⟨isSymbol_of_eq_symbol, fun h => ?_⟩
  simp only [isSymbol, List.contains_eq_mem, List.mem_cons, List.not_mem_nil, or_false,
    decide_eq_true_eq] at h
  rcases h with rfl | rfl | rfl | rfl | rfl | rfl | rfl | rfl <;> decide

theorem eq_of_of_eq_opening {c : Char} (h : of c = .opening) : c = '(' := by
  unfold of at h
  repeat' split at h
  all_goals simp_all

theorem eq_of_of_eq_closing {c : Char} (h : of c = .closing) : c = ')' := by
  unfold of at h
  repeat' split at h
  all_goals simp_all

theorem of_opening : of '(' = .opening := by decide

theorem of_closing : of ')' = .closing := by decide

end CharClass

end Propositional.Text
