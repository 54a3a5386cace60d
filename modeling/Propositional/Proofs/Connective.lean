import Propositional.Proofs.Token.Lexer

/-!
# Spellings of connectives

What spells a connective is one of its two symbols, or a word. The two do not mix: letters that
begin with a symbol are symbols throughout, and no more than two.
-/

namespace Propositional

open Text

theorem Text.isWord_of_toUpper {c : Char} (h : isWord c.toUpper = true) : isWord c = true := by
  by_cases hlow : c.isLower = true
  · show (((c.isUpper || c.isLower) || c.isDigit) || c == '_') = true
    rw [hlow, Bool.or_true, Bool.true_or, Bool.true_or]
  · have hsame : c.toUpper = c := dif_neg fun hc =>
      hlow (Bool.and_eq_true_iff.2 ⟨decide_eq_true hc.1, decide_eq_true hc.2⟩)
    rwa [hsame] at h

namespace Connective

variable {letters : List Char} {c : Connective}

theorem of_symbol (c : Connective) :
    (∀ d ∈ c.symbol.toList, CharClass.of d = .symbol) ∧
      ∀ d ∈ c.altSymbol.toList, CharClass.of d = .symbol := by
  have h : (c.symbol.toList ++ c.altSymbol.toList).all (CharClass.of · = .symbol) = true := by
    cases c with
    | not => decide
    | binary j => cases j <;> decide
  have hall := fun d hd => of_decide_eq_true (List.all_eq_true.1 h d hd)
  exact List.forall_mem_append.1 hall

theorem length_symbol (c : Connective) :
    c.symbol.toList.length = 1 ∧ c.altSymbol.toList.length ≤ 2 := by
  cases c with
  | not => decide
  | binary j => cases j <;> decide

theorem ofLetters?_nil : ofLetters? [] = none := by decide

/-- What spells a connective is a symbol of it or a word. -/
theorem symbol_or_word_of_ofLetters? (h : ofLetters? letters = some c) :
    letters = c.symbol.toList ∨ letters = c.altSymbol.toList ∨
      ∀ d ∈ letters, CharClass.of d = .word := by
  have hs := spelled_of_ofLetters? h
  simp only [spelled, Bool.or_eq_true, beq_iff_eq] at hs
  rcases hs with (hs | hs) | hword
  · exact .inl hs
  · exact .inr (.inl hs)
  · refine .inr (.inr fun d hd => ?_)
    have hup : d.toUpper ∈ c.word.toList := hword ▸ List.mem_map_of_mem hd
    exact CharClass.of_eq_word_iff.2
      (isWord_of_toUpper (List.all_eq_true.1 (Token.isWord_word c) _ hup))

/-- The letters of a spelling are of one class: words or symbols, and symbols are no more than
two. -/
theorem classes_of_ofLetters? (h : ofLetters? letters = some c) :
    (∀ d ∈ letters, CharClass.of d = .word) ∨
      (∀ d ∈ letters, CharClass.of d = .symbol) ∧ letters.length ≤ 2 := by
  obtain ⟨hsym, halt⟩ := of_symbol c
  obtain ⟨hone, htwo⟩ := length_symbol c
  rcases symbol_or_word_of_ofLetters? h with rfl | rfl | hword
  · exact .inr ⟨hsym, by omega⟩
  · exact .inr ⟨halt, htwo⟩
  · exact .inl hword

/-- Spelled with a symbol in front, a connective is spelled with symbols, one or two. -/
theorem symbols_of_ofLetters?_cons {a : Char} (ha : CharClass.of a = .symbol)
    (h : ofLetters? (a :: letters) = some c) :
    (∀ d ∈ a :: letters, CharClass.of d = .symbol) ∧ (a :: letters).length ≤ 2 := by
  rcases classes_of_ofLetters? h with hword | hsym
  · have := hword a List.mem_cons_self
    rw [ha] at this
    cases this
  · exact hsym

end Connective

end Propositional
