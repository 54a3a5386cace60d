import Mathlib.Data.List.Induction
import Propositional.Proofs.Token.Lexer

/-!
# Seams of a text

A text may be cut, and its parts be read apart, not only where the class of characters changes. A
break, that is a blank or a parenthesis, is read alone, so there is a seam on both sides of it, also
among breaks of one class. Inside a word, among symbols and among foreign characters a cut may change
the tokens.
-/

namespace Propositional

open Text

/-- A text may be cut between the two characters. -/
def Text.Seam (c d : Char) : Prop :=
  (CharClass.of c).isBreak = true ∨ (CharClass.of d).isBreak = true ∨
    CharClass.of c ≠ CharClass.of d

instance (c d : Char) : Decidable (Text.Seam c d) := inferInstanceAs (Decidable (_ ∨ _ ∨ _))

namespace Token

/-- The induction is from the right: breaks at the end of the first text are moved to the second one
by one, until the class changes. -/
theorem ofChars_append_of_seam {cs ds : List Char}
    (h : ∀ c ∈ cs.getLast?, ∀ d ∈ ds.head?, Seam c d) :
    ofChars (cs ++ ds) = ofChars cs ++ ofChars ds := by
  induction cs using List.reverseRecOn generalizing ds with
  | nil => rfl
  | append_singleton init c ih =>
    cases ds with
    | nil => simp [ofChars_nil]
    | cons d ds =>
      have hseam : Seam c d := h c (by simp) d rfl
      by_cases hclass : CharClass.of c = CharClass.of d
      · have hbreak : (CharClass.of c).isBreak = true := by
          rcases hseam with hc | hd | hne
          · exact hc
          · rw [hclass, hd]
          · exact absurd hclass hne
        have hmove (es : List Char) : ofChars (init ++ c :: es) = ofChars init ++ ofChars (c :: es) :=
          ih fun b _ e he => by
            cases he
            exact .inr (.inl hbreak)
        calc ofChars (init ++ [c] ++ d :: ds) = ofChars init ++ ofChars (c :: d :: ds) := by
              rw [List.append_assoc]
              exact hmove (d :: ds)
          _ = ofChars init ++ ofChars [c] ++ ofChars (d :: ds) := by
              rw [ofChars_cons_of_isBreak hbreak, ofChars_cons_of_isBreak hbreak, ofChars_nil,
                List.append_nil, List.append_assoc]
          _ = ofChars (init ++ [c]) ++ ofChars (d :: ds) := by rw [hmove]
      · refine ofChars_append fun b hb e he => ?_
        cases he
        rw [List.getLast?_concat] at hb
        cases hb
        exact hclass

/-- Where two texts meet at a seam, or one of them is empty, their tokens are those of the one and
then those of the other. -/
theorem tokenize_append {s t : String}
    (h : ∀ c ∈ s.toList.getLast?, ∀ d ∈ t.toList.head?, Seam c d) :
    tokenize (s ++ t) = tokenize s ++ tokenize t := by
  rw [tokenize, String.toList_append, ofChars_append_of_seam h, tokenize, tokenize]

/-- Symbols that spell nothing, cut from the foreign character behind them. -/
theorem tokenize_append_at_foreign :
    (∀ c ∈ "(A=<".toList.getLast?, ∀ d ∈ "Ω)or(".toList.head?, Seam c d) ∧
      tokenize ("(A=<" ++ "Ω)or(") = tokenize "(A=<" ++ tokenize "Ω)or(" ∧
      tokenize "(A=<" ++ tokenize "Ω)or(" =
        [lparen, ident "A", ident "=<", ident "Ω", rparen, op (.binary .or), lparen] := by
  have hlast : "(A=<".toList.getLast? = some '<' := by decide +kernel
  have hfirst : "Ω)or(".toList.head? = some 'Ω' := by decide +kernel
  have hseam : ∀ c ∈ "(A=<".toList.getLast?, ∀ d ∈ "Ω)or(".toList.head?, Seam c d := by
    intro c hc d hd
    rw [hlast] at hc
    rw [hfirst] at hd
    cases hc
    cases hd
    decide
  exact ⟨hseam, tokenize_append hseam, by decide +kernel⟩

end Token

end Propositional
