import Propositional.Proofs.Formula.Balance
import Propositional.Proofs.Token.Symbol

/-!
# Parse errors of checked texts

The look at the surface of a text rules out some reasons for which the parser refuses tokens. The
parentheses of what passes are balanced: no group lacks its end, no parenthesis closes a group that
is not open, and an operand is missing only behind a connective. No character is foreign: what
is no name is of symbols, the first of which spells no connective.
-/

namespace Propositional

open Token

namespace Text

/-- The symbols that spell nothing alone. -/
theorem spells_nothing_iff {c : Char} (hc : isSymbol c = true) :
    Connective.ofLetters? [c] = none ↔ c = '<' ∨ c = '^' ∨ c = '=' := by
  simp only [isSymbol, List.contains_eq_mem, List.mem_cons, List.not_mem_nil, or_false,
    decide_eq_true_eq] at hc
  rcases hc with rfl | rfl | rfl | rfl | rfl | rfl | rfl | rfl <;> decide

end Text

namespace Token

open Text

/-- The identifier is of symbols and begins with one that spells nothing. -/
def IsMisspelled (name : String) : Prop :=
  ∃ first rest, name.toList = first :: rest ∧ (∀ c ∈ name.toList, isSymbol c = true) ∧
    (first = '<' ∨ first = '^' ∨ first = '=' ∧ rest.head? ≠ some '>')

/-- Without foreign characters what is no name is of symbols. -/
theorem isMisspelled_of_ident_mem {s name : String}
    (hs : ∀ c ∈ s.toList, CharClass.of c ≠ .other) (h : ident name ∈ tokenize s)
    (hn : ¬ IsName name) : IsMisspelled name := by
  obtain ⟨r, hr, h⟩ := List.mem_flatMap.1 h
  have huniform := Run.uniform_of_mem_ofChars hr
  have hmem := mem_of_ident_mem_ofRun h
  rw [ofRun] at h
  cases hclass : r.charClass with
  | blank =>
    rw [hclass] at h
    cases h
  | opening | closing =>
    rw [hclass] at h
    simp at h
  | other => exact absurd hclass (hs r.head (Run.mem_iff.2 ⟨r, hr, List.mem_cons_self⟩))
  | word =>
    rw [hclass] at h
    obtain ⟨-, hname⟩ := ofWord_eq_ident (List.mem_singleton.1 h).symm
    refine absurd ⟨hname ▸ List.cons_ne_nil _ _, fun c hc => ?_⟩ hn
    exact CharClass.of_eq_word_iff.1 ((huniform c (hmem c hc)).trans hclass)
  | symbol =>
    rw [hclass] at h
    obtain ⟨first, rest, hname, hone, htwo⟩ :=
      spells_nothing_of_ident_mem_ofSymbols (fun d hd => (huniform d hd).trans hclass) h
    have hsymbol : ∀ c ∈ name.toList, isSymbol c = true := fun c hc =>
      CharClass.isSymbol_of_eq_symbol ((huniform c (hmem c hc)).trans hclass)
    refine ⟨first, rest, hname, hsymbol, ?_⟩
    rcases (spells_nothing_iff (hsymbol first (hname ▸ List.mem_cons_self))).1 hone with
      hfirst | hfirst | rfl
    · exact .inl hfirst
    · exact .inr (.inl hfirst)
    · refine .inr (.inr ⟨rfl, fun hgt => ?_⟩)
      exact absurd (htwo '>' hgt) (by decide)

end Token

namespace Formula

open Parsing

variable {limit position : Nat} {ts : List Token} {s : String} {e : ParseError}

theorem ofTokens_eq_empty_iff : ofTokens ts limit = .error .empty ↔ ts = [] := by
  refine ⟨fun h => ?_, fun h => h ▸ rfl⟩
  rcases ofTokens_error_cases h with ⟨hts, -⟩ | ⟨before, t, after, s, -, -, he⟩ | ⟨-, s, -, hf⟩
  · exact hts
  · cases he
  · rcases State.finish_eq_error hf with ⟨k, -, he⟩ | ⟨-, he⟩
    · cases he
    · cases he

/-- What ends too early has been read to its end. -/
theorem exists_run_of_unexpectedEnd {wanted : Wanted}
    (h : ofTokens ts limit = .error (.unexpectedEnd wanted)) :
    ts ≠ [] ∧ ∃ s, State.run limit {} 0 ts = .ok s ∧ s.finish = .error (.unexpectedEnd wanted) := by
  rcases ofTokens_error_cases h with ⟨-, he⟩ | ⟨before, t, after, s, -, -, he⟩ | hend
  · cases he
  · cases he
  · exact hend

theorem refused_of_position? (h : ofTokens ts limit = .error e) (hp : e.position? = some position) :
    ∃ before t after s, ts = before ++ t :: after ∧ State.run limit {} 0 before = .ok s ∧
      State.Refused limit before.length t s e := by
  rcases ofTokens_eq_error h with href | ⟨hnone, -⟩
  · exact href
  · rw [hnone] at hp
    cases hp

section

variable (hb : Paren.openAfter 0 (parens ts) = some 0)

include hb

/-- Behind balanced tokens no group is open. -/
theorem outer_eq_nil_of_run {state : State} (hr : State.run limit {} 0 ts = .ok state) :
    state.outer = [] := by
  have ho := State.openAfter_of_run hr []
  rw [List.append_nil] at ho
  exact List.eq_nil_of_length_eq_zero (Option.some.inj (ho.symm.trans hb))

theorem ofTokens_ne_unexpectedEnd_closing :
    ofTokens ts limit ≠ .error (.unexpectedEnd .closing) := by
  intro h
  obtain ⟨-, s, hr, hf⟩ := exists_run_of_unexpectedEnd h
  rcases State.finish_eq_error hf with ⟨k, -, he⟩ | ⟨ho, -⟩
  · cases he
  · exact ho (outer_eq_nil_of_run hb hr)

theorem ofTokens_ne_trailing_rparen :
    ofTokens ts limit ≠ .error (.trailingToken .rparen position) := by
  intro h
  obtain ⟨before, t, after, s, rfl, hr, he⟩ := refused_of_position? h rfl
  cases he with
  | trailing _ _ ho =>
    have hopen := State.openAfter_of_run hr (.rparen :: after)
    rw [ho] at hopen
    cases hopen.symm.trans hb

/-- An operand is missing only behind a connective: behind an opening parenthesis its group would be
open. -/
theorem getLast?_of_unexpectedEnd_operand
    (h : ofTokens ts limit = .error (.unexpectedEnd .operand)) :
    ∃ c, ts.getLast? = some (.op c) := by
  obtain ⟨hne, s, hr, hf⟩ := exists_run_of_unexpectedEnd h
  have ho := outer_eq_nil_of_run hb hr
  obtain ⟨k, hs⟩ : ∃ k, s.focus = .operand k := by
    rcases State.finish_eq_error hf with ⟨k, hs, -⟩ | ⟨-, he⟩
    · exact ⟨k, hs⟩
    · cases he
  obtain ⟨before, t, rfl⟩ := (List.eq_nil_or_concat' ts).resolve_left hne
  rw [State.run_append] at hr
  split at hr
  · obtain ⟨s', hn, hs'⟩ := State.run_cons_eq_ok hr
    cases hs'
    cases hn with
    | name | closing => cases hs
    | opening => cases ho
    | neg => exact ⟨.not, List.getLast?_concat⟩
    | joining _ j => exact ⟨.binary j, List.getLast?_concat⟩
  · cases hr

end

theorem ofText_eq_parse_error_iff :
    ofText s = .error (.parse e) ↔
      Surface.check s = .ok () ∧ ofTokens (tokenize s) = .error e := by
  cases hc : Surface.check s with
  | error e' =>
    rw [ofText, hc]
    constructor
    · intro h
      cases h
    · rintro ⟨h, -⟩
      cases h
  | ok _ =>
    rw [ofText_of_check hc]
    cases ofTokens (tokenize s) with
    | error e' => simp [Except.mapError]
    | ok f =>
      constructor
      · intro h
        cases h
      · rintro ⟨-, h⟩
        cases h

/-- The parentheses of a checked text are balanced among its tokens. -/
theorem openAfter_parens_of_check (h : Surface.check s = .ok ()) :
    Paren.openAfter 0 (parens (tokenize s)) = some 0 := by
  rw [tokenize, parens_ofChars]
  exact (Surface.check_eq_ok_iff.1 h).2

theorem ofText_eq_empty_iff :
    ofText s = .error (.parse .empty) ↔ ∀ c ∈ s.toList, Text.isBlank c = true := by
  rw [ofText_eq_parse_error_iff, ofTokens_eq_empty_iff, tokenize, ofChars_eq_nil_iff]
  simp only [Text.CharClass.of_eq_blank_iff]
  refine ⟨And.right, fun h => ⟨Surface.check_eq_ok_iff.2 ⟨fun c hc => ?_, ?_⟩, h⟩⟩
  · rw [Text.CharClass.of_eq_blank_iff.2 (h c hc)]
    decide
  · have hnone : Text.parens s.toList = [] := List.filterMap_eq_nil_iff.2 fun c hc => by
      rw [Text.CharClass.of_eq_blank_iff.2 (h c hc)]
      rfl
    rw [hnone]
    rfl

/-- Which parse errors a text has: none for a parenthesis that is missing or left over, one for a
missing operand only behind a connective, one for an identifier only where symbols spell nothing,
and that for an empty text exactly if it is blank. -/
theorem parse_errors_of_ofText (s : String) :
    ofText s ≠ .error (.parse (.unexpectedEnd .closing)) ∧
      (∀ position, ofText s ≠ .error (.parse (.trailingToken .rparen position))) ∧
      (ofText s = .error (.parse (.unexpectedEnd .operand)) →
        ∃ c, (tokenize s).getLast? = some (.op c)) ∧
      (∀ name position, ofText s = .error (.parse (.invalidIdentifier name position)) →
        IsMisspelled name) ∧
      (ofText s = .error (.parse .empty) ↔ ∀ c ∈ s.toList, Text.isBlank c = true) := by
  refine ⟨fun h => ?_, fun position h => ?_, fun h => ?_, fun name position h => ?_,
    ofText_eq_empty_iff⟩
  all_goals obtain ⟨hcheck, ht⟩ := ofText_eq_parse_error_iff.1 h
  · exact ofTokens_ne_unexpectedEnd_closing (openAfter_parens_of_check hcheck) ht
  · exact ofTokens_ne_trailing_rparen (openAfter_parens_of_check hcheck) ht
  · exact getLast?_of_unexpectedEnd_operand (openAfter_parens_of_check hcheck) ht
  · obtain ⟨before, t, after, state, hts, -, he⟩ := refused_of_position? ht rfl
    have hmem : t ∈ tokenize s := hts ▸ List.mem_append_right before List.mem_cons_self
    cases he with
    | noName _ hn => exact isMisspelled_of_ident_mem (Surface.check_eq_ok_iff.1 hcheck).1 hmem hn

/-- A connective without its operand, symbols that spell nothing, and blanks alone. -/
theorem parse_errors_of_three_texts :
    (ofText "(A) &" = .error (.parse (.unexpectedEnd .operand)) ∧
        ∃ c, (tokenize "(A) &").getLast? = some (.op c)) ∧
      (ofText "A & =<" = .error (.parse (.invalidIdentifier "=<" 2)) ∧ IsMisspelled "=<") ∧
      (∀ c ∈ " \t".toList, Text.isBlank c = true) ∧ ofText " \t" = .error (.parse .empty) := by
  have hend : ofText "(A) &" = .error (.parse (.unexpectedEnd .operand)) := by decide +kernel
  have hname : ofText "A & =<" = .error (.parse (.invalidIdentifier "=<" 2)) := by decide +kernel
  have hblank : ∀ c ∈ " \t".toList, Text.isBlank c = true := List.all_eq_true.1 (by decide +kernel)
  obtain ⟨-, -, hlast, -, -⟩ := parse_errors_of_ofText "(A) &"
  obtain ⟨-, -, -, hspelled, -⟩ := parse_errors_of_ofText "A & =<"
  obtain ⟨-, -, -, -, hempty⟩ := parse_errors_of_ofText " \t"
  exact ⟨⟨hend, hlast hend⟩, ⟨hname, hspelled _ _ hname⟩, hblank, hempty.2 hblank⟩

end Formula

end Propositional
