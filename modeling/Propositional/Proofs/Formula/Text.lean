import Propositional.Formula.Text
import Propositional.Proofs.Formula.Printer
import Propositional.Proofs.Formula.Soundness
import Propositional.Proofs.Token.Paren

/-!
# What is read has the surface of a formula

A text is looked at before its tokens are parsed, and that look refuses nothing that the parser
would accept: derived tokens have balanced parentheses, and their identifiers are names. So reading
a text is parsing its tokens. The same holds of what is printed, whether or not it can be parsed.
-/

namespace Propositional

open Token

namespace Grammar

mutual

/-- Whatever is derived closes the parentheses that it opens, and no others. -/
theorem Derives.openAfter_parens : ∀ {p : Part} {ts : List Token} {f : Formula} {n : Nat},
    Derives p ts f n → ∀ opened, Paren.openAfter opened (parens ts) = some opened
  | _, _, _, _, .level h hs, opened => by
    rw [parens_append, Paren.openAfter_append, h.openAfter_parens]
    exact hs.openAfter_parens opened
  | _, _, _, _, .neg h, opened => h.openAfter_parens opened
  | _, _, _, _, .bare h, opened => h.openAfter_parens opened
  | _, _, _, _, .name _, _ => rfl
  | _, _, _, _, .group h, opened => by
    show Paren.openAfter (opened + 1) (parens (_ ++ [rparen])) = some opened
    rw [parens_append, Paren.openAfter_append, h.openAfter_parens]
    rfl

theorem DerivesMore.openAfter_parens :
    ∀ {j : Junction} {ts : List Token} {fs : List Formula} {n : Nat},
      DerivesMore j ts fs n → ∀ opened, Paren.openAfter opened (parens ts) = some opened
  | _, _, _, _, .nil _, _ => rfl
  | _, _, _, _, .cons h hs, opened => by
    show Paren.openAfter opened (parens (_ ++ _)) = some opened
    rw [parens_append, Paren.openAfter_append, h.openAfter_parens]
    exact hs.openAfter_parens opened

end

mutual

theorem Derives.named : ∀ {p : Part} {ts : List Token} {f : Formula} {n : Nat},
    Derives p ts f n → Named ts
  | _, _, _, _, .level h hs => h.named.append hs.named
  | _, _, _, _, .neg h => h.named.cons_op
  | _, _, _, _, .bare h => h.named
  | _, _, _, _, .name v => fun _ hn => by
    cases List.mem_singleton.1 hn
    exact v.isName
  | _, _, _, _, .group h => fun name hn => h.named name (by simpa using hn)

theorem DerivesMore.named : ∀ {j : Junction} {ts : List Token} {fs : List Formula} {n : Nat},
    DerivesMore j ts fs n → Named ts
  | _, _, _, _, .nil _ => nofun
  | _, _, _, _, .cons h hs => (h.named.append hs.named).cons_op

end

end Grammar

namespace Formula

variable {s : String} {f : Formula} {limit : Nat}

theorem check_eq_ok_of_ofTokens (h : ofTokens (tokenize s) limit = .ok f) :
    Surface.check s = .ok () := by
  obtain ⟨n, -, hw⟩ := Grammar.writes_of_ofTokens h
  exact check_eq_ok_of_named (Grammar.Derives.named hw) (Grammar.Derives.openAfter_parens hw 0)

/-- The printed form has the surface of a formula. -/
theorem check_text (f : Formula) : Surface.check f.text = .ok () :=
  check_line f.named_tokens (f.derives_tokens.openAfter_parens 0)

theorem ofText_of_check (h : Surface.check s = .ok ()) :
    ofText s = (ofTokens (tokenize s)).mapError .parse := by
  rw [ofText, h]

theorem mapError_parse_eq_ok_iff {r : Except ParseError Formula} :
    r.mapError Error.parse = .ok f ↔ r = .ok f := by
  cases r with
  | error e => exact ⟨nofun, nofun⟩
  | ok g => exact ⟨fun h => congrArg Except.ok (Except.ok.inj h), fun h => h ▸ rfl⟩

theorem ofTokens_of_ofText (h : ofText s = .ok f) : ofTokens (tokenize s) = .ok f := by
  unfold ofText at h
  split at h
  · cases h
  · exact mapError_parse_eq_ok_iff.1 h

theorem ofText_of_ofTokens (h : ofTokens (tokenize s) = .ok f) : ofText s = .ok f := by
  rw [ofText_of_check (check_eq_ok_of_ofTokens h)]
  exact mapError_parse_eq_ok_iff.2 h

/-- A text reads as a formula exactly if its tokens do: the look at its surface, which comes first,
accepts every text whose tokens can be parsed, within whatever limit. -/
theorem ofText_eq_ok_iff_ofTokens (s : String) (f : Formula) :
    (ofText s = .ok f ↔ ofTokens (tokenize s) = .ok f) ∧
      ∀ limit, ofTokens (tokenize s) limit = .ok f → Surface.check s = .ok () :=
  ⟨⟨ofTokens_of_ofText, ofText_of_ofTokens⟩, fun _ => check_eq_ok_of_ofTokens⟩

end Formula

end Propositional
