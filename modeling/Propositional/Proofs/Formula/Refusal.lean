import Propositional.Proofs.Formula.Completeness

/-!
# Where the parser stops

`Refused limit position t s e`: from `s` the parser does not go on with token `t`, and the error is
`e`. There are five ways to refuse a token. Each error tells which token it was and where it stands,
and none depends on what follows.

Nothing before a refused token was in vain: from every state some tokens lead on to a formula, an
operand if one is due and then the end of each open group (`ending`). They open nothing, so no limit
stands in their way. Hence an error names the first token that no formula can have at its place.
-/

namespace Propositional

namespace ParseError

/-- The position of the token that was refused, if it was not the end of the tokens. -/
def position? : ParseError → Option Nat
  | unexpectedToken _ position => some position
  | trailingToken _ position => some position
  | invalidIdentifier _ position => some position
  | tooDeep position => some position
  | empty => none
  | unexpectedEnd _ => none

/-- The error tells of this token. -/
def Blames : ParseError → Token → Prop
  | unexpectedToken token _, t => t = token
  | trailingToken token _, t => t = token
  | invalidIdentifier name _, t => t = .ident name
  | tooDeep _, t => t = .lparen ∨ t = .op .not
  | empty, _ => False
  | unexpectedEnd _, _ => False

end ParseError

namespace Parsing.State

inductive Refused (limit position : Nat) : Token → State → ParseError → Prop where
  | noName {s : State} {k : Nat} {name : String} (hs : s.focus = .operand k)
      (hn : ¬ IsName name) :
      Refused limit position (.ident name) s (.invalidIdentifier name position)
  | tooDeep {s : State} {k : Nat} {t : Token} (hs : s.focus = .operand k)
      (ht : t = .lparen ∨ t = .op .not) (hd : limit ≤ s.depth) :
      Refused limit position t s (.tooDeep position)
  | noOperand {s : State} {k : Nat} {t : Token} (hs : s.focus = .operand k)
      (ht : t = .rparen ∨ ∃ j, t = .op (.binary j)) :
      Refused limit position t s (.unexpectedToken t position)
  | trailing {s : State} {f : Formula} {t : Token} (hs : s.focus = .operator f)
      (ht : ∀ j, t ≠ .op (.binary j)) (ho : s.outer = []) :
      Refused limit position t s (.trailingToken t position)
  | inGroup {s : State} {f : Formula} {t : Token} (hs : s.focus = .operator f)
      (ht : ∀ j, t ≠ .op (.binary j)) (ho : s.outer ≠ []) (hr : t ≠ .rparen) :
      Refused limit position t s (.unexpectedToken t position)

variable {limit position k : Nat} {s s' : State} {t : Token} {ts : List Token} {f : Formula}
  {e : ParseError}

theorem refused_of_readOperand (hs : s.focus = .operand k)
    (h : s.readOperand limit position k t = .error e) : Refused limit position t s e := by
  cases t with
  | lparen =>
    rw [readOperand] at h
    by_cases hd : s.depth < limit
    · rw [enter_of_lt hd] at h
      cases h
    · rw [enter_of_le (Nat.not_lt.1 hd)] at h
      cases h
      exact .tooDeep hs (.inl rfl) (Nat.not_lt.1 hd)
  | rparen =>
    cases h
    exact .noOperand hs (.inl rfl)
  | op c =>
    cases c with
    | not =>
      rw [readOperand] at h
      by_cases hd : s.depth < limit
      · rw [enter_of_lt hd] at h
        cases h
      · rw [enter_of_le (Nat.not_lt.1 hd)] at h
        cases h
        exact .tooDeep hs (.inr rfl) (Nat.not_lt.1 hd)
    | binary j =>
      cases h
      exact .noOperand hs (.inr ⟨j, rfl⟩)
  | ident name =>
    rw [readOperand] at h
    split at h
    · cases h
    · rename_i hn
      cases h
      exact .noName hs (Variable.ofName?_eq_none_iff.1 hn)

theorem refused_of_readOperator (hs : s.focus = .operator f)
    (h : s.readOperator position f t = .error e) : Refused limit position t s e := by
  unfold readOperator at h
  split at h
  · cases h
  · rename_i ht
    split at h
    · rename_i ho
      cases h
      exact .trailing hs ht ho
    · rename_i ho
      split at h
      · cases h
      · rename_i hr
        cases h
        exact .inGroup hs ht (ho ▸ List.cons_ne_nil _ _) hr

theorem Refused.step_eq (h : Refused limit position t s e) :
    s.step limit position t = .error e := by
  cases h with
  | noName hs hn => simp only [step, hs, readOperand, Variable.ofName?_eq_none_iff.2 hn]
  | tooDeep hs ht hd =>
    rcases ht with rfl | rfl
    · simp only [step, hs, readOperand, enter_of_le hd]; rfl
    · simp only [step, hs, readOperand, enter_of_le hd]; rfl
  | noOperand hs ht =>
    rcases ht with rfl | ⟨j, rfl⟩
    · simp only [step, hs, readOperand]
    · simp only [step, hs, readOperand]
  | trailing hs ht ho => simp only [step, hs, readOperator, ho]
  | inGroup hs ht ho hr =>
    obtain ⟨frame, outer, ho⟩ := List.exists_cons_of_ne_nil ho
    simp only [step, hs, readOperator, ho, if_neg hr]

theorem step_eq_error_iff : s.step limit position t = .error e ↔ Refused limit position t s e := by
  refine ⟨fun h => ?_, Refused.step_eq⟩
  unfold step at h
  split at h
  · rename_i k hs
    exact refused_of_readOperand hs h
  · rename_i f hs
    exact refused_of_readOperator hs h

theorem Refused.position?_eq (h : Refused limit position t s e) : e.position? = some position := by
  cases h <;> rfl

theorem Refused.blames (h : Refused limit position t s e) : e.Blames t := by
  cases h with
  | noName => rfl
  | tooDeep _ ht => exact ht
  | noOperand | trailing | inGroup => rfl

/-- A run that fails has read the tokens before the one that is refused. -/
theorem run_eq_error (h : s.run limit position ts = .error e) :
    ∃ before t after s', ts = before ++ t :: after ∧ s.run limit position before = .ok s' ∧
      Refused limit (position + before.length) t s' e := by
  induction ts generalizing s position with
  | nil => cases h
  | cons t ts ih =>
    rw [run] at h
    split at h
    · rename_i s₁ hs
      obtain ⟨before, t', after, s', rfl, hr, he⟩ := ih h
      refine ⟨t :: before, t', after, s', rfl, ?_, ?_⟩
      · rw [run, hs]
        exact hr
      · rw [List.length_cons, Nat.add_comm before.length, ← Nat.add_assoc]
        exact he
    · rename_i he
      cases h
      exact ⟨[], t, ts, s, rfl, rfl, step_eq_error_iff.1 he⟩

theorem run_append_of_eq_ok (h : s.run limit position ts = .ok s') (us : List Token) :
    s.run limit position (ts ++ us) = s'.run limit (position + ts.length) us := by
  rw [run_append, h]

/-- Tokens that lead on to a formula: an operand if one is due, and the end of each open group. -/
def ending (s : State) : List Token :=
  match s.focus with
  | .operand _ => .ident "A" :: List.replicate s.outer.length .rparen
  | .operator _ => List.replicate s.outer.length .rparen

/-- Behind an operand all groups can be closed. -/
theorem exists_run_closing (limit position : Nat) (hs : s.focus = .operator f) :
    ∃ s' g, s.run limit position (List.replicate s.outer.length .rparen) = .ok s' ∧
      s'.finish = .ok g := by
  -- one closing parenthesis per open group, from the inside out
  generalize ho : s.outer = outer
  induction outer generalizing s f position with
  | nil => exact ⟨s, s.pending.close f, rfl, by rw [finish, hs, ho]⟩
  | cons frame outer ih =>
    obtain ⟨s₁, hc, ⟨g, hs₁⟩, ho₁⟩ : ∃ s₁, Next limit .rparen s s₁ ∧
        (∃ g, s₁.focus = .operator g) ∧ s₁.outer = outer :=
      ⟨_, .closing hs ho, ⟨_, rfl⟩, rfl⟩
    obtain ⟨s', g, hr, hg⟩ := ih (position + 1) hs₁ ho₁
    exact ⟨s', g, (hc.run_cons _).trans hr, hg⟩

/-- From every state the parser can still come to a formula. -/
theorem exists_run_ending (limit position : Nat) (s : State) :
    ∃ s' g, s.run limit position s.ending = .ok s' ∧ s'.finish = .ok g := by
  cases hs : s.focus with
  | operator f =>
    rw [ending, hs]
    exact exists_run_closing limit position hs
  | operand k =>
    have hn : Next limit (.ident "A") s _ := .name hs ⟨"A", by decide⟩
    obtain ⟨s', g, hr, hg⟩ := exists_run_closing limit (position + 1)
      (s := s.complete k (.atom ⟨"A", by decide⟩)) rfl
    refine ⟨s', g, ?_, hg⟩
    rw [ending, hs]
    exact (hn.run_cons _).trans hr

/-- Tokens end too early behind a negation or a connective, or inside a group. -/
theorem finish_eq_error (h : s.finish = .error e) :
    (∃ k, s.focus = .operand k ∧ e = .unexpectedEnd .operand) ∨
      s.outer ≠ [] ∧ e = .unexpectedEnd .closing := by
  unfold finish at h
  split at h
  · rename_i k hs
    cases h
    exact .inl ⟨k, hs, rfl⟩
  · cases h
  · rename_i ho
    cases h
    exact .inr ⟨ho ▸ List.cons_ne_nil _ _, rfl⟩

theorem position?_of_finish (h : s.finish = .error e) : e.position? = none := by
  rcases finish_eq_error h with ⟨k, -, rfl⟩ | ⟨-, rfl⟩
  · rfl
  · rfl

end Parsing.State

namespace Formula

open Parsing

variable {limit p : Nat} {ts us : List Token} {s : State} {f : Formula} {e : ParseError}

theorem ofTokens_eq_ok_of_run (h : State.run limit {} 0 ts = .ok s) (hf : s.finish = .ok f) :
    ofTokens ts limit = .ok f := by
  have hne : ts ≠ [] := by
    rintro rfl
    cases h
    cases hf
  rw [Grammar.ofTokens_of_ne_nil hne, h]
  exact hf

/-- What has been read without an error is the beginning of a formula's tokens. -/
theorem exists_continuation (h : State.run limit {} 0 ts = .ok s) :
    ∃ rest f, ofTokens (ts ++ rest) limit = .ok f := by
  obtain ⟨s', f, hr, hf⟩ := s.exists_run_ending limit (0 + ts.length)
  exact ⟨s.ending, f, ofTokens_eq_ok_of_run ((State.run_append_of_eq_ok h _).trans hr) hf⟩

/-- A refused token decides the error, whatever stands behind it. -/
theorem ofTokens_append_of_refused {t : Token} (hr : State.run limit {} 0 ts = .ok s)
    (he : State.Refused limit ts.length t s e) (after : List Token) :
    ofTokens (ts ++ t :: after) limit = .error e := by
  rw [Grammar.ofTokens_of_ne_nil (by simp), State.run_append_of_eq_ok hr, State.run, Nat.zero_add,
    he.step_eq]
  rfl

/-- Tokens are no formula if there are none, if one of them is refused, or if they end too early. -/
theorem ofTokens_error_cases (h : ofTokens ts limit = .error e) :
    ts = [] ∧ e = .empty ∨
      (∃ before t after s, ts = before ++ t :: after ∧ State.run limit {} 0 before = .ok s ∧
        State.Refused limit before.length t s e) ∨
      ts ≠ [] ∧ ∃ s, State.run limit {} 0 ts = .ok s ∧ s.finish = .error e := by
  by_cases hne : ts = []
  · subst hne
    cases h
    exact .inl ⟨rfl, rfl⟩
  · rw [Grammar.ofTokens_of_ne_nil hne] at h
    right
    cases hr : State.run limit {} 0 ts with
    | error e' =>
      rw [hr] at h
      cases h
      obtain ⟨before, t, after, s, hts, hb, he⟩ := State.run_eq_error hr
      rw [Nat.zero_add] at he
      exact .inl ⟨before, t, after, s, hts, hb, he⟩
    | ok s =>
      rw [hr] at h
      exact .inr ⟨hne, s, rfl, h⟩

theorem ofTokens_eq_error (h : ofTokens ts limit = .error e) :
    (∃ before t after s, ts = before ++ t :: after ∧ State.run limit {} 0 before = .ok s ∧
        State.Refused limit before.length t s e) ∨
      e.position? = none ∧ ∃ s, State.run limit {} 0 ts = .ok s := by
  rcases ofTokens_error_cases h with ⟨rfl, rfl⟩ | href | ⟨-, s, hr, hf⟩
  · exact .inr ⟨rfl, {}, rfl⟩
  · exact .inl href
  · exact .inr ⟨State.position?_of_finish hf, s, hr⟩

/-- Tokens that agree up to and with a token have it behind the same ones. -/
theorem eq_append_of_getElem? {before after : List Token} {t : Token}
    (h : ∀ i ≤ before.length, us[i]? = (before ++ t :: after)[i]?) :
    ∃ after', us = before ++ t :: after' := by
  have htake : us.take (before.length + 1) = before ++ [t] := by
    refine List.ext_getElem? fun i => ?_
    by_cases hi : i ≤ before.length
    · rw [List.getElem?_take_of_lt (Nat.lt_succ_of_le hi), h i hi, List.append_cons,
        List.getElem?_append_left (by simp; omega)]
    · rw [List.getElem?_take_eq_none (by omega), List.getElem?_eq_none (by simp; omega)]
  refine ⟨us.drop (before.length + 1), ?_⟩
  rw [List.append_cons, ← htake, List.take_append_drop]

/-- An error with a position names the token that stands there. The tokens up to and with that one
decide the error, and the tokens before it begin a formula. Any other error is due to the end: the
tokens themselves begin a formula. -/
theorem earliest_of_ofTokens_eq_error (h : ofTokens ts limit = .error e) :
    (∀ p, e.position? = some p → ∃ hp : p < ts.length, e.Blames ts[p] ∧
        (∀ us : List Token, (∀ i ≤ p, us[i]? = ts[i]?) → ofTokens us limit = .error e) ∧
        ∃ rest f, ofTokens (ts.take p ++ rest) limit = .ok f) ∧
      ((e = .empty ∨ ∃ wanted, e = .unexpectedEnd wanted) →
        ∃ rest f, ofTokens (ts ++ rest) limit = .ok f) := by
  rcases ofTokens_eq_error h with ⟨before, t, after, s, rfl, hr, he⟩ | ⟨hnone, s, hr⟩
  · refine ⟨fun p hp => ?_, fun hend => ?_⟩
    · obtain rfl : before.length = p := Option.some.inj (he.position?_eq.symm.trans hp)
      refine ⟨by simp, ?_, fun us hus => ?_, ?_⟩
      · simpa using he.blames
      · obtain ⟨after', rfl⟩ := eq_append_of_getElem? hus
        exact ofTokens_append_of_refused hr he after'
      · rw [List.take_left]
        exact exists_continuation hr
    · have hsome := he.position?_eq
      rcases hend with rfl | ⟨wanted, rfl⟩
      · cases hsome
      · cases hsome
  · refine ⟨fun p hp => ?_, fun _ => exists_continuation hr⟩
    rw [hnone] at hp
    cases hp

/-- With two groups open at a limit of two a negation is refused, whatever it was to stand before,
and the groups can still be closed. -/
theorem earliest_negation_in_two_groups :
    ofTokens [.lparen, .ident "A", .op (.binary .and), .lparen, .op .not] 2 =
        .error (.tooDeep 4) ∧
      ofTokens [.lparen, .ident "A", .op (.binary .and), .lparen, .op .not, .ident "B", .rparen,
        .rparen] 2 = .error (.tooDeep 4) ∧
      ∃ rest f, ofTokens ([.lparen, .ident "A", .op (.binary .and), .lparen] ++ rest) 2 = .ok f := by
  have h : ofTokens [.lparen, .ident "A", .op (.binary .and), .lparen, .op .not] 2 =
      .error (.tooDeep 4) := rfl
  obtain ⟨-, -, hsame, hrest⟩ := (earliest_of_ofTokens_eq_error h).1 4 rfl
  exact ⟨h, hsame _ (by decide), hrest⟩

end Formula

end Propositional
