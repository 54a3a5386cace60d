import Propositional.Proofs.Formula.Limit
import Propositional.Proofs.Formula.Text

/-!
# Which tokens are read

Between two tokens the parser is inside as many groups as the parentheses so far leave open, and an
operand comes next where the turns of operands and connectives say so. Each step keeps both. Hence
only three things decide whether tokens write a formula: operands and connectives take turns,
parentheses are balanced, and identifiers are names (`exists_writes_iff`).
-/

namespace Propositional

open Token

namespace Parsing

/-- Whether an operand comes next. -/
def Focus.isOperand : Focus → Bool
  | .operand _ => true
  | .operator _ => false

namespace State

variable {limit position k : Nat} {s s' : State} {t : Token} {ts : List Token}

theorem Next.openAfter_eq (h : Next limit t s s') (ts : List Token) :
    Paren.openAfter s.outer.length (parens (t :: ts)) =
      Paren.openAfter s'.outer.length (parens ts) := by
  cases h with
  | name _ v => rfl
  | neg | opening => rfl
  | joining _ j => rfl
  | closing _ ho =>
    rw [ho]
    rfl

theorem Next.alternates_eq (h : Next limit t s s') (ts : List Token) :
    Grammar.alternates s.focus.isOperand (t :: ts) =
      Grammar.alternates s'.focus.isOperand ts := by
  cases h with
  | name hs v =>
    rw [hs]
    rfl
  | neg hs | opening hs | joining hs | closing hs =>
    rw [hs]
    rfl

/-- The tokens of a run lead from the groups open before it to those open behind it. -/
theorem openAfter_of_run (h : s.run limit position ts = .ok s') (us : List Token) :
    Paren.openAfter s.outer.length (parens (ts ++ us)) =
      Paren.openAfter s'.outer.length (parens us) := by
  induction ts generalizing s position with
  | nil =>
    cases h
    rfl
  | cons t ts ih =>
    obtain ⟨s₁, hn, hr⟩ := run_cons_eq_ok h
    exact (hn.openAfter_eq (ts ++ us)).trans (ih hr)

/-- A token is read if it is its turn, if it closes no group but an open one and if the limit leaves
a level. -/
theorem exists_next (ha : Grammar.alternates s.focus.isOperand (t :: ts) = true)
    (hp : Paren.openAfter s.outer.length (parens (t :: ts)) = some k) (hn : Named [t])
    (hd : s.depth < limit) : ∃ s', Next limit t s s' := by
  cases hs : s.focus with
  | operand n =>
    rw [hs] at ha
    cases t with
    | lparen => exact ⟨_, .opening hs hd⟩
    | rparen => cases ha
    | op c =>
      cases c with
      | not => exact ⟨_, .neg hs hd⟩
      | binary j => cases ha
    | ident name => exact ⟨_, .name hs ⟨name, hn name List.mem_cons_self⟩⟩
  | operator f =>
    rw [hs] at ha
    cases t with
    | lparen => cases ha
    | rparen =>
      cases ho : s.outer with
      | nil =>
        rw [ho] at hp
        cases hp
      | cons frame outer => exact ⟨_, .closing hs ho⟩
    | op c =>
      cases c with
      | not => cases ha
      | binary j => exact ⟨_, .joining hs j⟩
    | ident name => cases ha

/-- Tokens are read to their end if each is read in its turn. -/
theorem exists_run (position : Nat) (ha : Grammar.alternates s.focus.isOperand ts = true)
    (hp : Paren.openAfter s.outer.length (parens ts) = some k) (hn : Named ts)
    (hd : s.depth + ts.length ≤ limit) :
    ∃ s', s.run limit position ts = .ok s' ∧ s'.focus.isOperand = false ∧
      s'.outer.length = k := by
  induction ts generalizing s position with
  | nil => exact ⟨s, rfl, by simpa [Grammar.alternates] using ha, Option.some.inj hp⟩
  | cons t ts ih =>
    rw [List.length_cons] at hd
    have hlt : s.depth < limit := by omega
    obtain ⟨s₁, h₁⟩ := exists_next ha hp hn.head hlt
    have hd₁ : s₁.depth ≤ s.depth + 1 := (h₁.depth_le (by omega)).2
    obtain ⟨s', hr, hs'⟩ := ih (position + 1) (h₁.alternates_eq ts ▸ ha)
      (h₁.openAfter_eq ts ▸ hp) hn.tail (by omega)
    exact ⟨s', (h₁.run_cons ts).trans hr, hs'⟩

end State

end Parsing

namespace Grammar

open Parsing

variable {due : Bool} {n : Nat} {ts us vs : List Token} {f : Formula}

/-- Tokens write something exactly if operands and connectives take turns, parentheses are balanced
and identifiers are names. -/
theorem exists_writes_iff :
    (∃ f n, Writes ts f n) ↔
      alternates true ts = true ∧ Paren.openAfter 0 (parens ts) = some 0 ∧ Named ts := by
  constructor
  · rintro ⟨f, n, h⟩
    exact ⟨h.alternates, Derives.openAfter_parens h 0, Derives.named h⟩
  · rintro ⟨ha, hp, hn⟩
    obtain ⟨s, hr, hs, ho⟩ :=
      State.exists_run (s := {}) 0 ha hp hn (Nat.le_of_eq (Nat.zero_add ts.length))
    obtain ⟨f, hf⟩ : ∃ f, s.finish = .ok f := by
      cases hf : s.focus with
      | operand k =>
        rw [hf] at hs
        cases hs
      | operator f => exact ⟨_, by rw [State.finish, hf, List.eq_nil_of_length_eq_zero ho]⟩
    obtain ⟨n, -, hw⟩ := writes_of_ofTokens (Formula.ofTokens_eq_ok_of_run hr hf)
    exact ⟨f, n, hw⟩

theorem alternates_append_of_imp
    (h : ∀ due, alternates due us = true → alternates due vs = true)
    (ha : alternates due (ts ++ us) = true) : alternates due (ts ++ vs) = true := by
  induction ts generalizing due with
  | nil => exact h due ha
  | cons t ts ih =>
    cases due with
    | true =>
      cases t with
      | lparen | ident name => exact ih ha
      | rparen => cases ha
      | op c =>
        cases c with
        | not => exact ih ha
        | binary j => cases ha
    | false =>
      cases t with
      | lparen | ident name => cases ha
      | rparen => exact ih ha
      | op c =>
        cases c with
        | not => cases ha
        | binary j => exact ih ha

/-- A parenthesis takes no one's turn. -/
theorem alternates_of_paren {t : Token} (ht : t = lparen ∨ t = rparen)
    (h : alternates due (t :: ts) = true) : alternates due ts = true := by
  rcases ht with rfl | rfl
  · cases due with
    | true => exact h
    | false => cases h
  · cases due with
    | true => cases h
    | false => exact h

/-- With a matching pair of parentheses left out, tokens that write something still do. -/
theorem Writes.exists_without_pair {before inside after : List Token}
    (h : Writes (before ++ lparen :: (inside ++ rparen :: after)) f n)
    (hp : Paren.openAfter 0 (parens inside) = some 0) :
    ∃ g m, Writes (before ++ inside ++ after) g m := by
  obtain ⟨ha, ho, hn⟩ := exists_writes_iff.1 ⟨f, n, h⟩
  refine exists_writes_iff.2 ⟨?_, ?_, fun name hm => hn name ?_⟩
  · have hopen : Grammar.alternates true (before ++ (inside ++ rparen :: after)) = true :=
      alternates_append_of_imp (fun _ => alternates_of_paren (.inl rfl)) ha
    rw [← List.append_assoc] at hopen
    exact alternates_append_of_imp (fun _ => alternates_of_paren (.inr rfl)) hopen
  · have hparens : parens (before ++ lparen :: (inside ++ rparen :: after)) =
        parens before ++ .opening :: (parens inside ++ .closing :: parens after) := by
      rw [parens_append]
      exact congrArg (parens before ++ .opening :: ·) (parens_append inside (rparen :: after))
    rw [hparens, Paren.openAfter_append_pair 0 _ hp] at ho
    rw [List.append_assoc, parens_append, parens_append, ho]
  · simp only [List.mem_append, List.mem_cons] at hm ⊢
    rcases hm with (hm | hm) | hm
    · exact .inl hm
    · exact .inr (.inr (.inl hm))
    · exact .inr (.inr (.inr (.inr hm)))

end Grammar

end Propositional
