import Propositional.Proofs.Formula.Refusal

/-!
# The nesting limit

The limit cuts off and does nothing else. A larger limit takes every step that a smaller one takes,
and it refuses what the smaller one refuses except for depth, so two runs go in lockstep until the
smaller limit is met (`run_eq_or_tooDeep`). The run under the larger limit goes on from there: it
can only be cut off at a depth that no run under the smaller one comes to.
-/

namespace Propositional

namespace Parsing.State

variable {limit limit' position stop : Nat} {s s' : State} {t : Token} {ts : List Token}
  {e : ParseError}

theorem Next.of_limit_le (h : Next limit t s s') (hl : limit ≤ limit') : Next limit' t s s' := by
  cases h with
  | name hs v => exact .name hs v
  | neg hs hd => exact .neg hs (Nat.lt_of_lt_of_le hd hl)
  | opening hs hd => exact .opening hs (Nat.lt_of_lt_of_le hd hl)
  | joining hs j => exact .joining hs j
  | closing hs ho => exact .closing hs ho

/-- A token leads one level deeper at most, and not beyond the limit. -/
theorem Next.depth_le (h : Next limit t s s') (hs : s.depth ≤ limit) :
    s'.depth ≤ limit ∧ s'.depth ≤ s.depth + 1 := by
  cases h with
  | name _ v => simp only [complete]; omega
  | neg _ hd => simp only; omega
  | opening _ hd => simp only; omega
  | joining _ j => simp only; omega
  | closing _ ho => simp only [complete]; omega

/-- Depth apart, what is refused does not depend on the limit. -/
theorem Refused.of_ne_tooDeep (h : Refused limit position t s e) (he : e ≠ .tooDeep position)
    (limit' : Nat) : Refused limit' position t s e := by
  cases h with
  | noName hs hn => exact .noName hs hn
  | tooDeep hs ht hd => exact absurd rfl he
  | noOperand hs ht => exact .noOperand hs ht
  | trailing hs ht ho => exact .trailing hs ht ho
  | inGroup hs ht ho hr => exact .inGroup hs ht ho hr

theorem Refused.of_tooDeep (h : Refused limit position t s (.tooDeep stop)) :
    stop = position ∧ limit ≤ s.depth := by
  cases h with
  | tooDeep hs ht hd => exact ⟨rfl, hd⟩

/-- Until the smaller limit is met, runs under two limits are the same. -/
theorem run_eq_or_tooDeep (hl : limit ≤ limit') (s : State) (position : Nat) (ts : List Token) :
    s.run limit' position ts = s.run limit position ts ∨
      ∃ stop, s.run limit position ts = .error (.tooDeep stop) := by
  induction ts generalizing s position with
  | nil => exact .inl rfl
  | cons t ts ih =>
    cases hs : s.step limit position t with
    | ok s₁ =>
      have hn : Next limit t s s₁ := step_eq_ok_iff.1 hs
      rw [hn.run_cons, (hn.of_limit_le hl).run_cons]
      exact ih s₁ (position + 1)
    | error e =>
      have hr : s.run limit position (t :: ts) = .error e := by rw [run, hs]
      by_cases he : e = .tooDeep position
      · exact .inr ⟨position, he ▸ hr⟩
      · have hs' := ((step_eq_error_iff.1 hs).of_ne_tooDeep he limit').step_eq
        left
        rw [hr, run, hs']

/-- No run comes deeper than its limit, nor deeper than it has read tokens. -/
theorem depth_le_of_run (h : s.run limit position ts = .ok s') (hs : s.depth ≤ limit) :
    s'.depth ≤ limit ∧ s'.depth ≤ s.depth + ts.length := by
  induction ts generalizing s position with
  | nil =>
    cases h
    exact ⟨hs, Nat.le_refl _⟩
  | cons t ts ih =>
    obtain ⟨s₁, hn, hr⟩ := run_cons_eq_ok h
    obtain ⟨hlimit, hone⟩ := hn.depth_le hs
    obtain ⟨hlimit', hmore⟩ := ih hr hlimit
    rw [List.length_cons]
    exact ⟨hlimit', by omega⟩

/-- A run that is cut off has come to its limit just before. -/
theorem exists_run_of_tooDeep (h : s.run limit position ts = .error (.tooDeep stop)) :
    ∃ before t after s', ts = before ++ t :: after ∧ stop = position + before.length ∧
      s.run limit position before = .ok s' ∧ limit ≤ s'.depth := by
  obtain ⟨before, t, after, s', hts, hr, he⟩ := run_eq_error h
  obtain ⟨hstop, hd⟩ := he.of_tooDeep
  exact ⟨before, t, after, s', hts, hstop, hr, hd⟩

/-- What is cut off under a limit is cut off earlier under a smaller one. -/
theorem exists_tooDeep_of_lt (hl : limit < limit') (hs : s.depth ≤ limit)
    (h : s.run limit' position ts = .error (.tooDeep stop)) :
    ∃ earlier < stop, s.run limit position ts = .error (.tooDeep earlier) := by
  obtain ⟨before, t, after, s', rfl, rfl, hr, hd⟩ := exists_run_of_tooDeep h
  rcases run_eq_or_tooDeep (Nat.le_of_lt hl) s position before with heq | ⟨earlier, he⟩
  · -- the smaller limit would have been passed before `t`
    have hle := (depth_le_of_run (heq.symm.trans hr) hs).1
    omega
  · obtain ⟨before', t', after', -, hb, rfl, -, -⟩ := exists_run_of_tooDeep he
    refine ⟨position + before'.length, ?_, ?_⟩
    · rw [hb, List.length_append, List.length_cons]
      omega
    · rw [run_append, he]

/-- A limit of as many levels as there are tokens is never met. -/
theorem run_ne_tooDeep (hl : s.depth + ts.length ≤ limit) (stop : Nat) :
    s.run limit position ts ≠ .error (.tooDeep stop) := by
  intro h
  obtain ⟨before, t, after, s', rfl, -, hr, hd⟩ := exists_run_of_tooDeep h
  rw [List.length_append, List.length_cons] at hl
  have hle := (depth_le_of_run hr (by omega)).2
  omega

end Parsing.State

namespace Formula

open Parsing

variable {limit stop : Nat} {ts : List Token}

/-- Only the run over the tokens can be cut off. -/
theorem ofTokens_eq_tooDeep_iff :
    ofTokens ts limit = .error (.tooDeep stop) ↔
      State.run limit {} 0 ts = .error (.tooDeep stop) := by
  by_cases hne : ts = []
  · subst hne
    exact ⟨nofun, nofun⟩
  · rw [Grammar.ofTokens_of_ne_nil hne]
    cases State.run limit {} 0 ts with
    | error e => exact ⟨fun h => by cases h; rfl, fun h => by cases h; rfl⟩
    | ok s =>
      refine ⟨fun h => ?_, nofun⟩
      cases State.position?_of_finish h

theorem ofTokens_ne_tooDeep (hl : ts.length ≤ limit) (stop : Nat) :
    ofTokens ts limit ≠ .error (.tooDeep stop) := by
  rw [Ne, ofTokens_eq_tooDeep_iff]
  exact State.run_ne_tooDeep (by simpa using hl) stop

/-- A larger limit changes the result only where the smaller one cut off. Where it cuts off itself,
the smaller one did so at an earlier token, and a limit of as many levels as there are tokens never
cuts off. -/
theorem limit_cuts_off (ts : List Token) {limit limit' : Nat} (h : limit < limit') :
    (ofTokens ts limit' = ofTokens ts limit ∨
        ∃ stop, ofTokens ts limit = .error (.tooDeep stop)) ∧
      (∀ stop', ofTokens ts limit' = .error (.tooDeep stop') →
        ∃ stop < stop', ofTokens ts limit = .error (.tooDeep stop)) ∧
      ∀ enough, ts.length ≤ enough → ∀ stop, ofTokens ts enough ≠ .error (.tooDeep stop) := by
  refine ⟨?_, fun stop' h' => ?_, fun enough => ofTokens_ne_tooDeep⟩
  · by_cases hne : ts = []
    · subst hne
      exact .inl rfl
    · rcases State.run_eq_or_tooDeep (Nat.le_of_lt h) {} 0 ts with heq | ⟨stop, hs⟩
      · left
        rw [Grammar.ofTokens_of_ne_nil hne, Grammar.ofTokens_of_ne_nil hne, heq]
      · exact .inr ⟨stop, ofTokens_eq_tooDeep_iff.2 hs⟩
  · obtain ⟨stop, hlt, hs⟩ := State.exists_tooDeep_of_lt h (Nat.zero_le limit)
      (ofTokens_eq_tooDeep_iff.1 h')
    exact ⟨stop, hlt, ofTokens_eq_tooDeep_iff.2 hs⟩

/-- Of `NOT ( NOT A )` a limit of one reads the negation, and a limit of two the group too. -/
theorem limit_cuts_off_not_group_not :
    1 < 2 ∧ ofTokens [.op .not, .lparen, .op .not, .ident "A", .rparen] 2 = .error (.tooDeep 2) ∧
      ∃ stop < 2, ofTokens [.op .not, .lparen, .op .not, .ident "A", .rparen] 1 =
        .error (.tooDeep stop) := by
  have h : ofTokens [.op .not, .lparen, .op .not, .ident "A", .rparen] 2 =
      .error (.tooDeep 2) := rfl
  exact ⟨by decide, h, (limit_cuts_off _ (by decide)).2.1 2 h⟩

end Formula

namespace Grammar

/-- What tokens write needs no more levels than there are tokens. -/
theorem Writes.le_length {ts : List Token} {f : Formula} {n : Nat} (h : Writes ts f n) :
    n ≤ ts.length := by
  refine Nat.le_of_not_lt fun hlt => ?_
  obtain ⟨stop, hs⟩ := h.ofTokens_tooDeep hlt
  exact Formula.ofTokens_ne_tooDeep (Nat.le_refl _) stop hs

end Grammar

end Propositional
