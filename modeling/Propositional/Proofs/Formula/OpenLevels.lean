import Propositional.Proofs.Formula.Balance

/-!
# Open levels

Which parentheses and negations are open behind some tokens shows in the tokens alone: a parenthesis
is open until the one that closes it, a negation until its operand ends, which is an identifier or a
group. `openBehind` keeps the tokens that opened them, the innermost first. Between two tokens the
depth of the parser is their number.
-/

namespace Propositional

namespace Grammar

/-- What stays open where an operand ends: not the negations right before it. -/
def behindOperand (opened : List Token) : List Token := opened.dropWhile (· = .op .not)

theorem exists_eq_replicate_append (opened : List Token) :
    ∃ k, opened = List.replicate k (.op .not) ++ behindOperand opened := by
  induction opened with
  | nil => exact ⟨0, rfl⟩
  | cons t opened ih =>
    by_cases ht : t = .op .not
    · subst ht
      obtain ⟨k, hk⟩ := ih
      exact ⟨k + 1, congrArg (.op .not :: ·) hk⟩
    · exact ⟨0, by rw [behindOperand, List.dropWhile_cons_of_neg (by simpa using ht)]; rfl⟩

/-- What is open behind one more token. -/
def openBehind (opened : List Token) : Token → List Token
  | .ident _ => behindOperand opened
  | .op .not => .op .not :: opened
  | .op (.binary _) => opened
  | .lparen => .lparen :: opened
  | .rparen => behindOperand opened.tail

end Grammar

namespace Parsing

open Grammar

def Focus.opened : Focus → List Token
  | .operand k => List.replicate k (.op .not)
  | .operator _ => []

def Frame.opened (frame : Frame) : List Token :=
  .lparen :: List.replicate frame.negations (.op .not)

namespace State

/-- The tokens that opened the levels the parser is in. -/
def opened (s : State) : List Token := s.focus.opened ++ s.outer.flatMap Frame.opened

variable {limit position base k : Nat} {s s' : State} {t : Token} {ts : List Token} {f : Formula}

theorem opened_of_operand (hs : s.focus = .operand k) :
    s.opened = List.replicate k (.op .not) ++ s.outer.flatMap Frame.opened := by
  rw [opened, hs, Focus.opened]

theorem opened_of_operator (hs : s.focus = .operator f) :
    s.opened = s.outer.flatMap Frame.opened := by
  rw [opened, hs, Focus.opened, List.nil_append]

theorem behindOperand_replicate (k : Nat) (frames : List Frame) :
    behindOperand (List.replicate k (.op .not) ++ frames.flatMap Frame.opened) =
      frames.flatMap Frame.opened := by
  induction k with
  | zero =>
    cases frames with
    | nil => rfl
    | cons frame frames => rfl
  | succ k ih => exact ih

theorem Next.opened_eq (h : Next limit t s s') : s'.opened = openBehind s.opened t := by
  cases h with
  | name hs v =>
    rw [opened_of_operand hs]
    exact (behindOperand_replicate _ s.outer).symm
  | neg hs _ =>
    rw [opened_of_operand hs]
    rfl
  | opening hs _ =>
    rw [opened_of_operand hs]
    rfl
  | joining hs j =>
    rw [opened_of_operator hs]
    rfl
  | @closing _ _ frame outer hs ho =>
    rw [opened_of_operator hs, ho]
    exact (behindOperand_replicate frame.negations outer).symm

theorem Next.depth_eq (h : Next limit t s s') (hs : s.depth = base + s.opened.length) :
    s'.depth = base + s'.opened.length := by
  cases h with
  | name hf v =>
    rw [opened_of_operand hf, List.length_append, List.length_replicate] at hs
    rw [opened_of_operator rfl]
    simp only [complete]
    omega
  | neg hf _ =>
    rw [opened_of_operand hf, List.length_append, List.length_replicate] at hs
    rw [opened_of_operand rfl, List.length_append, List.length_replicate]
    simp only
    omega
  | opening hf _ =>
    rw [opened_of_operand hf, List.length_append, List.length_replicate] at hs
    rw [opened_of_operand rfl, List.flatMap_cons, Frame.opened]
    simp only [List.length_append, List.length_cons, List.length_replicate]
    omega
  | joining hf j =>
    rw [opened_of_operator hf] at hs
    exact hs.trans (by rw [opened_of_operand rfl]; rfl)
  | closing hf ho =>
    rw [opened_of_operator hf, ho, List.flatMap_cons, Frame.opened] at hs
    simp only [List.length_append, List.length_cons, List.length_replicate] at hs
    rw [opened_of_operator rfl]
    simp only [complete]
    omega

theorem exists_operand (h : s.focus.isOperand = true) : ∃ k, s.focus = .operand k := by
  cases hs : s.focus with
  | operand k => exact ⟨k, rfl⟩
  | operator f =>
    rw [hs] at h
    cases h

theorem exists_operator (h : s.focus.isOperand = false) : ∃ f, s.focus = .operator f := by
  cases hs : s.focus with
  | operand k =>
    rw [hs] at h
    cases h
  | operator f => exact ⟨f, rfl⟩

theorem exists_name {name : String} (hs : s.focus.isOperand = true) (hn : IsName name) :
    ∃ s', Next limit (.ident name) s s' ∧ s'.focus.isOperand = false := by
  obtain ⟨k, hk⟩ := exists_operand hs
  exact ⟨_, .name hk ⟨name, hn⟩, rfl⟩

theorem exists_neg (hs : s.focus.isOperand = true) (hd : s.depth < limit) :
    ∃ s', Next limit (.op .not) s s' ∧ s'.focus.isOperand = true := by
  obtain ⟨k, hk⟩ := exists_operand hs
  exact ⟨_, .neg hk hd, rfl⟩

theorem exists_opening (hs : s.focus.isOperand = true) (hd : s.depth < limit) :
    ∃ s', Next limit .lparen s s' ∧ s'.focus.isOperand = true := by
  obtain ⟨k, hk⟩ := exists_operand hs
  exact ⟨_, .opening hk hd, rfl⟩

theorem exists_joining (hs : s.focus.isOperand = false) (j : Junction) :
    ∃ s', Next limit (.op (.binary j)) s s' ∧ s'.focus.isOperand = true := by
  obtain ⟨f, hf⟩ := exists_operator hs
  exact ⟨_, .joining hf j, rfl⟩

/-- A closing parenthesis is read where an opening one is the innermost. -/
theorem exists_closing (hs : s.focus.isOperand = false) (ho : s.opened = .lparen :: ts) :
    ∃ s', Next limit .rparen s s' ∧ s'.focus.isOperand = false := by
  obtain ⟨f, hf⟩ := exists_operator hs
  rw [opened_of_operator hf] at ho
  cases hout : s.outer with
  | nil =>
    rw [hout] at ho
    cases ho
  | cons frame outer => exact ⟨_, .closing hf hout, rfl⟩

/-- The tokens of a run say what is open behind them, and the depth counts it. -/
theorem opened_of_run (h : s.run limit position ts = .ok s')
    (hs : s.depth = base + s.opened.length) :
    s'.opened = ts.foldl openBehind s.opened ∧ s'.depth = base + s'.opened.length := by
  induction ts generalizing s position with
  | nil =>
    cases h
    exact ⟨rfl, hs⟩
  | cons t ts ih =>
    obtain ⟨s₁, hn, hr⟩ := run_cons_eq_ok h
    rw [List.foldl_cons, ← hn.opened_eq]
    exact ih hr (hn.depth_eq hs)

end State

end Parsing

end Propositional
