import Propositional.Formula.Parser

/-!
# Single steps of the parser

`Next limit t s s'`: token `t` takes the parser from `s` to `s'`. There is one rule for each kind
of token that the parser accepts, and `step_eq_ok_iff` says that there are no others.
-/

namespace Propositional.Parsing.State

inductive Next (limit : Nat) : Token → State → State → Prop where
  | name {s : State} {k : Nat} (hs : s.focus = .operand k) (v : Variable) :
      Next limit (.ident v.name) s (s.complete k (.atom v))
  | neg {s : State} {k : Nat} (hs : s.focus = .operand k) (hd : s.depth < limit) :
      Next limit (.op .not) s { s with depth := s.depth + 1, focus := .operand (k + 1) }
  | opening {s : State} {k : Nat} (hs : s.focus = .operand k) (hd : s.depth < limit) :
      Next limit .lparen s
        { depth := s.depth + 1, outer := ⟨s.pending, k⟩ :: s.outer, focus := .operand 0 }
  | joining {s : State} {f : Formula} (hs : s.focus = .operator f) (j : Junction) :
      Next limit (.op (.binary j)) s { s with pending := s.pending.add f j, focus := .operand 0 }
  | closing {s : State} {f : Formula} {frame : Frame} {outer : List Frame}
      (hs : s.focus = .operator f) (ho : s.outer = frame :: outer) :
      Next limit .rparen s
        (complete { s with depth := s.depth - 1, pending := frame.pending, outer }
          frame.negations (s.pending.close f))

variable {limit position k : Nat} {s s' : State} {t : Token} {f : Formula}

theorem enter_of_lt (h : s.depth < limit) :
    s.enter limit position = .ok { s with depth := s.depth + 1 } := if_pos h

theorem enter_of_le (h : limit ≤ s.depth) :
    s.enter limit position = .error (.tooDeep position) := if_neg (Nat.not_lt.2 h)

theorem Next.step_eq (h : Next limit t s s') : s.step limit position t = .ok s' := by
  cases h with
  | name hs v => simp only [step, hs, readOperand, Variable.ofName?_name]
  | neg hs hd => simp only [step, hs, readOperand, enter_of_lt hd]; rfl
  | opening hs hd => simp only [step, hs, readOperand, enter_of_lt hd]; rfl
  | joining hs j => simp only [step, hs, readOperator]
  | closing hs ho => simp only [step, hs, readOperator, ho, if_pos]

theorem next_of_readOperand (hs : s.focus = .operand k)
    (h : s.readOperand limit position k t = .ok s') : Next limit t s s' := by
  cases t with
  | lparen =>
    rw [readOperand] at h
    by_cases hd : s.depth < limit
    · rw [enter_of_lt hd] at h
      cases h
      exact .opening hs hd
    · rw [enter_of_le (Nat.not_lt.1 hd)] at h
      cases h
  | rparen => cases h
  | op c =>
    cases c with
    | not =>
      rw [readOperand] at h
      by_cases hd : s.depth < limit
      · rw [enter_of_lt hd] at h
        cases h
        exact .neg hs hd
      · rw [enter_of_le (Nat.not_lt.1 hd)] at h
        cases h
    | binary j => cases h
  | ident name =>
    rw [readOperand] at h
    split at h
    · rename_i v hv
      cases h
      rw [← Variable.name_of_ofName? hv]
      exact .name hs v
    · cases h

theorem next_of_readOperator (hs : s.focus = .operator f)
    (h : s.readOperator position f t = .ok s') : Next limit t s s' := by
  unfold readOperator at h
  split at h
  · cases h
    exact .joining hs _
  · split at h
    · cases h
    · rename_i frame outer ho
      split at h
      · rename_i ht
        cases h
        rw [ht]
        exact .closing hs ho
      · cases h

theorem step_eq_ok_iff : s.step limit position t = .ok s' ↔ Next limit t s s' := by
  refine ⟨fun h => ?_, Next.step_eq⟩
  unfold step at h
  split at h
  · rename_i k hs
    exact next_of_readOperand hs h
  · rename_i f hs
    exact next_of_readOperator hs h

theorem Next.run_cons (h : Next limit t s s') (ts : List Token) :
    s.run limit position (t :: ts) = s'.run limit (position + 1) ts := by
  rw [run, h.step_eq]

/-- A run that ends well took a step for each token. -/
theorem run_cons_eq_ok {ts : List Token} (h : s.run limit position (t :: ts) = .ok s') :
    ∃ s₁, Next limit t s s₁ ∧ s₁.run limit (position + 1) ts = .ok s' := by
  rw [run] at h
  split at h
  · rename_i s₁ hs
    exact ⟨s₁, step_eq_ok_iff.1 hs, h⟩
  · cases h

/-- What opens a level is refused at the limit. -/
theorem run_tooDeep (hs : s.focus = .operand k) (ht : t = .lparen ∨ t = .op .not)
    (hd : limit ≤ s.depth) (ts : List Token) :
    s.run limit position (t :: ts) = .error (.tooDeep position) := by
  have he : s.step limit position t = .error (.tooDeep position) := by
    rcases ht with rfl | rfl
    · simp only [step, hs, readOperand, enter_of_le hd]; rfl
    · simp only [step, hs, readOperand, enter_of_le hd]; rfl
  rw [run, he]

end Propositional.Parsing.State
