import Propositional.Proofs.Formula.Completeness

/-!
# What is read is derived

Between two tokens the parser's state describes how the tokens so far are derived: the interrupted
groups with what they had read (`Opened`), then the operands that wait in the current group
(`Waiting`), then the negations or the operand at hand. `Follows limit s ts` is this invariant of
`s` behind the tokens `ts`. It holds at the start, each step keeps it, and where the tokens may end
it is a derivation of all of them.
-/

namespace Propositional.Parsing

open Grammar

/-- The tokens are the operands `fs` of `j`, the latest first, each with `j` behind it. -/
inductive Earlier (room : Nat) (j : Junction) : List Formula → List Token → Prop where
  | nil : Earlier room j [] []
  | snoc {fs : List Formula} {f : Formula} {ts us : List Token} {n : Nat} :
      Earlier room j fs ts → Derives (operand j) us f n → n ≤ room →
      Earlier room j (f :: fs) (ts ++ us ++ [.op (.binary j)])

/-- The tokens are the operands that wait in a group. -/
def Pending.Waiting (room : Nat) (q : Pending) (ts : List Token) : Prop :=
  ∃ ts₁ ts₂ ts₃, Earlier room .implies q.premises ts₁ ∧ Earlier room .or q.disjuncts ts₂ ∧
    Earlier room .and q.conjuncts ts₃ ∧ ts = ts₁ ++ ts₂ ++ ts₃

/-- The tokens lead into the interrupted groups, at a depth. -/
inductive Opened (limit : Nat) : List Frame → List Token → Nat → Prop where
  | nil : Opened limit [] [] 0
  | cons {frame : Frame} {frames : List Frame} {ts us : List Token} {depth : Nat} :
      Opened limit frames ts depth → frame.pending.Waiting (limit - depth) us →
      depth + frame.negations < limit →
      Opened limit (frame :: frames)
        (ts ++ us ++ List.replicate frame.negations (.op .not) ++ [.lparen])
        (depth + frame.negations + 1)

/-- The tokens are what stands behind the waiting operands of a group opened at a depth. -/
def Focus.At (limit depth : Nat) (ts : List Token) : Focus → Nat → Prop
  | .operand k, d => ts = List.replicate k (.op .not) ∧ d = depth + k ∧ d ≤ limit
  | .operator f, d => d = depth ∧ ∃ n, Derives .unary ts f n ∧ depth + n ≤ limit

/-- The state describes how the tokens so far are derived. -/
def State.Follows (limit : Nat) (s : State) (ts : List Token) : Prop :=
  ∃ ts₁ ts₂ ts₃ depth, Opened limit s.outer ts₁ depth ∧
    s.pending.Waiting (limit - depth) ts₂ ∧ s.focus.At limit depth ts₃ s.depth ∧
    ts = ts₁ ++ ts₂ ++ ts₃

section

variable {room limit depth d m n : Nat} {j : Junction} {ts us vs : List Token} {f : Formula}
  {fs gs : List Formula} {q : Pending}

/-- The operands that waited, the one at hand and later ones form their level. -/
theorem Earlier.gather (h : Earlier room j fs ts) (hf : Derives (operand j) us f m)
    (hgs : DerivesMore j vs gs n) (hm : m ≤ room) (hn : n ≤ room) :
    ∃ k ≤ room, Derives (.level j) (ts ++ us ++ vs) (gather j fs f gs) k := by
  induction h generalizing us vs f gs m n with
  | nil => exact ⟨max m n, Nat.max_le.2 ⟨hm, hn⟩, .level hf hgs⟩
  | snoc _ he hk ih =>
    obtain ⟨k, hk', hd⟩ := ih he (.cons hf hgs) hk (Nat.max_le.2 ⟨hm, hn⟩)
    exact ⟨k, hk', by simpa [Parsing.gather] using hd⟩

theorem Earlier.level (h : Earlier room j fs ts) (hf : Derives (operand j) us f m)
    (hm : m ≤ room) : ∃ k ≤ room, Derives (.level j) (ts ++ us) (Parsing.gather j fs f []) k := by
  simpa using h.gather hf (.nil j) hm (Nat.zero_le room)

namespace Pending.Waiting

theorem empty (room : Nat) : Waiting room {} [] :=
  ⟨[], [], [], .nil, .nil, .nil, rfl⟩

/-- The operands that wait in the disjunction and the conjunction read last, with the operand at
hand, are a disjunction. -/
theorem disjunction {ts₂ ts₃ : List Token} (h₂ : Earlier room .or q.disjuncts ts₂)
    (h₃ : Earlier room .and q.conjuncts ts₃) (hf : Derives .unary us f n) (hn : n ≤ room) :
    ∃ k ≤ room, Derives (.level .or) (ts₂ ++ (ts₃ ++ us)) (q.disjunction f) k := by
  obtain ⟨k, hk, hc⟩ := h₃.level hf hn
  exact h₂.level hc hk

theorem close (h : q.Waiting room ts) (hf : Derives .unary us f n) (hn : n ≤ room) :
    ∃ k ≤ room, Writes (ts ++ us) (q.close f) k := by
  obtain ⟨ts₁, ts₂, ts₃, h₁, h₂, h₃, rfl⟩ := h
  obtain ⟨k, hk, hd⟩ := disjunction h₂ h₃ hf hn
  rw [List.append_assoc, List.append_assoc]
  exact h₁.level hd hk

theorem add (h : q.Waiting room ts) (hf : Derives .unary us f n) (hn : n ≤ room) (j : Junction) :
    (q.add f j).Waiting room (ts ++ us ++ [.op (.binary j)]) := by
  obtain ⟨ts₁, ts₂, ts₃, h₁, h₂, h₃, rfl⟩ := h
  cases j with
  | and => exact ⟨ts₁, ts₂, _, h₁, h₂, h₃.snoc hf hn, by simp⟩
  | or =>
    obtain ⟨k, hk, hc⟩ := h₃.level hf hn
    exact ⟨ts₁, _, [], h₁, h₂.snoc hc hk, .nil, by simp⟩
  | implies =>
    obtain ⟨k, hk, hd⟩ := disjunction h₂ h₃ hf hn
    exact ⟨_, [], [], h₁.snoc hd hk, .nil, .nil, by simp⟩

end Pending.Waiting

/-- The operand at hand, behind `k` negations. -/
theorem Focus.at_negate (hf : Derives .atom us f n) (k : Nat) (hn : depth + (n + k) ≤ limit) :
    Focus.At limit depth (List.replicate k (.op .not) ++ us) (.operator (f.negate k)) depth :=
  ⟨rfl, n + k, hf.bare.negate k, hn⟩

namespace State

variable {s s' : State} {t : Token}

theorem Follows.start (limit : Nat) : Follows limit {} [] :=
  ⟨[], [], [], 0, .nil, .empty _, ⟨rfl, rfl, Nat.zero_le limit⟩, rfl⟩

theorem Follows.next (h : s.Follows limit ts) (hn : Next limit t s s') :
    s'.Follows limit (ts ++ [t]) := by
  obtain ⟨ts₁, ts₂, ts₃, depth, ho, hw, hf, rfl⟩ := h
  cases hn with
  | name hs v =>
    rw [hs] at hf
    obtain ⟨rfl, hd, hl⟩ := hf
    refine ⟨ts₁, ts₂, _, depth, ho, hw, ?_, List.append_assoc ..⟩
    rw [complete, hd, Nat.add_sub_cancel]
    exact Focus.at_negate (.name v) _ (by omega)
  | neg hs hd =>
    rw [hs] at hf
    obtain ⟨rfl, hk, hl⟩ := hf
    refine ⟨ts₁, ts₂, _, depth, ho, hw, ⟨rfl, ?_, hd⟩, ?_⟩
    · simp only [hk, Nat.add_assoc]
    · rw [List.replicate_succ', List.append_assoc]
  | opening hs hd =>
    rw [hs] at hf
    obtain ⟨rfl, hk, hl⟩ := hf
    refine ⟨_, [], [], _, .cons ho hw (hk ▸ hd), .empty _, ⟨rfl, congrArg (· + 1) hk, hd⟩, ?_⟩
    simp
  | joining hs j =>
    rw [hs] at hf
    obtain ⟨hd, n, hf, hn⟩ := hf
    refine ⟨ts₁, _, [], depth, ho, hw.add hf (by omega) j, ⟨rfl, hd, ?_⟩, ?_⟩
    · simp only [hd]
      omega
    · simp
  | @closing _ f frame outer hs hout =>
    rw [hs] at hf
    obtain ⟨hd, n, hf, hn⟩ := hf
    rw [hout] at ho
    cases ho with
    | @cons _ _ ts us depth ho hw' hlt =>
      obtain ⟨m, hm, hg⟩ := hw.close hf (by omega)
      refine ⟨ts, us, List.replicate frame.negations (.op .not) ++
        .lparen :: (ts₂ ++ ts₃ ++ [.rparen]), depth, ho, hw', ?_, by simp⟩
      have hd' : s.depth - 1 - frame.negations = depth := by omega
      rw [complete, hd']
      exact Focus.at_negate hg.group frame.negations (by omega)

/-- Whatever has been read without an error, the state describes its derivation. -/
theorem Follows.run {position : Nat} (h : s.Follows limit ts)
    (hr : s.run limit position us = .ok s') : s'.Follows limit (ts ++ us) := by
  induction us generalizing s position ts with
  | nil =>
    cases hr
    simpa using h
  | cons t us ih =>
    obtain ⟨s₁, hn, hr⟩ := run_cons_eq_ok hr
    simpa using ih (h.next hn) hr

theorem Follows.finish (h : s.Follows limit ts) (hf : s.finish = .ok f) :
    ∃ n ≤ limit, Writes ts f n := by
  obtain ⟨ts₁, ts₂, ts₃, depth, ho, hw, ha, rfl⟩ := h
  unfold State.finish at hf
  split at hf
  · cases hf
  · rename_i e hs hout
    cases hf
    rw [hout] at ho
    rw [hs] at ha
    cases ho
    obtain ⟨-, n, he, hn⟩ := ha
    exact hw.close he (by omega)
  · cases hf

end State

end

end Parsing

namespace Grammar

variable {limit : Nat} {ts : List Token} {f : Formula}

/-- The tokens of a formula that is read write it, within the limit. -/
theorem writes_of_ofTokens (h : Formula.ofTokens ts limit = .ok f) :
    ∃ n ≤ limit, Writes ts f n := by
  unfold Formula.ofTokens at h
  split at h
  · cases h
  · cases hr : Parsing.State.run limit {} 0 ts with
    | error e =>
      rw [hr] at h
      cases h
    | ok s =>
      rw [hr] at h
      exact ((Parsing.State.Follows.start limit).run hr).finish h

/-- The parser reads the grammar: a formula is read from the tokens that write it with no more open
parentheses and negations than the limit, from no others, and no tokens write two formulas. -/
theorem ofTokens_eq_ok_iff_writes (ts : List Token) (limit : Nat) (f : Formula) :
    (Formula.ofTokens ts limit = .ok f ↔ ∃ n ≤ limit, Writes ts f n) ∧
      ∀ (g : Formula) (m n : Nat), Writes ts f m → Writes ts g n → f = g := by
  refine ⟨⟨writes_of_ofTokens, ?_⟩, fun g m n hf hg => (hf.unique hg).1⟩
  rintro ⟨n, hn, hw⟩
  exact hw.ofTokens_eq hn

end Grammar

end Propositional
