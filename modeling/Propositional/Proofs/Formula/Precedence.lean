import Propositional.Proofs.Formula.Balance

/-!
# Parentheses by precedence

`brief` writes a formula with parentheses only where precedence asks for them: around a chain below
a negation, and around a chain below a connective that binds as tightly or tighter.

The grammar has levels instead. The two agree because the operands of a connective stand at the part
next above its own precedence (`strength_operand`), so what may stand there without parentheses is
what binds tighter. Hence `brief` is read as the formula that it was written from. No fewer tokens
write that formula (`Derives.length_briefAt_le`): with a pair of its parentheses left out something
else is read.
-/

namespace Propositional

open Token

namespace Grammar

/-- How tightly binds, at least, what a part writes without parentheses around it. -/
def Part.strength : Part → Nat
  | level j => (Connective.binary j).precedence
  | unary => Connective.not.precedence
  | atom => Connective.not.precedence + 1

/-- The part for what binds so tightly. -/
def Part.ofStrength : Nat → Part
  | 0 | 1 => level .implies
  | 2 => level .or
  | 3 => level .and
  | 4 => unary
  | _ => atom

/-- Where the operands of a connective stand. -/
def place : Connective → Part
  | .not => .unary
  | .binary j => operand j

theorem strength_operand (j : Junction) :
    (operand j).strength = (Connective.binary j).precedence + 1 := by
  cases j <;> rfl

namespace Part

theorem ofStrength_strength (p : Part) : ofStrength p.strength = p := by
  cases p with
  | level j => cases j <;> rfl
  | unary | atom => rfl

theorem strength_level_lt (j : Junction) : (level j).strength < unary.strength := by
  cases j <;> decide

theorem strength_le_atom (p : Part) : p.strength ≤ atom.strength := by
  cases p with
  | level j => exact Nat.le_succ_of_le (Nat.le_of_lt (strength_level_lt j))
  | unary | atom => decide

theorem strength_implies_le (p : Part) : (level .implies).strength ≤ p.strength := by
  cases p with
  | level j => cases j <;> decide
  | unary | atom => decide

end Part

variable {p q : Part} {ts : List Token} {f : Formula} {k m n : Nat}

/-- Each part may be the only operand of the next looser one. -/
theorem Derives.looser (h : Derives (.ofStrength (k + 1)) ts f n) :
    Derives (.ofStrength k) ts f n := by
  match k, h with
  | 0, h => exact h
  | 1, h => exact .single (j := .implies) h
  | 2, h => exact .single (j := .or) h
  | 3, h => exact .single (j := .and) h
  | 4, h => exact h.bare
  | _ + 5, h => exact h

theorem Derives.of_le (hk : k ≤ m) (h : Derives (.ofStrength m) ts f n) :
    Derives (.ofStrength k) ts f n := by
  induction hk with
  | refl => exact h
  | step _ ih => exact ih h.looser

/-- What binds tightly may stand where less is asked for. -/
theorem Derives.of_strength_le (h : Derives p ts f n) (hq : q.strength ≤ p.strength) :
    Derives q ts f n := by
  rw [← p.ofStrength_strength] at h
  rw [← q.ofStrength_strength]
  exact h.of_le hq

end Grammar

namespace Formula

open Grammar

/-- Whether a formula stands in parentheses as an operand of `c`: every chain does below a negation,
and below a chain one whose connective binds no tighter. -/
def groupedBelow : Connective → Formula → Bool
  | .not, chain _ _ _ _ => true
  | .binary j, chain k _ _ _ => (Connective.binary k).precedence ≤ (Connective.binary j).precedence
  | _, atom _ => false
  | _, neg _ => false

/-- The tokens, in parentheses if `grouped`. -/
def enclosed (grouped : Bool) (ts : List Token) : List Token :=
  if grouped then .lparen :: (ts ++ [.rparen]) else ts

mutual

/-- The tokens of a formula with parentheses only where precedence asks for them. -/
def brief : Formula → List Token
  | atom v => [.ident v.name]
  | neg f => .op .not :: enclosed (f.groupedBelow .not) f.brief
  | chain j f g rest =>
    enclosed (f.groupedBelow (.binary j)) f.brief ++
      (.op (.binary j) :: (enclosed (g.groupedBelow (.binary j)) g.brief ++ briefTail j rest))

/-- Operands after the first, each behind its connective. -/
def briefTail (j : Junction) : List Formula → List Token
  | [] => []
  | f :: fs =>
    .op (.binary j) :: (enclosed (f.groupedBelow (.binary j)) f.brief ++ briefTail j fs)

end

/-- The tightest part that a formula is without parentheses around it. -/
def part : Formula → Part
  | atom _ => .atom
  | neg _ => .unary
  | chain j _ _ _ => .level j

/-- The shortest tokens of a formula as a part `p`. -/
def briefAt (p : Part) (f : Formula) : List Token := enclosed (f.part.strength < p.strength) f.brief

variable {p q : Part} {f : Formula} {fs : List Formula} {j : Junction}

/-- Precedence asks for parentheses where the grammar does. -/
theorem groupedBelow_eq (c : Connective) (f : Formula) :
    f.groupedBelow c = decide (f.part.strength < (place c).strength) := by
  cases c with
  | not =>
    cases f with
    | atom v => rfl
    | neg f => rfl
    | chain j f g rest => exact (decide_eq_true (Part.strength_level_lt j)).symm
  | binary j =>
    cases f with
    | atom v => exact (decide_eq_false (Nat.not_lt.2 (Part.strength_le_atom _))).symm
    | neg f => cases j <;> rfl
    | chain k f g rest =>
      rw [place, strength_operand]
      exact decide_eq_decide.2 Nat.lt_succ_iff.symm

theorem enclosed_groupedBelow (c : Connective) (f : Formula) :
    enclosed (f.groupedBelow c) f.brief = f.briefAt (place c) := by
  rw [groupedBelow_eq, briefAt]

theorem brief_neg (f : Formula) : (neg f).brief = .op .not :: f.briefAt .unary :=
  congrArg (Token.op .not :: ·) (enclosed_groupedBelow .not f)

theorem briefTail_cons (j : Junction) (f : Formula) (fs : List Formula) :
    briefTail j (f :: fs) = .op (.binary j) :: (f.briefAt (operand j) ++ briefTail j fs) := by
  rw [briefTail, enclosed_groupedBelow, place]

theorem brief_chain (j : Junction) (f g : Formula) (rest : List Formula) :
    (chain j f g rest).brief = f.briefAt (operand j) ++ briefTail j (g :: rest) := by
  rw [brief, briefTail_cons, enclosed_groupedBelow, enclosed_groupedBelow, place]

theorem briefAt_of_le (h : p.strength ≤ f.part.strength) : f.briefAt p = f.brief := by
  simp [briefAt, enclosed, Nat.not_lt.2 h]

theorem briefAt_part (f : Formula) : f.briefAt f.part = f.brief := briefAt_of_le (Nat.le_refl _)

theorem briefAt_of_lt (h : f.part.strength < p.strength) :
    f.briefAt p = .lparen :: (f.brief ++ [.rparen]) := by
  simp [briefAt, enclosed, h]

theorem briefAt_implies (f : Formula) : f.briefAt (.level .implies) = f.brief :=
  briefAt_of_le f.part.strength_implies_le

theorem length_briefAt_of_le (h : p.strength ≤ f.part.strength) :
    (f.briefAt p).length = f.brief.length := congrArg List.length (briefAt_of_le h)

theorem length_briefAt_of_lt (h : f.part.strength < p.strength) :
    (f.briefAt p).length = f.brief.length + 2 := by
  simp [briefAt_of_lt h]

theorem length_briefAt_le_add (p : Part) (f : Formula) :
    (f.briefAt p).length ≤ f.brief.length + 2 := by
  rcases Nat.lt_or_ge f.part.strength p.strength with h | h
  · exact Nat.le_of_eq (length_briefAt_of_lt h)
  · have hlen := length_briefAt_of_le h
    omega

theorem length_briefAt_mono (h : p.strength ≤ q.strength) (f : Formula) :
    (f.briefAt p).length ≤ (f.briefAt q).length := by
  rcases Nat.lt_or_ge f.part.strength q.strength with hq | hq
  · have hp := length_briefAt_le_add p f
    have hlen := length_briefAt_of_lt hq
    omega
  · have hp := length_briefAt_of_le (Nat.le_trans h hq)
    have hlen := length_briefAt_of_le hq
    omega

/-- In parentheses a formula may stand everywhere, without them where it binds tightly enough. -/
theorem exists_derives_briefAt (h : ∃ n, Derives f.part f.brief f n) (p : Part) :
    ∃ n, Derives p (f.briefAt p) f n := by
  obtain ⟨n, hd⟩ := h
  by_cases hlt : f.part.strength < p.strength
  · rw [briefAt_of_lt hlt]
    have hw : Writes f.brief f n := hd.of_strength_le f.part.strength_implies_le
    exact ⟨n + 1, hw.group.of_strength_le p.strength_le_atom⟩
  · rw [briefAt_of_le (Nat.not_lt.1 hlt)]
    exact ⟨n, hd.of_strength_le (Nat.not_lt.1 hlt)⟩

theorem exists_derivesMore_briefTail
    (h : ∀ f ∈ fs, ∃ n, Derives (operand j) (f.briefAt (operand j)) f n) :
    ∃ n, DerivesMore j (briefTail j fs) fs n := by
  induction fs with
  | nil => exact ⟨0, .nil j⟩
  | cons f fs ih =>
    obtain ⟨m, hf⟩ := h f List.mem_cons_self
    obtain ⟨n, hfs⟩ := ih fun g hg => h g (List.mem_cons_of_mem f hg)
    rw [briefTail_cons]
    exact ⟨max m n, .cons hf hfs⟩

/-- The tokens with parentheses by precedence write the formula. -/
theorem exists_derives_brief (f : Formula) : ∃ n, Derives f.part f.brief f n := by
  induction f with
  | atom v => exact ⟨0, .name v⟩
  | neg f ih =>
    obtain ⟨n, h⟩ := exists_derives_briefAt ih .unary
    rw [brief_neg]
    exact ⟨n + 1, h.neg⟩
  | chain j f g rest hf hg hr =>
    obtain ⟨m, hf⟩ := exists_derives_briefAt hf (operand j)
    have hs : ∀ h ∈ g :: rest, ∃ n, Derives (operand j) (h.briefAt (operand j)) h n :=
      List.forall_mem_cons.2
        ⟨exists_derives_briefAt hg _, fun h hh => exists_derives_briefAt (hr h hh) _⟩
    obtain ⟨n, hs⟩ := exists_derivesMore_briefTail hs
    rw [brief_chain]
    exact ⟨max m n, hf.level hs⟩

theorem exists_writes_brief (f : Formula) : ∃ n, Writes f.brief f n := by
  obtain ⟨n, h⟩ := f.exists_derives_brief
  exact ⟨n, h.of_strength_le f.part.strength_implies_le⟩

end Formula

namespace Grammar

open Formula

mutual

/-- No fewer tokens are a part that writes the formula. -/
theorem Derives.length_briefAt_le : ∀ {p : Part} {ts : List Token} {f : Formula} {n : Nat},
    Derives p ts f n → (f.briefAt p).length ≤ ts.length
  | _, _, _, _, @Derives.level j _ _ f fs _ _ h hs => by
    have hf := h.length_briefAt_le
    have hfs := hs.length_briefTail_le
    rw [List.length_append]
    cases fs with
    | nil =>
      -- a single operand stands for itself, and a looser part asks for no more parentheses
      have hj : (Part.level j).strength ≤ (operand j).strength := by
        rw [strength_operand]
        exact Nat.le_succ _
      exact Nat.le_add_right_of_le (Nat.le_trans (length_briefAt_mono hj f) hf)
    | cons g fs =>
      have hc : (chain j f g fs).briefAt (.level j) = (chain j f g fs).brief := briefAt_part _
      rw [join, hc, brief_chain, List.length_append]
      exact Nat.add_le_add hf hfs
  | _, _, _, _, .neg (f := f) h => by
    have hn : (neg f).briefAt .unary = (neg f).brief := briefAt_part _
    rw [hn, brief_neg]
    exact Nat.succ_le_succ h.length_briefAt_le
  | _, _, _, _, .bare (f := f) h =>
    Nat.le_trans (length_briefAt_mono (Part.strength_le_atom .unary) f) h.length_briefAt_le
  | _, _, _, _, .name v => Nat.le_refl 1
  | _, _, _, _, .group (f := f) h => by
    have hf := h.length_briefAt_le
    rw [briefAt_implies] at hf
    have hp := f.length_briefAt_le_add .atom
    rw [List.length_cons, List.length_append, List.length_singleton]
    omega

theorem DerivesMore.length_briefTail_le :
    ∀ {j : Junction} {ts : List Token} {fs : List Formula} {n : Nat},
      DerivesMore j ts fs n → (briefTail j fs).length ≤ ts.length
  | _, _, _, _, .nil _ => Nat.le_refl 0
  | _, _, _, _, .cons h hs => by
    rw [briefTail_cons, List.length_cons, List.length_cons, List.length_append, List.length_append]
    exact Nat.succ_le_succ (Nat.add_le_add h.length_briefAt_le hs.length_briefTail_le)

end

end Grammar

namespace Formula

open Grammar

/-- The tokens with parentheses by precedence are read as the formula. With any matching pair of
them left out another formula is read. -/
theorem each_pair_of_brief_needed (f : Formula) :
    (∀ limit, f.brief.length ≤ limit → ofTokens f.brief limit = .ok f) ∧
      ∀ before inside after, f.brief = before ++ .lparen :: (inside ++ .rparen :: after) →
        Paren.openAfter 0 (parens inside) = some 0 →
        ∃ g ≠ f, ∀ limit, (before ++ inside ++ after).length ≤ limit →
          ofTokens (before ++ inside ++ after) limit = .ok g := by
  obtain ⟨n, hw⟩ := f.exists_writes_brief
  refine ⟨fun limit hl => hw.ofTokens_eq (Nat.le_trans hw.le_length hl), ?_⟩
  intro before inside after hb hp
  obtain ⟨g, m, hg⟩ := Writes.exists_without_pair (hb ▸ hw) hp
  refine ⟨g, ?_, fun limit hl => hg.ofTokens_eq (Nat.le_trans hg.le_length hl)⟩
  rintro rfl
  -- two tokens fewer than the fewest that write the formula
  have hle := Derives.length_briefAt_le hg
  rw [briefAt_implies, hb] at hle
  simp only [List.length_append, List.length_cons] at hle
  omega

/-- `( P OR Q ) AND NOT P` -/
def disjunctionBelowAnd : Formula :=
  chain .and (chain .or (atom ⟨"P", by decide⟩) (atom ⟨"Q", by decide⟩) [])
    (neg (atom ⟨"P", by decide⟩)) []

/-- Without its parentheses the conjunction would be the second operand of the disjunction. -/
theorem pair_needed_in_disjunctionBelowAnd :
    disjunctionBelowAnd.brief = .lparen :: ([.ident "P", .op (.binary .or), .ident "Q"] ++
        .rparen :: [.op (.binary .and), .op .not, .ident "P"]) ∧
      ofTokens disjunctionBelowAnd.brief 8 = .ok disjunctionBelowAnd ∧
      ∃ g ≠ disjunctionBelowAnd, ofTokens [.ident "P", .op (.binary .or), .ident "Q",
        .op (.binary .and), .op .not, .ident "P"] 6 = .ok g := by
  obtain ⟨hread, hdrop⟩ := each_pair_of_brief_needed disjunctionBelowAnd
  obtain ⟨g, hne, hg⟩ := hdrop [] [.ident "P", .op (.binary .or), .ident "Q"]
    [.op (.binary .and), .op .not, .ident "P"] rfl rfl
  exact ⟨rfl, hread 8 (by decide), g, hne, hg 6 (by decide)⟩

end Formula

end Propositional
