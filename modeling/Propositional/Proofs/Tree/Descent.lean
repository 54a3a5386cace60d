import Propositional.Proofs.Formula.Grammar
import Propositional.Proofs.Tree.Basic

/-!
# Recursive descent

`read` reads a part of the grammar from the front of the tokens, with one case for each kind of
part, and stops where the part cannot go on. A level reads operands as long as its connective
follows (`readMore`) and joins them without a check. `depth` counts the open parentheses and
negations. The token at `position` is the first that has not been read.

`Stands` says what a reading is good for: its tokens derive a formula with this tree and need no
more open levels than the limit allows, and no connective follows that the part could go on with.
Each way to read a part keeps it so.
-/

namespace Propositional

open Grammar

namespace Tree

/-- What has been read, and where reading goes on. -/
structure Reading (α : Type) (bound : Nat) where
  value : α
  position : Nat
  depth : Nat
  rest : List Token
  shorter : rest.length < bound

/-- The operands under `c`, a single one for itself, whatever they and `c` are. -/
def joinUnchecked (c : Connective) (first : Tree) : List Tree → Tree
  | [] => first
  | second :: more => chain c (first :: second :: more)

theorem joinUnchecked_toTree (j : Junction) (f : Formula) (fs : List Formula) :
    joinUnchecked (.binary j) f.toTree (fs.map Formula.toTree) = (Formula.join j f fs).toTree := by
  cases fs with
  | nil => rfl
  | cons g fs => exact (Formula.toTree_chain j f g fs).symm

/-- How many parts a part may begin with. -/
def rank : Part → Nat
  | .level .implies => 4
  | .level .or => 3
  | .level .and => 2
  | .unary => 1
  | .atom => 0

/-- The parenthesis behind a group of `bound` tokens at most. -/
def closeGroup {bound : Nat} : Reading Tree bound → Except ParseError (Reading Tree (bound + 1))
  | ⟨t, position, depth, .rparen :: rest, shorter⟩ =>
    .ok ⟨t, position + 1, depth - 1, rest,
      Nat.lt_succ_of_lt (Nat.lt_trans (Nat.lt_succ_self _) shorter)⟩
  | ⟨_, position, _, t :: _, _⟩ => .error (.unexpectedToken t position)
  | ⟨_, _, _, [], _⟩ => .error (.unexpectedEnd .closing)

theorem rank_operand_lt (j : Junction) : rank (operand j) < rank (.level j) := by
  cases j <;> decide

mutual

/-- A part from the front of the tokens. -/
def read (limit : Nat) (p : Part) (position depth : Nat) (ts : List Token) :
    Except ParseError (Reading Tree ts.length) :=
  match p, ts with
  | .level j, ts => do
    let first ← read limit (operand j) position depth ts
    let more ← readMore limit j first.position first.depth first.rest
    return ⟨joinUnchecked (.binary j) first.value more.value, more.position, more.depth, more.rest,
      Nat.lt_of_lt_of_le more.shorter first.shorter⟩
  | .unary, .op .not :: ts => do
    if depth < limit then
      let child ← read limit .unary (position + 1) (depth + 1) ts
      return ⟨unary .not child.value, child.position, child.depth - 1, child.rest,
        Nat.lt_succ_of_lt child.shorter⟩
    else .error (.tooDeep position)
  | .unary, ts => read limit .atom position depth ts
  | .atom, [] => .error (.unexpectedEnd .operand)
  | .atom, .ident name :: ts =>
    if IsName name then .ok ⟨leaf name, position + 1, depth, ts, Nat.lt_succ_self _⟩
    else .error (.invalidIdentifier name position)
  | .atom, .lparen :: ts => do
    if depth < limit then
      closeGroup (← read limit (.level .implies) (position + 1) (depth + 1) ts)
    else .error (.tooDeep position)
  | .atom, t :: _ => .error (.unexpectedToken t position)
termination_by (ts.length, rank p)
decreasing_by
  · exact .right _ (rank_operand_lt j)
  · exact .left _ _ first.shorter
  · exact .left _ _ (Nat.lt_succ_self _)
  · exact .right _ (by decide)
  · exact .left _ _ (Nat.lt_succ_self _)

/-- The operands of a level after the first, each behind its connective. -/
def readMore (limit : Nat) (j : Junction) (position depth : Nat) (ts : List Token) :
    Except ParseError (Reading (List Tree) (ts.length + 1)) :=
  match ts with
  | .op (.binary k) :: rest => do
    if k = j then
      let next ← read limit (operand j) (position + 1) depth rest
      let more ← readMore limit j next.position next.depth next.rest
      return ⟨next.value :: more.value, more.position, more.depth, more.rest,
        Nat.lt_succ_of_lt (Nat.lt_of_lt_of_le more.shorter (Nat.le_succ_of_le next.shorter))⟩
    else .ok ⟨[], position, depth, .op (.binary k) :: rest, Nat.lt_succ_self _⟩
  | ts => .ok ⟨[], position, depth, ts, Nat.lt_succ_self _⟩
termination_by (ts.length, 0)
decreasing_by
  · exact .left _ _ (Nat.lt_succ_self _)
  · exact .left _ _ (Nat.lt_succ_of_lt next.shorter)

end

/-- The tree that the tokens write, with at most `limit` open parentheses and negations. -/
def ofTokens (ts : List Token) (limit : Nat := Formula.nestingLimit) : Except ParseError Tree :=
  if ts.isEmpty then .error .empty
  else do
    let r ← read limit (.level .implies) 0 0 ts
    match r.rest with
    | [] => return r.value
    | t :: _ => .error (.trailingToken t r.position)

/-- The connectives that a part goes on with. -/
def GoesOn : Part → Junction → Prop
  | .level .implies, _ => True
  | .level .or, j => j ≠ .implies
  | .level .and, j => j = .and
  | .unary, _ | .atom, _ => False

/-- Nothing follows that a part `p` could go on with. -/
def Ends (p : Part) (ts : List Token) : Prop :=
  ∀ j, GoesOn p j → ts.head? ≠ some (.op (.binary j))

theorem goesOn_level {j k : Junction} : GoesOn (.level j) k ↔ k = j ∨ GoesOn (operand j) k := by
  cases j <;> cases k <;> simp [GoesOn, operand]

/-- A reading of a part `p` from `position` on, with `depth` levels open, is a derivation. -/
structure Stands (limit : Nat) (p : Part) (position depth : Nat) (ts : List Token)
    (r : Reading Tree ts.length) : Prop where
  depth_eq : r.depth = depth
  ends : Ends p r.rest
  derives : ∃ us f n, ts = us ++ r.rest ∧ r.position = position + us.length ∧
    Derives p us f n ∧ depth + n ≤ limit ∧ f.toTree = r.value

/-- The same of the later operands of a level. -/
structure StandsMore (limit : Nat) (j : Junction) (position depth : Nat) (ts : List Token)
    (r : Reading (List Tree) (ts.length + 1)) : Prop where
  depth_eq : r.depth = depth
  ends : Ends (.level j) r.rest
  derives : ∃ us fs n, ts = us ++ r.rest ∧ r.position = position + us.length ∧
    DerivesMore j us fs n ∧ depth + n ≤ limit ∧ fs.map Formula.toTree = r.value

section

variable {limit position depth : Nat} {j : Junction} {ts : List Token}

theorem Stands.level {first : Reading Tree ts.length}
    {more : Reading (List Tree) (first.rest.length + 1)}
    (h : Stands limit (operand j) position depth ts first)
    (hs : StandsMore limit j first.position first.depth first.rest more)
    (shorter : more.rest.length < ts.length) :
    Stands limit (.level j) position depth ts
      ⟨joinUnchecked (.binary j) first.value more.value, more.position, more.depth, more.rest,
        shorter⟩ := by
  obtain ⟨us, f, m, hts, hposition, hf, hm, hvalue⟩ := h.derives
  obtain ⟨vs, fs, n, hrest, hposition', hfs, hn, hvalues⟩ := hs.derives
  have hdepth := h.depth_eq
  refine ⟨hs.depth_eq.trans hdepth, hs.ends, us ++ vs, .join j f fs, max m n, ?_, ?_,
    hf.level hfs, by omega, ?_⟩
  · exact hts.trans (by rw [List.append_assoc, ← hrest])
  · rw [hposition', hposition, List.length_append, Nat.add_assoc]
  · rw [← joinUnchecked_toTree, hvalue, hvalues]

theorem Stands.neg {child : Reading Tree ts.length}
    (h : Stands limit .unary (position + 1) (depth + 1) ts child)
    (shorter : child.rest.length < (Token.op .not :: ts).length) :
    Stands limit .unary position depth (.op .not :: ts)
      ⟨unary .not child.value, child.position, child.depth - 1, child.rest, shorter⟩ := by
  obtain ⟨us, f, n, hts, hposition, hf, hn, hvalue⟩ := h.derives
  refine ⟨?_, h.ends, .op .not :: us, .neg f, n + 1, ?_, ?_, hf.neg, by omega, ?_⟩
  · rw [h.depth_eq, Nat.add_sub_cancel]
  · exact congrArg _ hts
  · rw [hposition, List.length_cons]
    omega
  · rw [Formula.toTree_neg, hvalue]

theorem Stands.bare {r : Reading Tree ts.length} (h : Stands limit .atom position depth ts r) :
    Stands limit .unary position depth ts r := by
  obtain ⟨us, f, n, hts, hposition, hf, hn, hvalue⟩ := h.derives
  exact ⟨h.depth_eq, nofun, us, f, n, hts, hposition, hf.bare, hn, hvalue⟩

theorem Stands.name {name : String} (hname : IsName name) (hd : depth ≤ limit)
    (shorter : ts.length < (Token.ident name :: ts).length) :
    Stands limit .atom position depth (.ident name :: ts)
      ⟨leaf name, position + 1, depth, ts, shorter⟩ :=
  ⟨rfl, nofun, [.ident name], .atom ⟨name, hname⟩, 0, rfl, rfl, .name ⟨name, hname⟩, hd, rfl⟩

theorem Stands.group {inner : Reading Tree ts.length} {r : Reading Tree (ts.length + 1)}
    (h : Stands limit (.level .implies) (position + 1) (depth + 1) ts inner)
    (hr : closeGroup inner = .ok r) :
    Stands limit .atom position depth (.lparen :: ts) r := by
  obtain ⟨us, f, n, hts, hposition, hf, hn, hvalue⟩ := h.derives
  have hdepth := h.depth_eq
  unfold closeGroup at hr
  split at hr
  · cases hr
    refine ⟨?_, nofun, .lparen :: (us ++ [.rparen]), f, n + 1, ?_, ?_, hf.group, by omega, hvalue⟩
    · simp only at hdepth ⊢
      omega
    · simpa using hts
    · simp only at hposition
      simp only [List.length_cons, List.length_append, List.length_nil]
      omega
  · cases hr
  · cases hr

theorem StandsMore.nil (hd : depth ≤ limit) (h : Ends (.level j) ts)
    (shorter : ts.length < ts.length + 1) :
    StandsMore limit j position depth ts ⟨[], position, depth, ts, shorter⟩ :=
  ⟨rfl, h, [], [], 0, rfl, rfl, .nil j, hd, rfl⟩

theorem StandsMore.cons {next : Reading Tree ts.length}
    {more : Reading (List Tree) (next.rest.length + 1)}
    (h : Stands limit (operand j) (position + 1) depth ts next)
    (hs : StandsMore limit j next.position next.depth next.rest more)
    (shorter : more.rest.length < (Token.op (.binary j) :: ts).length + 1) :
    StandsMore limit j position depth (.op (.binary j) :: ts)
      ⟨next.value :: more.value, more.position, more.depth, more.rest, shorter⟩ := by
  obtain ⟨us, f, m, hts, hposition, hf, hm, hvalue⟩ := h.derives
  obtain ⟨vs, fs, n, hrest, hposition', hfs, hn, hvalues⟩ := hs.derives
  have hdepth := h.depth_eq
  refine ⟨hs.depth_eq.trans hdepth, hs.ends, .op (.binary j) :: (us ++ vs), f :: fs, max m n, ?_,
    ?_, .cons hf hfs, by omega, ?_⟩
  · show _ = .op (.binary j) :: (us ++ vs ++ more.rest)
    rw [List.append_assoc, ← hrest, ← hts]
  · rw [hposition', hposition, List.length_cons, List.length_append]
    omega
  · rw [List.map_cons, hvalue, hvalues]

/-- Where a level's operand has ended and its connective does not follow, the level ends. -/
theorem Ends.level (h : Ends (operand j) ts) (hj : ts.head? ≠ some (.op (.binary j))) :
    Ends (.level j) ts := by
  intro k hk
  rcases goesOn_level.1 hk with rfl | hk
  · exact hj
  · exact h k hk

/-- No connective begins the tokens behind a formula. -/
theorem Ends.not_binary {t : Token} (h : Ends (.level .implies) (t :: ts)) (j : Junction) :
    t ≠ .op (.binary j) := by
  rintro rfl
  exact h j trivial rfl

end

end Tree

end Propositional
