import Mathlib.Data.List.Induction
import Propositional.Formula.Build
import Propositional.Proofs.Tree.Basic

/-!
# Building unchecked trees

On trees the checks that building a formula makes are made in the open: a leaf is asked for its
name, a chain for its connective and the number of its operands, and a builder, which keeps operands
and connectives in two lists, for its connectives first. What comes out is the tree of the formula
that is built from the same parts, or the same error.
-/

namespace Propositional

namespace Tree

/-- The leaf with this name. -/
def ofName (name : String) : Except NameError Tree :=
  if IsName name then .ok (leaf name) else .error ⟨name⟩

/-- The operands joined by `c`. -/
def ofOperands (c : Connective) (ts : List Tree) : Except BuildError Tree :=
  if c.isChainable = false then .error (.notChainable c)
  else if ts.length < 2 then .error (.tooFewOperands ts.length)
  else .ok (chain c ts)

/-- Two operands joined by `c`. -/
def binary (t : Tree) (c : Connective) (u : Tree) : Except BuildError Tree := ofOperands c [t, u]

/-- A chain in the making. -/
structure Builder where
  operands : List Tree
  connectives : List Connective

namespace Builder

def start (first : Tree) : Builder := ⟨[first], []⟩

def push (b : Builder) (c : Connective) (t : Tree) : Builder :=
  ⟨b.operands ++ [t], b.connectives ++ [c]⟩

/-- A first operand, and later ones behind their connectives. -/
def assemble (first : Tree) (pushed : List (Connective × Tree)) : Builder :=
  pushed.foldl (fun b p => b.push p.1 p.2) (start first)

def build (b : Builder) : Except BuildError Tree :=
  match b.connectives with
  | [] => .error (.tooFewOperands b.operands.length)
  | first :: rest =>
    match (first :: rest).find? (· ≠ first) with
    | some other => .error (.mixedConnectives first other)
    | none => ofOperands first b.operands

end Builder

theorem ofName_eq (name : String) :
    ofName name = (Variable.ofName name).map fun v => (Formula.atom v).toTree := by
  unfold ofName Variable.ofName Variable.ofName?
  split
  · rfl
  · rfl

theorem ofOperands_binary_of_le {ts : List Tree} (h : 2 ≤ ts.length) (j : Junction) :
    ofOperands (.binary j) ts = .ok (chain (.binary j) ts) := by
  rw [ofOperands, if_neg (by simp [Connective.isChainable]), if_neg (Nat.not_lt.2 h)]

theorem ofOperands_map (c : Connective) (fs : List Formula) :
    ofOperands c (fs.map Formula.toTree) = (Formula.ofOperands c fs).map Formula.toTree := by
  cases c with
  | not => rfl
  | binary j =>
    match fs with
    | [] => rfl
    | [f] => rfl
    | f :: g :: rest =>
      rw [Formula.ofOperands_binary, Except.map, Formula.toTree_chain,
        ofOperands_binary_of_le (by simp)]

end Tree

namespace ChainBuilder

/-- The same operands and connectives in two lists. -/
def toTree (b : ChainBuilder) : Tree.Builder where
  operands := (b.first :: b.pushed.map (·.2)).map Formula.toTree
  connectives := b.pushed.map (·.1)

theorem toTree_push (b : ChainBuilder) (c : Connective) (f : Formula) :
    (b.push c f).toTree = b.toTree.push c f.toTree := by
  simp [toTree, push, Tree.Builder.push]

theorem assemble_toTree (first : Formula) (pushed : List (Connective × Formula)) :
    Tree.Builder.assemble first.toTree (pushed.map fun p => (p.1, p.2.toTree)) =
      toTree ⟨first, pushed⟩ := by
  induction pushed using List.reverseRecOn with
  | nil => rfl
  | append_singleton pushed p ih =>
    rw [List.map_append, List.map_singleton, Tree.Builder.assemble, List.foldl_append,
      ← Tree.Builder.assemble, ih]
    exact (toTree_push ⟨first, pushed⟩ p.1 p.2).symm

theorem build_toTree (b : ChainBuilder) : b.toTree.build = b.build.map Formula.toTree := by
  obtain ⟨first, pushed⟩ := b
  cases pushed with
  | nil => rfl
  | cons p rest =>
    obtain ⟨c, f⟩ := p
    have hfind : (c :: rest.map (·.1)).find? (· ≠ c) = (rest.find? (·.1 ≠ c)).map (·.1) := by
      rw [List.find?_cons_of_neg (by simp), List.find?_map]
      rfl
    simp only [build, toTree, Tree.Builder.build, List.map_cons, hfind]
    cases rest.find? (·.1 ≠ c) with
    | some q => rfl
    | none => exact Tree.ofOperands_map c (first :: f :: rest.map (·.2))

end ChainBuilder

end Propositional
