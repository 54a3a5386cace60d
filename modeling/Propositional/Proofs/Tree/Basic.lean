import Mathlib.Data.Set.List
import Propositional.Formula.Basic

/-!
# Unchecked trees

`Formula` has no value for a bad name, for a junction under a single operand or for a chain with
too few of them. `Tree` has: any text may stand at a leaf, any connective over one child, and any
connective over any list of operands. `WellFormed` picks out the trees that are formulas, which are
those that `Formula.toTree` gives.
-/

namespace Propositional

inductive Tree where
  | leaf (name : String)
  | unary (c : Connective) (child : Tree)
  | chain (c : Connective) (operands : List Tree)

namespace Tree

/-- The direct parts, from left to right. -/
def operands : Tree → List Tree
  | leaf _ => []
  | unary _ t => [t]
  | chain _ ts => ts

/-- Leaves have names, one child stands under negation, and at least two operands stand under any
other connective. -/
inductive WellFormed : Tree → Prop where
  | leaf {name : String} : IsName name → WellFormed (leaf name)
  | unary {t : Tree} : WellFormed t → WellFormed (unary .not t)
  | chain {j : Junction} {ts : List Tree} : 2 ≤ ts.length → (∀ t ∈ ts, WellFormed t) →
      WellFormed (chain (.binary j) ts)

end Tree

namespace Formula

/-- The tree of a formula. -/
def toTree : Formula → Tree :=
  fold (fun v => .leaf v.name) (.unary .not) fun j t u rest => .chain (.binary j) (t :: u :: rest)

@[simp] theorem toTree_atom (v : Variable) : (atom v).toTree = .leaf v.name := rfl

@[simp] theorem toTree_neg (f : Formula) : (neg f).toTree = .unary .not f.toTree := rfl

@[simp] theorem toTree_chain (j : Junction) (f g : Formula) (rest : List Formula) :
    (chain j f g rest).toTree = .chain (.binary j) ((f :: g :: rest).map toTree) := by
  simp [toTree, fold, foldAll_eq_map]

theorem wellFormed_toTree (f : Formula) : f.toTree.WellFormed := by
  induction f with
  | atom v => exact .leaf v.isName
  | neg f ih => exact .unary ih
  | chain j f g rest hf hg hr =>
    rw [toTree_chain]
    refine .chain (by simp) (List.forall_mem_map.2 ?_)
    exact List.forall_mem_cons.2 ⟨hf, List.forall_mem_cons.2 ⟨hg, hr⟩⟩

theorem operands_toTree (f : Formula) : f.toTree.operands = f.operands.map toTree := by
  cases f with
  | atom v => rfl
  | neg f => rfl
  | chain j f g rest => rw [toTree_chain, operands_chain, Tree.operands]

end Formula

namespace Tree

/-- The well-formed trees are those of formulas. -/
theorem wellFormed_iff {t : Tree} : t.WellFormed ↔ ∃ f : Formula, f.toTree = t := by
  constructor
  · intro h
    induction h with
    | @leaf name hn => exact ⟨.atom ⟨name, hn⟩, rfl⟩
    | unary _ ih =>
      obtain ⟨f, rfl⟩ := ih
      exact ⟨.neg f, rfl⟩
    | @chain j ts hlength _ ih =>
      obtain ⟨fs, rfl⟩ : ts ∈ Set.range (List.map Formula.toTree) := by
        rwa [Set.range_list_map]
      match fs, hlength with
      | f :: g :: rest, _ => exact ⟨.chain j f g rest, Formula.toTree_chain ..⟩
  · rintro ⟨f, rfl⟩
    exact f.wellFormed_toTree

end Tree

end Propositional
