import Propositional.Connective
import Propositional.Variable

/-!
# Formulas

A formula is a variable, a negation, or a chain: a run of at least two operands joined by one
connective, so that `A AND B AND C` is one node. The type holds the first two operands apart from
the rest, hence a chain always has enough of them and always a connective that can join them.
Chains are not flattened: an operand may be a chain of the same connective.

`fold` is recursion on formulas. `size`, `depth` and `leaves` are folds, and so are the printer and
the evaluator.
-/

namespace Propositional

inductive Formula where
  | atom (v : Variable)
  | neg (f : Formula)
  | chain (j : Junction) (first second : Formula) (rest : List Formula)

namespace Formula

mutual

/-- Replaces the atoms, negations and chains of a formula by the given operations. -/
def fold {α : Type} (onAtom : Variable → α) (onNeg : α → α)
    (onChain : Junction → α → α → List α → α) : Formula → α
  | atom v => onAtom v
  | neg f => onNeg (fold onAtom onNeg onChain f)
  | chain j f g rest =>
    onChain j (fold onAtom onNeg onChain f) (fold onAtom onNeg onChain g)
      (foldAll onAtom onNeg onChain rest)

def foldAll {α : Type} (onAtom : Variable → α) (onNeg : α → α)
    (onChain : Junction → α → α → List α → α) : List Formula → List α
  | [] => []
  | f :: rest => fold onAtom onNeg onChain f :: foldAll onAtom onNeg onChain rest

end

theorem foldAll_eq_map {α : Type} (onAtom : Variable → α) (onNeg : α → α)
    (onChain : Junction → α → α → List α → α) (fs : List Formula) :
    foldAll onAtom onNeg onChain fs = fs.map (fold onAtom onNeg onChain) := by
  induction fs with
  | nil => rfl
  | cons f fs ih => rw [foldAll, ih, List.map_cons]

mutual

/-- Two formulas are equal if they are the same tree. -/
def same : Formula → Formula → Bool
  | atom v, atom w => v == w
  | neg f, neg g => same f g
  | chain j f g rest, chain j' f' g' rest' =>
    j == j' && (same f f' && (same g g' && sameAll rest rest'))
  | _, _ => false

def sameAll : List Formula → List Formula → Bool
  | [], [] => true
  | f :: fs, g :: gs => same f g && sameAll fs gs
  | _, _ => false

end

/-- Induction where every operand of a chain is known to have the property. -/
@[induction_eliminator]
theorem induction {motive : Formula → Prop} (atom : ∀ v, motive (atom v))
    (neg : ∀ f, motive f → motive (neg f))
    (chain : ∀ j f g rest, motive f → motive g → (∀ h ∈ rest, motive h) →
      motive (chain j f g rest)) (f : Formula) : motive f :=
  Formula.rec (motive_1 := motive) (motive_2 := fun fs => ∀ h ∈ fs, motive h) atom neg chain
    (fun _ h => nomatch h)
    (fun _ _ hf hfs _ h => (List.mem_cons.1 h).elim (fun e => e ▸ hf) (hfs _)) f

mutual

theorem same_eq_true_iff : ∀ f g : Formula, same f g = true ↔ f = g
  | atom v, g => by cases g <;> simp [same]
  | neg f, g => by cases g <;> simp [same, same_eq_true_iff f]
  | chain j f g rest, h => by
    cases h <;>
      simp [same, same_eq_true_iff f, same_eq_true_iff g, sameAll_eq_true_iff rest]

theorem sameAll_eq_true_iff : ∀ fs gs : List Formula, sameAll fs gs = true ↔ fs = gs
  | [], gs => by cases gs <;> simp [sameAll]
  | f :: fs, gs => by
    cases gs <;> simp [sameAll, same_eq_true_iff f, sameAll_eq_true_iff fs]

end

instance : DecidableEq Formula := fun f g => decidable_of_iff _ (same_eq_true_iff f g)

/-- The direct parts, from left to right. -/
def operands : Formula → List Formula
  | atom _ => []
  | neg f => [f]
  | chain _ f g rest => f :: g :: rest

/-- The connective at the root. -/
def connective? : Formula → Option Connective
  | atom _ => none
  | neg _ => some .not
  | chain j _ _ _ => some (.binary j)

def isAtom : Formula → Bool
  | atom _ => true
  | _ => false

/-- A connective at the root with at most two operands. -/
def isSimple : Formula → Bool
  | atom _ => false
  | neg _ => true
  | chain _ _ _ rest => rest.isEmpty

/-- Number of nodes. -/
def size : Formula → Nat :=
  fold (fun _ => 1) (fun n => 1 + n) fun _ m n rest => 1 + (m :: n :: rest).foldr (· + ·) 0

/-- Edges on the longest way down to an atom. -/
def depth : Formula → Nat :=
  fold (fun _ => 0) (fun n => 1 + n) fun _ m n rest => 1 + (m :: n :: rest).foldr max 0

/-- The variables at the leaves, from left to right. -/
def leaves : Formula → List Variable :=
  fold (fun v => [v]) id fun _ vs ws rest => (vs :: ws :: rest).flatten

/-- The distinct variables, ascending. -/
def vars (f : Formula) : List Variable := Variable.distinct f.leaves

/-- Operands joined by `j`; a single one stands for itself. -/
def join (j : Junction) (first : Formula) : List Formula → Formula
  | [] => first
  | second :: rest => chain j first second rest

@[simp] theorem size_atom (v : Variable) : (atom v).size = 1 := rfl

@[simp] theorem size_neg (f : Formula) : (neg f).size = 1 + f.size := rfl

@[simp] theorem size_chain (j : Junction) (f g : Formula) (rest : List Formula) :
    (chain j f g rest).size = 1 + ((f :: g :: rest).map size).foldr (· + ·) 0 := by
  simp [size, fold, foldAll_eq_map]

@[simp] theorem depth_atom (v : Variable) : (atom v).depth = 0 := rfl

@[simp] theorem depth_neg (f : Formula) : (neg f).depth = 1 + f.depth := rfl

@[simp] theorem depth_chain (j : Junction) (f g : Formula) (rest : List Formula) :
    (chain j f g rest).depth = 1 + ((f :: g :: rest).map depth).foldr max 0 := by
  simp [depth, fold, foldAll_eq_map]

@[simp] theorem leaves_atom (v : Variable) : (atom v).leaves = [v] := rfl

@[simp] theorem leaves_neg (f : Formula) : (neg f).leaves = f.leaves := rfl

@[simp] theorem leaves_chain (j : Junction) (f g : Formula) (rest : List Formula) :
    (chain j f g rest).leaves = (f :: g :: rest).flatMap leaves := by
  simp [leaves, fold, foldAll_eq_map, List.flatMap]

theorem mem_leaves_join {j : Junction} {f : Formula} {fs : List Formula} {v : Variable} :
    v ∈ (join j f fs).leaves ↔ v ∈ f.leaves ∨ ∃ g ∈ fs, v ∈ g.leaves := by
  cases fs with
  | nil => simp [join]
  | cons g fs => simp [join]

@[simp] theorem operands_chain (j : Junction) (f g : Formula) (rest : List Formula) :
    (chain j f g rest).operands = f :: g :: rest := rfl

theorem isSimple_iff {f : Formula} :
    f.isSimple = true ↔ ∃ c, f.connective? = some c ∧ f.operands.length ≤ 2 := by
  cases f with
  | atom v => simp [isSimple, connective?]
  | neg f => simp [isSimple, connective?, operands]
  | chain j f g rest => cases rest <;> simp [isSimple, connective?, operands]

theorem mem_vars {f : Formula} {v : Variable} : v ∈ f.vars ↔ v ∈ f.leaves :=
  Variable.mem_distinct

theorem pairwise_vars (f : Formula) : f.vars.Pairwise (· < ·) :=
  Variable.pairwise_distinct _

end Formula

end Propositional
