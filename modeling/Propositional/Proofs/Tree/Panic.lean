import Mathlib.Data.List.Dedup
import Propositional.Formula.Text
import Propositional.Proofs.TruthTable.Outcome
import Propositional.Proofs.Tree.Basic
import Propositional.TruthTable.Storage

/-!
# What trees are used for

Evaluating, printing and tabulating a tree does not ask whether it is a formula. It takes the first
operand of a chain, folds with the chain's connective and applies that of a unary node, and where
one of these cannot be done it ends in a panic. The tree of a formula never does: its value, its
text and its table are those of the formula, and so are the errors. A block of storage may still be
refused to its table, as to that of the formula; this is no `Panic` but a stop of its own.
-/

namespace Propositional

/-- What cannot be done with a tree. -/
inductive Panic where
  /-- taking the first operand of none -/
  | noOperand
  | arity (e : ArityError)
  deriving DecidableEq, Repr

/-- Why there is no result. -/
inductive Stop where
  | missing (name : String)
  | table (e : TableError)
  /-- there is no block for the values of a table -/
  | storage (e : StorageError)
  | panic (p : Panic)
  deriving DecidableEq, Repr

/-- A variable without a value, by its name. -/
def Stop.ofEval : EvalError → Stop
  | .missing v => .missing v.name

namespace Tree

mutual

/-- The value where names have these values. -/
def eval (val : String → Option Bool) : Tree → Except Stop Bool
  | leaf name =>
    match val name with
    | some b => .ok b
    | none => .error (.missing name)
  | unary c t => do
    let b ← t.eval val
    (c.applyUnary b).mapError fun e => .panic (.arity e)
  | chain _ [] => .error (.panic .noOperand)
  | chain c (t :: ts) => do evalRest val c (← t.eval val) ts

/-- The value of a chain behind operands that have been folded to `acc`. -/
def evalRest (val : String → Option Bool) (c : Connective) (acc : Bool) :
    List Tree → Except Stop Bool
  | [] => .ok acc
  | t :: ts => do
    let b ← t.eval val
    let acc ← (c.reduce acc b).mapError fun e => .panic (.arity e)
    evalRest val c acc ts

end

mutual

/-- The tokens of the printed form. -/
def tokens : Tree → Except Stop (List Token)
  | leaf name => .ok [.ident name]
  | unary c t => do return .lparen :: .op c :: (← t.tokens) ++ [.rparen]
  | chain _ [] => .error (.panic .noOperand)
  | chain c (t :: ts) => do return .lparen :: (← t.tokens) ++ (← tokensRest c ts) ++ [.rparen]

def tokensRest (c : Connective) : List Tree → Except Stop (List Token)
  | [] => .ok []
  | t :: ts => do return .op c :: (← t.tokens) ++ (← tokensRest c ts)

end

/-- The printed form. -/
def text (t : Tree) : Except Stop String := t.tokens.map Token.line

mutual

/-- The names at the leaves, from left to right. -/
def names : Tree → List String
  | leaf name => [name]
  | unary _ t => t.names
  | chain _ ts => namesAll ts

def namesAll : List Tree → List String
  | [] => []
  | t :: ts => t.names ++ namesAll ts

end

/-- The distinct names, ascending. -/
def columns (t : Tree) : List String := t.names.dedup.mergeSort fun s u => decide (s ≤ u)

/-- A row as values of names: each has the bit of its place. -/
def rowValues (columns : List String) (row : Nat) (name : String) : Option Bool :=
  (search columns name).map row.testBit

/-- Evaluates `remaining` rows from `row` on and offers their values to the collector. -/
def fill (t : Tree) (columns : List String) (overflow : Overflow) (remaining row : Nat)
    (values : Collector) : Except Stop Collector :=
  match remaining with
  | 0 => .ok values
  | remaining + 1 => do
    let b ← t.eval (rowValues columns row)
    match overflow, values.tryPush b with
    | .refuse, (.error e, _) => .error (.table e)
    | _, (_, values) => t.fill columns overflow remaining (row + 1) values

/-- The columns of the table and the values of the rows that are kept. -/
def table (t : Tree) (settings : TruthTable.Settings) : Except Stop (List String × Collector) :=
  let columns := t.columns
  let max := min settings.maxVariables TruthTable.maxNumbered
  if max < columns.length then .error (.table (.tooManyVariables columns.length max))
  else do
    let rows := 1 <<< columns.length
    let room ← (Collector.allocate (settings.rowLimit.getD rows) rows).mapError .storage
    (t.fill columns settings.overflow rows 0 room).map fun values => (columns, values)

/-- The table of a tree whose formula has this table. -/
def ofBuilt (built : Except StorageError (Except TableError TruthTable)) :
    Except Stop (List String × Collector) := do
  let r ← built.mapError .storage
  (r.map fun t => (t.vars.map (·.name), t.values)).mapError .table

/-- A chain without operands cannot be evaluated. -/
example (val : String → Option Bool) :
    eval val (chain (.binary .and) []) = .error (.panic .noOperand) := rfl

end Tree

namespace Formula

open Propositional.Tree

variable {val : String → Option Bool} {j : Junction} {fs : List Formula}

theorem evalRest_map_toTree
    (h : ∀ f ∈ fs, f.toTree.eval val = (f.eval fun v => val v.name).mapError .ofEval) (acc : Bool) :
    evalRest val (.binary j) acc (fs.map toTree) =
      (j.combine (.ok acc) (fs.map (eval fun v => val v.name))).mapError .ofEval := by
  induction fs generalizing acc with
  | nil => rfl
  | cons f fs ih =>
    have ⟨hf, hfs⟩ := List.forall_mem_cons.1 h
    rw [List.map_cons, evalRest, hf, List.map_cons]
    cases f.eval fun v => val v.name with
    | error e => rfl
    | ok b => exact ih hfs (j.apply acc b)

/-- The value of a formula, or the same variable without one. -/
theorem eval_toTree (f : Formula) (val : String → Option Bool) :
    f.toTree.eval val = (f.eval fun v => val v.name).mapError .ofEval := by
  induction f with
  | atom v =>
    rw [toTree_atom, Tree.eval]
    cases h : val v.name with
    | some b => rw [eval_atom h]; rfl
    | none => rw [eval_atom_missing h]; rfl
  | neg f ih =>
    rw [toTree_neg, Tree.eval, ih, eval_neg]
    cases f.eval fun v => val v.name with
    | error e => rfl
    | ok b => rfl
  | chain j f g rest hf hg hr =>
    have hrest := evalRest_map_toTree (j := j) (List.forall_mem_cons.2 ⟨hg, hr⟩)
    rw [toTree_chain, List.map_cons, Tree.eval, hf, eval_chain]
    cases f.eval fun v => val v.name with
    | error e => rfl
    | ok b => exact hrest b

theorem tokensRest_map_toTree (h : ∀ f ∈ fs, f.toTree.tokens = .ok f.tokens) :
    tokensRest (.binary j) (fs.map toTree) =
      .ok (fs.flatMap fun f => .op (.binary j) :: f.tokens) := by
  induction fs with
  | nil => rfl
  | cons f fs ih =>
    have ⟨hf, hfs⟩ := List.forall_mem_cons.1 h
    rw [List.map_cons, tokensRest, hf, ih hfs]
    rfl

theorem tokens_toTree (f : Formula) : f.toTree.tokens = .ok f.tokens := by
  induction f with
  | atom v => rfl
  | neg f ih =>
    rw [toTree_neg, Tree.tokens, ih, tokens_neg]
    rfl
  | chain j f g rest hf hg hr =>
    have hrest := tokensRest_map_toTree (j := j) (List.forall_mem_cons.2 ⟨hg, hr⟩)
    rw [toTree_chain, List.map_cons, Tree.tokens, hf, hrest, tokens_chain]
    rfl

theorem text_toTree (f : Formula) : f.toTree.text = .ok f.text := by
  rw [Tree.text, tokens_toTree]
  rfl

theorem namesAll_map_toTree (h : ∀ f ∈ fs, f.toTree.names = f.leaves.map (·.name)) :
    namesAll (fs.map toTree) = (fs.flatMap leaves).map (·.name) := by
  induction fs with
  | nil => rfl
  | cons f fs ih =>
    have ⟨hf, hfs⟩ := List.forall_mem_cons.1 h
    rw [List.map_cons, namesAll, hf, ih hfs, List.flatMap_cons, List.map_append]

theorem names_toTree (f : Formula) : f.toTree.names = f.leaves.map (·.name) := by
  induction f with
  | atom v => rfl
  | neg f ih => rw [toTree_neg, names, ih, leaves_neg]
  | chain j f g rest hf hg hr =>
    rw [toTree_chain, names, leaves_chain]
    exact namesAll_map_toTree (List.forall_mem_cons.2 ⟨hf, List.forall_mem_cons.2 ⟨hg, hr⟩⟩)

theorem columns_toTree (f : Formula) : f.toTree.columns = f.vars.map (·.name) := by
  have hmem : ∀ s, s ∈ f.toTree.columns ↔ s ∈ f.vars.map (·.name) := fun s => by
    simp [columns, names_toTree, mem_vars]
  have hnodup : f.toTree.columns.Nodup :=
    (List.mergeSort_perm _ _).nodup_iff.2 (List.nodup_dedup _)
  have hsorted : f.toTree.columns.Pairwise (· ≤ ·) := by
    refine List.Pairwise.imp of_decide_eq_true (List.pairwise_mergeSort ?_ ?_ _)
    · intro s u w hsu huw
      exact decide_eq_true (String.le_trans (of_decide_eq_true hsu) (of_decide_eq_true huw))
    · intro s u
      simpa using String.le_total s u
  have hvars : (f.vars.map (·.name)).Pairwise (· < ·) := List.pairwise_map.2 f.pairwise_vars
  refine List.Perm.eq_of_pairwise ?_ hsorted (hvars.imp Std.le_of_lt) ?_
  · exact fun s u _ _ => String.le_antisymm
  · exact (List.perm_ext_iff_of_nodup hnodup (hvars.imp fun h => String.ne_of_lt h)).2 hmem

theorem rowValues_map_name {vs : List Variable} (hvs : vs.Pairwise (· < ·)) (row : Nat)
    (v : Variable) :
    rowValues (vs.map (·.name)) row v.name = TruthTable.rowValuation vs row v := by
  have hname : (fun w : Variable => w.name == v.name) = fun w => w == v := by
    funext w
    exact Bool.eq_iff_iff.2 (by simpa using ⟨Variable.ext_name, congrArg Variable.name⟩)
  have hidx : (vs.map (·.name)).idxOf? v.name = vs.idxOf? v := by
    rw [List.idxOf?, List.findIdx?_map, List.idxOf?]
    exact congrArg (List.findIdx? · vs) hname
  have hnames : (vs.map (·.name)).Pairwise (· < ·) := List.pairwise_map.2 hvs
  rw [rowValues, search_eq_idxOf? hnames, hidx, TruthTable.rowValuation, search_eq_idxOf? hvs]

/-- At a row every name of a formula has a value. -/
theorem eval_rowValues (f : Formula) (row : Nat) :
    f.toTree.eval (rowValues (f.vars.map (·.name)) row) =
      .ok (f.value (TruthTable.bits f.vars row)) := by
  simp only [eval_toTree, rowValues_map_name f.pairwise_vars]
  exact congrArg (Except.mapError Stop.ofEval) (TruthTable.eval_rowValuation f row)

theorem fill_toTree (f : Formula) (overflow : Overflow) (remaining row : Nat)
    (values : Collector) :
    ∃ r : Except TableError Collector,
      TruthTable.fill f f.vars overflow remaining row values = r.mapError .table ∧
        f.toTree.fill (f.vars.map (·.name)) overflow remaining row values = r.mapError .table := by
  induction remaining generalizing row values with
  | zero => exact ⟨.ok values, rfl, rfl⟩
  | succ remaining ih =>
    rw [TruthTable.fill, Tree.fill, TruthTable.eval_rowValuation, eval_rowValues]
    simp only [bind, Except.bind]
    generalize values.tryPush (f.value (TruthTable.bits f.vars row)) = pushed
    obtain ⟨stored, values⟩ := pushed
    cases overflow with
    | truncate => exact ih _ _
    | refuse =>
      cases stored with
      | error e => exact ⟨.error e, rfl, rfl⟩
      | ok _ => exact ih _ _

/-- The table of a formula, or the same error. -/
theorem table_toTree (f : Formula) (settings : TruthTable.Settings) :
    ∃ built : Except StorageError (Except TableError TruthTable),
      TruthTable.buildInStorage f settings = built.map (Except.mapError .table) ∧
        f.toTree.table settings = ofBuilt built := by
  simp only [TruthTable.buildInStorage, TruthTable.buildIn, Tree.table, columns_toTree,
    List.length_map]
  split
  · exact ⟨.ok (.error (.tooManyVariables _ _)), rfl, rfl⟩
  · cases Collector.allocate (settings.rowLimit.getD (1 <<< f.vars.length))
        (1 <<< f.vars.length) with
    | error e => exact ⟨.error e, rfl, rfl⟩
    | ok room =>
      obtain ⟨r, hbuild, htable⟩ :=
        fill_toTree f settings.overflow (1 <<< f.vars.length) 0 room
      simp only [Except.mapError, bind, Except.bind, hbuild, htable]
      refine ⟨.ok (r.map fun values => ⟨f.vars, values⟩), ?_⟩
      cases r with
      | error e => exact ⟨rfl, rfl⟩
      | ok values => exact ⟨rfl, rfl⟩

end Formula

end Propositional
