import Mathlib.Data.List.DropRight
import Mathlib.Data.List.Induction
import Propositional.Proofs.Formula.Rearrangement

/-!
# The value of a chain

A conjunction is true if all of its operands are, a disjunction if some operand is. A chain of
implications is folded from the left, where a true operand makes what stands before it irrelevant
and a false one negates it. So only the false operands at the end count (`trailingFalse`): the chain
is true if their number is even.
-/

namespace Propositional

namespace Junction

/-- How many false values stand at the end. -/
def trailingFalse (bs : List Bool) : Nat := (bs.rtakeWhile (!·)).length

/-- When a chain of operands with these values is true. -/
def Holds : Junction → List Bool → Prop
  | and, bs => ∀ b ∈ bs, b = true
  | or, bs => ∃ b ∈ bs, b = true
  | implies, bs => trailingFalse bs % 2 = 0

variable {j : Junction} {a b : Bool} {bs : List Bool}

@[simp] theorem trailingFalse_concat_true (bs : List Bool) : trailingFalse (bs ++ [true]) = 0 := by
  rw [trailingFalse, List.rtakeWhile_concat_neg _ _ _ (by decide), List.length_nil]

@[simp] theorem trailingFalse_concat_false (bs : List Bool) :
    trailingFalse (bs ++ [false]) = trailingFalse bs + 1 := by
  rw [trailingFalse, List.rtakeWhile_concat_pos _ _ _ rfl, List.length_append]
  rfl

/-- A true value at the front is not among the false ones at the end. -/
theorem trailingFalse_true_cons (bs : List Bool) :
    trailingFalse (true :: bs) = trailingFalse bs := by
  induction bs using List.reverseRecOn with
  | nil => exact trailingFalse_concat_true []
  | append_singleton bs b ih =>
    rw [← List.cons_append]
    cases b with
    | true => rw [trailingFalse_concat_true, trailingFalse_concat_true]
    | false => rw [trailingFalse_concat_false, trailingFalse_concat_false, ih]

theorem applyAll_append (j : Junction) (a : Bool) (bs cs : List Bool) :
    j.applyAll a (bs ++ cs) = j.applyAll (j.applyAll a bs) cs := List.foldl_append

theorem applyAll_cons (j : Junction) (a b : Bool) (bs : List Bool) :
    j.applyAll a (b :: bs) = j.applyAll (j.apply a b) bs := rfl

/-- Each false value at the end negates what stands before it, and a true one ends their row. -/
theorem applyAll_implies_iff :
    implies.applyAll a bs = true ↔ trailingFalse (a :: bs) % 2 = 0 := by
  induction bs using List.reverseRecOn with
  | nil => cases a <;> decide
  | append_singleton bs b ih =>
    rw [applyAll_append, ← List.cons_append]
    cases b with
    | true =>
      rw [trailingFalse_concat_true]
      exact iff_of_true (Bool.or_true _) rfl
    | false =>
      have hneg : implies.applyAll (implies.applyAll a bs) [false] = !implies.applyAll a bs :=
        Bool.or_false _
      rw [hneg, trailingFalse_concat_false, Bool.not_eq_true', ← Bool.not_eq_true, ih]
      omega

theorem applyAll_eq_true_iff : j.applyAll a bs = true ↔ j.Holds (a :: bs) := by
  cases j with
  | and => rw [applyAll_and, List.all_eq_true, Holds]; rfl
  | or => rw [applyAll_or, List.any_eq_true, Holds]; rfl
  | implies => exact applyAll_implies_iff

end Junction

namespace Formula

variable {val : Valuation} {j : Junction} {fs : List Formula} {e : Formula} {b : Bool}
  {bs : List Bool}

/-- Operands with values give a chain the left fold of these. -/
theorem eval_of_ofOperands (h : ofOperands (.binary j) fs = .ok e)
    (hfs : fs.map (eval val) = (b :: bs).map .ok) : e.eval val = .ok (j.applyAll b bs) := by
  obtain ⟨f, g, rest, rfl, rfl⟩ := exists_of_ofOperands_binary h
  obtain ⟨hf, hrest⟩ := List.cons.inj hfs
  rw [eval_chain, hf, hrest, Junction.combine_ok]

/-- Where its operands have values a chain has one, and these and its connective tell which. -/
theorem eval_chain_holds {f g : Formula} {rest : List Formula}
    (h : (f :: g :: rest).map (eval val) = bs.map .ok) :
    ∃ b, (chain j f g rest).eval val = .ok b ∧ (b = true ↔ j.Holds bs) := by
  cases bs with
  | nil => cases h
  | cons b bs =>
    exact ⟨_, eval_of_ofOperands (ofOperands_binary j f g rest) h, Junction.applyAll_eq_true_iff⟩

/-- Behind the true operand two false ones stand, and the third false one does not count. -/
theorem eval_chain_holds_two_at_end :
    let k := atom ⟨"K", by decide⟩
    let l := atom ⟨"L", by decide⟩
    let val : Valuation := fun v => some (v.name == "L")
    [k, l, k, neg l].map (eval val) = [false, true, false, false].map .ok ∧
      (chain .implies k l [k, neg l]).eval val = .ok true := by
  intro k l val
  have h : [k, l, k, neg l].map (eval val) = [false, true, false, false].map .ok := rfl
  obtain ⟨b, hb, hholds⟩ := eval_chain_holds (j := .implies) h
  exact ⟨h, hholds.2 rfl ▸ hb⟩

end Formula

end Propositional
