import Propositional.Formula.Build
import Propositional.Proofs.Formula.Eval
import Propositional.Proofs.Variable

/-!
# Order and grouping of operands

`Rearranged f g`: at any places of `f` the operands of a conjunction or disjunction have been put in
another order, or an operand that is itself such a chain has given way to its own operands, or the
other way round. Neither matters to the variables of a formula or to its value. Implications keep
their operands, but these may be rearranged.
-/

namespace Propositional

namespace Junction

theorem applyAll_and (b : Bool) (bs : List Bool) : and.applyAll b bs = (b :: bs).all id := by
  induction bs generalizing b with
  | nil => simp [applyAll]
  | cons c bs ih =>
    show and.applyAll (b && c) bs = _
    rw [ih]
    simp [Bool.and_assoc]

theorem applyAll_or (b : Bool) (bs : List Bool) : or.applyAll b bs = (b :: bs).any id := by
  induction bs generalizing b with
  | nil => simp [applyAll]
  | cons c bs ih =>
    show or.applyAll (b || c) bs = _
    rw [ih]
    simp [Bool.or_assoc]

end Junction

namespace Formula

inductive Rearranged : Formula → Formula → Prop where
  | refl (f : Formula) : Rearranged f f
  | symm {f g : Formula} : Rearranged f g → Rearranged g f
  | trans {f g h : Formula} : Rearranged f g → Rearranged g h → Rearranged f h
  | neg {f g : Formula} : Rearranged f g → Rearranged (neg f) (neg g)
  | operand {j : Junction} {before after : List Formula} {f g e e' : Formula} :
      ofOperands (.binary j) (before ++ f :: after) = .ok e →
      ofOperands (.binary j) (before ++ g :: after) = .ok e' →
      Rearranged f g → Rearranged e e'
  | reorder {j : Junction} {fs gs : List Formula} {e e' : Formula} : j ≠ .implies →
      ofOperands (.binary j) fs = .ok e → ofOperands (.binary j) gs = .ok e' →
      fs.Perm gs → Rearranged e e'
  | regroup {j : Junction} {before inner after : List Formula} {g e e' : Formula} : j ≠ .implies →
      ofOperands (.binary j) inner = .ok g →
      ofOperands (.binary j) (before ++ g :: after) = .ok e →
      ofOperands (.binary j) (before ++ inner ++ after) = .ok e' → Rearranged e e'

section

variable {j : Junction} {fs gs : List Formula} {e e' : Formula} {a : Variable → Bool}

theorem exists_of_ofOperands_binary (h : ofOperands (.binary j) fs = .ok e) :
    ∃ f g rest, fs = f :: g :: rest ∧ e = chain j f g rest := by
  unfold ofOperands at h
  split at h
  · rename_i hc
    cases hc
  · rename_i f g rest hc
    cases hc
    cases h
    exact ⟨f, g, rest, rfl, rfl⟩
  · cases h

theorem leaves_of_ofOperands (h : ofOperands (.binary j) fs = .ok e) :
    e.leaves = fs.flatMap leaves := by
  obtain ⟨f, g, rest, rfl, rfl⟩ := exists_of_ofOperands_binary h
  exact leaves_chain j f g rest

/-- The value of a chain is that of its operands' values. -/
theorem value_congr_of_ofOperands (h : ofOperands (.binary j) fs = .ok e)
    (h' : ofOperands (.binary j) gs = .ok e') (hv : fs.map (value a) = gs.map (value a)) :
    e.value a = e'.value a := by
  obtain ⟨f, g, rest, rfl, rfl⟩ := exists_of_ofOperands_binary h
  obtain ⟨f', g', rest', rfl, rfl⟩ := exists_of_ofOperands_binary h'
  obtain ⟨hf, hs⟩ := List.cons.inj hv
  rw [value_chain, value_chain, hf, hs]

theorem value_conjunction (h : ofOperands (.binary .and) fs = .ok e) :
    e.value a = fs.all (value a) := by
  obtain ⟨f, g, rest, rfl, rfl⟩ := exists_of_ofOperands_binary h
  rw [value_chain, Junction.applyAll_and, ← List.map_cons, List.all_map]
  rfl

theorem value_disjunction (h : ofOperands (.binary .or) fs = .ok e) :
    e.value a = fs.any (value a) := by
  obtain ⟨f, g, rest, rfl, rfl⟩ := exists_of_ofOperands_binary h
  rw [value_chain, Junction.applyAll_or, ← List.map_cons, List.any_map]
  rfl

end

namespace Rearranged

variable {f g : Formula}

theorem mem_leaves_iff (h : Rearranged f g) (v : Variable) : v ∈ f.leaves ↔ v ∈ g.leaves := by
  induction h with
  | refl => rfl
  | symm _ ih => exact ih.symm
  | trans _ _ ih ih' => exact ih.trans ih'
  | neg _ ih => exact ih
  | operand he he' _ ih =>
    rw [leaves_of_ofOperands he, leaves_of_ofOperands he']
    simp [ih]
  | reorder _ he he' hp =>
    rw [leaves_of_ofOperands he, leaves_of_ofOperands he']
    exact (hp.flatMap_right leaves).mem_iff
  | regroup _ hg he he' =>
    rw [leaves_of_ofOperands he, leaves_of_ofOperands he']
    simp [leaves_of_ofOperands hg]

theorem value_eq (h : Rearranged f g) (a : Variable → Bool) : f.value a = g.value a := by
  induction h with
  | refl => rfl
  | symm _ ih => exact ih.symm
  | trans _ _ ih ih' => exact ih.trans ih'
  | neg _ ih => exact congrArg (!·) ih
  | operand he he' _ ih => exact value_congr_of_ofOperands he he' (by simp [ih])
  | @reorder j fs gs e e' hj he he' hp =>
    cases j with
    | and => rw [value_conjunction he, value_conjunction he', hp.all_eq]
    | or => rw [value_disjunction he, value_disjunction he', hp.any_eq]
    | implies => exact absurd rfl hj
  | @regroup j before inner after g e e' hj hg he he' =>
    cases j with
    | and =>
      rw [value_conjunction he, value_conjunction he']
      simp [value_conjunction hg]
    | or =>
      rw [value_disjunction he, value_disjunction he']
      simp [value_disjunction hg]
    | implies => exact absurd rfl hj

/-- Rearranged formulas have the same variables, in the same order. -/
theorem vars_eq (h : Rearranged f g) : f.vars = g.vars :=
  Variable.eq_of_pairwise f.pairwise_vars g.pairwise_vars fun v => by
    rw [mem_vars, mem_vars, h.mem_leaves_iff]

end Rearranged

end Formula

end Propositional
