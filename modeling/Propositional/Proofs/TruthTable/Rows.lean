import Mathlib.Algebra.Group.Nat.Defs
import Mathlib.Data.Nat.Init
import Mathlib.Logic.ExistsUnique
import Propositional.Proofs.Formula.Eval
import Propositional.Proofs.TruthTable.Search
import Propositional.TruthTable.Basic

/-!
# Rows as assignments

A row number gives each variable of a table one bit. That may be read off the place of a variable,
which the evaluator looks up among the ascending variables, or written down for all variables in
turn, and both ways agree. Below two to the number of variables, every assignment of them has one
row; from there on the rows repeat.
-/

namespace Propositional.TruthTable

variable {vs : List Variable}

theorem map_fst_rowEntries (vs : List Variable) (row : Nat) :
    (rowEntries vs row).map (·.1) = vs := by
  refine List.ext_getElem (by simp [rowEntries]) fun j _ _ => ?_
  simp [rowEntries]

theorem rowValuation_getElem (hvs : vs.Pairwise (· < ·)) (row : Nat) {j : Nat}
    (hj : j < vs.length) : rowValuation vs row vs[j] = some (row.testBit j) := by
  rw [rowValuation, search_getElem hvs hj]
  rfl

/-- The two readings of a row agree on the variables of the table. -/
theorem get?_ofList_rowEntries (hvs : vs.Pairwise (· < ·)) (row : Nat) {v : Variable}
    (hv : v ∈ vs) : (Assignment.ofList (rowEntries vs row)).get? v = rowValuation vs row v := by
  obtain ⟨j, hj, rfl⟩ := List.getElem_of_mem hv
  rw [rowValuation_getElem hvs row hj]
  refine Assignment.get?_ofList_of_mem ?_ (List.mem_mapIdx.2 ⟨j, hj, rfl⟩)
  rw [map_fst_rowEntries]
  exact Variable.nodup_of_pairwise hvs

theorem eval_rowEntries (f : Formula) (row : Nat) :
    f.eval (Assignment.ofList (rowEntries f.vars row)).get? = f.eval (rowValuation f.vars row) :=
  Formula.eval_congr fun _ hv =>
    get?_ofList_rowEntries f.pairwise_vars row (Formula.mem_vars.2 hv)

theorem rowEntries_eq_map_iff {row : Nat} {val : Variable → Bool} :
    rowEntries vs row = vs.map (fun v => (v, val v)) ↔
      ∀ j (h : j < vs.length), row.testBit j = val vs[j] := by
  constructor
  · intro h j hj
    have := congrArg (·[j]?) h
    simpa [rowEntries, hj] using this
  · intro h
    refine List.ext_getElem (by simp [rowEntries]) fun j hj _ => ?_
    have hj : j < vs.length := by simpa [rowEntries] using hj
    simp [rowEntries, h j hj]

theorem existsUnique_rowEntries_eq_map (vs : List Variable) (val : Variable → Bool) :
    ∃! row, row < 2 ^ vs.length ∧ rowEntries vs row = vs.map fun v => (v, val v) := by
  refine ⟨Nat.ofBits fun j : Fin vs.length => val vs[j], ⟨Nat.ofBits_lt_two_pow _, ?_⟩, ?_⟩
  · rw [rowEntries_eq_map_iff]
    intro j hj
    rw [Nat.testBit_ofBits_lt _ j hj]
    rfl
  · rintro row ⟨hlt, hrow⟩
    rw [rowEntries_eq_map_iff] at hrow
    calc row = row % 2 ^ vs.length := (Nat.mod_eq_of_lt hlt).symm
      _ = Nat.ofBits fun j : Fin vs.length => row.testBit j := (Nat.ofBits_testBit row _).symm
      _ = Nat.ofBits fun j : Fin vs.length => val vs[j] :=
        congrArg Nat.ofBits (funext fun j => hrow j j.isLt)

theorem rowEntries_mod (vs : List Variable) (row : Nat) :
    rowEntries vs (row % 2 ^ vs.length) = rowEntries vs row := by
  refine List.ext_getElem (by simp [rowEntries]) fun j hj _ => ?_
  have hj : j < vs.length := by simpa [rowEntries] using hj
  simp [rowEntries, hj]

end Propositional.TruthTable
