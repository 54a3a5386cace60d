import Propositional.Proofs.Formula.Rearrangement
import Propositional.Proofs.TruthTable.Outcome

/-!
# Tables of rearranged formulas

A table shows nothing of how the conjunctions and disjunctions of its formula are ordered and
grouped. Its rows are numbered by the variables and hold the values of the formula, and neither
changes, so every setting makes of a rearranged formula the same table or the same error.
-/

namespace Propositional.TruthTable

variable {f g : Formula}

theorem rows_eq_of_rearranged (h : f.Rearranged g) : rows f = rows g := by
  rw [rows, rows, h.vars_eq]
  exact List.map_congr_left fun row _ => h.value_eq _

theorem kept_eq_of_rearranged (h : f.Rearranged g) (capacity row : Nat) :
    kept f capacity row = kept g capacity row := by
  rw [kept, kept, rows_eq_of_rearranged h]

/-- Rearranged formulas have the same table, or the same error in place of one. -/
theorem build_eq_of_rearranged (h : f.Rearranged g) (settings : Settings) :
    build f settings = build g settings := by
  simp only [build_eq_outcome, outcome, h.vars_eq, kept_eq_of_rearranged h]

/-- An operand of an implication whose conjunctions are regrouped and reordered under a negation. -/
theorem build_eq_of_regrouped_premise :
    let w : Formula := .atom ⟨"W", by decide⟩
    let x : Formula := .atom ⟨"X", by decide⟩
    let y : Formula := .atom ⟨"Y", by decide⟩
    let f : Formula := .chain .implies (.neg (.chain .and w (.chain .and y x []) [])) x []
    let g : Formula := .chain .implies (.neg (.chain .and x y [w])) x []
    f.Rearranged g ∧ build f { rowLimit := some 5 } = build g { rowLimit := some 5 } ∧
      (build g { rowLimit := some 5 }).toOption.map (·.values.toList) =
        some [false, false, true, true, false] := by
  intro w x y f g
  have hgroup : Formula.Rearranged (.chain .and w (.chain .and y x []) []) (.chain .and w y [x]) :=
    @Formula.Rearranged.regroup .and [w] [y, x] [] _ _ _ nofun rfl rfl rfl
  have horder : Formula.Rearranged (.chain .and w y [x]) (.chain .and x y [w]) :=
    @Formula.Rearranged.reorder .and [w, y, x] [x, y, w] _ _ nofun rfl rfl (by decide)
  have h : f.Rearranged g :=
    @Formula.Rearranged.operand .implies [] [x] _ _ _ _ rfl rfl (hgroup.trans horder).neg
  exact ⟨h, build_eq_of_rearranged h _, by decide +kernel⟩

end Propositional.TruthTable
