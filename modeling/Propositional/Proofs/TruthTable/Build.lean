import Propositional.Proofs.TruthTable.Outcome
import Propositional.Proofs.Variable

/-!
# What a table holds

A finished table holds the first rows of the full table, as many as fit. Its variables are those of
the formula, in the order of their bytes, and row by row the value is that of the formula at the
assignment the row stands for.
-/

namespace Propositional

namespace TruthTable

variable {f : Formula}

/-- A table is made only if its variables can be numbered, and then of all its rows. -/
theorem fill_of_build {settings : Settings} {t : TruthTable} (h : build f settings = .ok t) :
    f.vars.length ≤ min settings.maxVariables maxNumbered ∧ t.vars = f.vars ∧
      fill f f.vars settings.overflow (1 <<< f.vars.length) 0
        (.withReserved (settings.rowLimit.getD (1 <<< f.vars.length)) (1 <<< f.vars.length)) =
        .ok t.values := by
  rw [build_eq] at h
  split at h
  · cases h
  · rename_i hmax
    refine ⟨Nat.not_lt.1 hmax, ?_⟩
    generalize fill f f.vars settings.overflow (1 <<< f.vars.length) 0
      (.withReserved (settings.rowLimit.getD (1 <<< f.vars.length)) (1 <<< f.vars.length)) =
        filled at h ⊢
    cases filled with
    | error e => cases h
    | ok values =>
      cases h
      exact ⟨rfl, rfl⟩

theorem values_of_build {settings : Settings} {t : TruthTable} (h : build f settings = .ok t) :
    t.values =
      kept f (settings.rowLimit.getD (2 ^ f.vars.length)) (2 ^ f.vars.length) := by
  rw [build_eq_outcome] at h
  simp only [outcome] at h
  split at h
  · cases h
  · split at h
    · cases h
    · cases h
      rfl

theorem row_eq_getElem? (t : TruthTable) (i : Nat) : t.row i = t.values.toList[i]? := by
  rw [row, Collector.toList, Array.getElem?_toList]

theorem row_full {i : Nat} (h : i < 2 ^ f.vars.length) :
    (full f).row i = some (f.value (bits f.vars i)) := by
  rw [row_eq_getElem?, toList_full, getElem?_rows h]

/-- A kept row has the value of the formula at its assignment. -/
theorem row_of_build {settings : Settings} {t : TruthTable} (h : build f settings = .ok t) {i : Nat}
    (hi : i < t.size) :
    ∃ b, t.row i = some b ∧ f.eval (Assignment.ofList (t.assignment i)).get? = .ok b := by
  obtain ⟨-, hvars, -⟩ := fill_of_build h
  refine ⟨f.value (bits f.vars i), ?_, ?_⟩
  · rw [size, ← Collector.length_toList, values_of_build h, toList_kept, List.length_take] at hi
    rw [length_rows] at hi
    rw [row_eq_getElem?, values_of_build h, toList_kept, List.getElem?_take_of_lt (by omega),
      getElem?_rows (by omega)]
  · rw [assignment, hvars, eval_rowEntries, eval_rowValuation]

/-- A table lists the variables of its formula once, in the order of their bytes. Its rows have the
values of the formula, and every assignment of the variables is that of exactly one row number, up
to multiples of the number of assignments. -/
theorem complete_of_build {settings : Settings} {t : TruthTable} (h : build f settings = .ok t) :
    t.vars.Pairwise (fun v w => v.bytes < w.bytes) ∧
      (∀ v, v ∈ t.vars ↔ v ∈ f.leaves) ∧
      (∀ i < t.size, ∃ b, t.row i = some b ∧
        f.eval (Assignment.ofList (t.assignment i)).get? = .ok b) ∧
      (∀ val : Variable → Bool, ∃! i, i < 2 ^ t.vars.length ∧
        t.assignment i = t.vars.map fun v => (v, val v)) ∧
      ∀ i, t.assignment i = t.assignment (i % 2 ^ t.vars.length) := by
  obtain ⟨-, hvars, -⟩ := fill_of_build h
  refine ⟨?_, fun v => ?_, fun i hi => row_of_build h hi,
    existsUnique_rowEntries_eq_map t.vars, fun i => (rowEntries_mod t.vars i).symm⟩
  · rw [hvars]
    exact f.pairwise_vars.imp Variable.bytes_lt_iff.2
  · rw [hvars]
    exact Formula.mem_vars

/-- Of the four rows of an implication the first three are kept here. -/
theorem complete_three_of_four_rows :
    ∃ t, build (.chain .implies (.atom ⟨"B", by decide⟩) (.atom ⟨"A", by decide⟩) [])
        { rowLimit := some 3 } = .ok t ∧ t.size = 3 ∧
      (∀ i < t.size, ∃ b, t.row i = some b ∧
        (Formula.chain .implies (.atom ⟨"B", by decide⟩) (.atom ⟨"A", by decide⟩) []).eval
          (Assignment.ofList (t.assignment i)).get? = .ok b) ∧
      ∀ i, t.assignment i = t.assignment (i % 2 ^ t.vars.length) := by
  have h : build (.chain .implies (.atom ⟨"B", by decide⟩) (.atom ⟨"A", by decide⟩) [])
      { rowLimit := some 3 } = .ok ⟨[⟨"A", by decide⟩, ⟨"B", by decide⟩],
        { values := #[true, true, false], capacity := 3, dropped := 1 }⟩ :=
    (build_eq_outcome _ _).trans rfl
  obtain ⟨-, -, hrow, -, hmod⟩ := complete_of_build h
  exact ⟨_, h, rfl, hrow, hmod⟩

end TruthTable

end Propositional
