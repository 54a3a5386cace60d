import Mathlib.Data.Fintype.EquivFin
import Propositional.Proofs.Formula.Renaming
import Propositional.Proofs.TruthTable.Build

/-!
# Tables of renamed formulas

Renaming takes the variables of a table to other places, since they are ordered by name. So bit `j`
of a row number becomes bit `p j`, for a permutation `p` of the places, and the value at a row is
found at the row number with its bits moved so (`moveBits`). If the new names are in the order of
the old ones the values are the same, row by row.
-/

namespace Propositional.TruthTable

variable {f : Formula} {r : Variable → Variable} {vs : List Variable} {n row : Nat}

/-- The row number with bit `j` of `row` as bit `p j`. -/
def moveBits (p : Equiv.Perm (Fin n)) (row : Nat) : Nat :=
  Nat.ofBits fun k => row.testBit (p.symm k)

theorem moveBits_lt (p : Equiv.Perm (Fin n)) (row : Nat) : moveBits p row < 2 ^ n :=
  Nat.ofBits_lt_two_pow _

theorem testBit_moveBits (p : Equiv.Perm (Fin n)) (row : Nat) (j : Fin n) :
    (moveBits p row).testBit (p j) = row.testBit j := by
  rw [moveBits, Nat.testBit_ofBits_lt _ _ (p j).isLt, Fin.eta, Equiv.symm_apply_apply]

/-- The place of a variable in the table of the renamed formula. -/
def newPlace (r : Variable → Variable) (f : Formula) (j : Fin f.vars.length) : Nat :=
  (f.rename r).vars.idxOf (r f.vars[j])

theorem getElem_mem_vars_rename (r : Variable → Variable) (f : Formula) (j : Fin f.vars.length) :
    r f.vars[j] ∈ (f.rename r).vars :=
  Formula.mem_vars_rename.2 ⟨_, List.getElem_mem j.isLt, rfl⟩

theorem getElem?_newPlace (r : Variable → Variable) (f : Formula) (j : Fin f.vars.length) :
    (f.rename r).vars[newPlace r f j]? = some (r f.vars[j]) :=
  List.getElem?_idxOf (getElem_mem_vars_rename r f j)

theorem newPlace_lt (hr : Set.InjOn r {v | v ∈ f.vars}) (j : Fin f.vars.length) :
    newPlace r f j < f.vars.length :=
  Formula.length_vars_rename hr ▸ List.idxOf_lt_length_of_mem (getElem_mem_vars_rename r f j)

/-- No two variables come to the same place. -/
theorem newPlace_inj (hr : Set.InjOn r {v | v ∈ f.vars}) {j k : Fin f.vars.length}
    (h : newPlace r f j = newPlace r f k) : j = k := by
  have hnew : r f.vars[j] = r f.vars[k] := by
    rw [← Option.some.injEq, ← getElem?_newPlace, ← getElem?_newPlace, h]
  have hold : f.vars[j] = f.vars[k] := hr (List.getElem_mem j.isLt) (List.getElem_mem k.isLt) hnew
  exact Fin.ext ((f.nodup_vars.getElem_inj_iff).1 hold)

/-- The new places are the old ones in another order. -/
theorem exists_perm_newPlace (hr : Set.InjOn r {v | v ∈ f.vars}) :
    ∃ p : Equiv.Perm (Fin f.vars.length), ∀ j, (p j : Nat) = newPlace r f j := by
  have hinj : Function.Injective fun j => (⟨newPlace r f j, newPlace_lt hr j⟩ : Fin _) :=
    fun _ _ h => newPlace_inj hr (congrArg Fin.val h)
  exact ⟨Equiv.ofBijective _ (Finite.injective_iff_bijective.1 hinj), fun _ => rfl⟩

/-- A renaming that keeps the order of the variables keeps their places. -/
theorem newPlace_of_strictMono (h : ∀ v ∈ f.vars, ∀ w ∈ f.vars, v < w → r v < r w)
    (j : Fin f.vars.length) : newPlace r f j = j := by
  have hvars := Formula.vars_rename_of_strictMono h
  have hnodup : (f.vars.map r).Nodup := hvars ▸ (f.rename r).nodup_vars
  have hidx := hnodup.idxOf_getElem j (by simp)
  rw [List.getElem_map] at hidx
  rw [newPlace, hvars]
  exact hidx

/-- At rows where the old and the new place of each variable have the same bit, a formula and the
renamed one have the same value. -/
theorem value_rename_eq {row' : Nat}
    (h : ∀ j, row'.testBit (newPlace r f j) = row.testBit j) :
    (f.rename r).value (bits (f.rename r).vars row') = f.value (bits f.vars row) := by
  rw [Formula.value_rename]
  refine Formula.value_congr fun v hv => ?_
  obtain ⟨j, hj, rfl⟩ := List.getElem_of_mem (Formula.mem_vars.2 hv)
  exact (h ⟨j, hj⟩).trans (bits_getElem f.nodup_vars hj row).symm

/-- If the order of the variables is kept, so are the rows. -/
theorem rows_rename_of_strictMono (h : ∀ v ∈ f.vars, ∀ w ∈ f.vars, v < w → r v < r w) :
    rows (f.rename r) = rows f := by
  have hvars := Formula.vars_rename_of_strictMono h
  rw [rows, rows, hvars, List.length_map, ← hvars]
  refine List.map_congr_left fun row _ => value_rename_eq fun j => ?_
  rw [newPlace_of_strictMono h]

/-- With other names for its variables a formula has a table with the same rows in another order:
there is a permutation of the places of variables that takes the bits of each row number to those of
the row with the same value. If the names keep their order the rows do too. -/
theorem build_rename (hvars : f.vars.length ≤ 30) (hr : Set.InjOn r {v | v ∈ f.vars}) :
    ∃ t t', build f = .ok t ∧ build (f.rename r) = .ok t' ∧
      t.size = 2 ^ t.vars.length ∧ t'.size = t.size ∧
      (∃ p : Equiv.Perm (Fin t.vars.length),
        (∀ j, t'.vars[p j]? = some (r t.vars[j])) ∧
        ∀ i < t.size, moveBits p i < t'.size ∧
          (∀ j, (moveBits p i).testBit (p j) = i.testBit j) ∧
          t'.row (moveBits p i) = t.row i) ∧
      ((∀ v ∈ f.vars, ∀ w ∈ f.vars, v.bytes < w.bytes → (r v).bytes < (r w).bytes) →
        t'.values = t.values) := by
  have hlen : (f.rename r).vars.length = f.vars.length := Formula.length_vars_rename hr
  have hsize : (full (f.rename r)).size = (full f).size := by rw [size_full, size_full, hlen]
  refine ⟨full f, full (f.rename r), build_total (by omega), build_total (by omega), size_full f,
    hsize, ?_, fun h => ?_⟩
  · obtain ⟨p, hp⟩ := exists_perm_newPlace hr
    have hplaces (j) : (f.rename r).vars[p j]? = some (r f.vars[j]) := by
      rw [Fin.getElem?_fin, hp]
      exact getElem?_newPlace r f j
    refine ⟨p, hplaces, fun i hi => ?_⟩
    have hmoved : moveBits p i < (full (f.rename r)).size := by
      rw [size_full, hlen]
      exact moveBits_lt p i
    have hvalue := value_rename_eq fun j => hp j ▸ testBit_moveBits p i j
    refine ⟨hmoved, testBit_moveBits p i, ?_⟩
    rw [size_full] at hmoved hi
    exact (row_full hmoved).trans ((congrArg some hvalue).trans (row_full hi).symm)
  · have hrows : rows (f.rename r) = rows f := by
      refine rows_rename_of_strictMono fun v hv w hw hlt => ?_
      exact Variable.bytes_lt_iff.1 (h v hv w hw (Variable.bytes_lt_iff.2 hlt))
    rw [full, full, kept, kept, hrows, hlen]

/-- `G` and `H` renamed to `x2` and `x10` change places. -/
theorem build_rename_x10_before_x2 :
    let g : Variable := ⟨"G", by decide⟩
    let h : Variable := ⟨"H", by decide⟩
    let x2 : Variable := ⟨"x2", by decide⟩
    let x10 : Variable := ⟨"x10", by decide⟩
    let f : Formula := .chain .implies (.atom g) (.atom h) []
    let r : Variable → Variable := fun v => if v = g then x2 else x10
    f.vars.length ≤ 30 ∧ Set.InjOn r {v | v ∈ f.vars} ∧
      ∃ t t', build f = .ok t ∧ build (f.rename r) = .ok t' ∧
        t.vars = [g, h] ∧ t'.vars = [x10, x2] ∧
        ∃ p : Equiv.Perm (Fin t.vars.length), ∀ i < t.size, t'.row (moveBits p i) = t.row i := by
  intro g h x2 x10 f r
  have hvars : f.vars = [g, h] := by decide
  have hlen : f.vars.length ≤ 30 := by decide
  have hr : Set.InjOn r {v | v ∈ f.vars} := by
    have hinj : ∀ v ∈ [g, h], ∀ w ∈ [g, h], r v = r w → v = w := by decide
    exact fun v hv w hw => hinj v (hvars ▸ hv) w (hvars ▸ hw)
  have hold : build f =
      .ok ⟨[g, h], { values := #[true, false, true, true], capacity := 4 }⟩ := by
    decide +kernel
  have hnew : build (f.rename r) =
      .ok ⟨[x10, x2], { values := #[true, true, false, true], capacity := 4 }⟩ := by
    decide +kernel
  obtain ⟨t, t', ht, ht', -, -, ⟨p, -, hrow⟩, -⟩ := build_rename hlen hr
  obtain rfl := Except.ok.inj (hold.symm.trans ht)
  obtain rfl := Except.ok.inj (hnew.symm.trans ht')
  exact ⟨hlen, hr, _, _, hold, hnew, rfl, rfl, p, fun i hi => (hrow i hi).2.2⟩

end Propositional.TruthTable
