import Propositional.Proofs.TruthTable.Collector
import Propositional.Proofs.TruthTable.Rows

/-!
# The outcome of a table

`rows f` is the full table of a formula: its value at every row number below two to the number of
its variables. Between two rows of the loop that fills a table the collector holds the first of
these values, as many as fit, and has counted the others (`kept`). One more row keeps it so, which
decides how the loop ends and what a table is, or why there is none (`outcome`).
-/

namespace Propositional.TruthTable

/-- The value of each variable at a row: the bit of its place. -/
def bits (vs : List Variable) (row : Nat) (v : Variable) : Bool := row.testBit (vs.idxOf v)

/-- The full table. -/
def rows (f : Formula) : List Bool :=
  (List.range (2 ^ f.vars.length)).map fun row => f.value (bits f.vars row)

/-- The collector behind the rows below `row`. -/
def kept (f : Formula) (capacity row : Nat) : Collector where
  values := ((rows f).take (min capacity row)).toArray
  capacity
  dropped := row - min capacity row

/-- The table of all rows. -/
def full (f : Formula) : TruthTable := ⟨f.vars, kept f (2 ^ f.vars.length) (2 ^ f.vars.length)⟩

/-- What a table is, or why there is none. -/
def outcome (f : Formula) (settings : Settings) : Except Error TruthTable :=
  let count := f.vars.length
  let max := min settings.maxVariables 63
  let total := 2 ^ count
  let capacity := settings.rowLimit.getD total
  if max < count then .error (.table (.tooManyVariables count max))
  else if settings.overflow = .refuse ∧ capacity < total then
    .error (.table (.capacityExceeded capacity))
  else .ok ⟨f.vars, kept f capacity total⟩

variable {f : Formula} {vs : List Variable} {overflow : Overflow} {c : Collector}
  {capacity row remaining : Nat} {b : Bool}

theorem bits_getElem (hvs : vs.Nodup) {j : Nat} (hj : j < vs.length) (row : Nat) :
    bits vs row vs[j] = row.testBit j := by
  rw [bits, hvs.idxOf_getElem]

theorem rowValuation_eq_bits (hvs : vs.Pairwise (· < ·)) {v : Variable} (hv : v ∈ vs)
    (row : Nat) : rowValuation vs row v = some (bits vs row v) := by
  obtain ⟨j, hj, rfl⟩ := List.getElem_of_mem hv
  rw [rowValuation_getElem hvs row hj, bits_getElem (Variable.nodup_of_pairwise hvs) hj]

/-- At a row every variable of a formula has a value. -/
theorem eval_rowValuation (f : Formula) (row : Nat) :
    f.eval (rowValuation f.vars row) = .ok (f.value (bits f.vars row)) :=
  Formula.eval_eq_value fun _ hv =>
    rowValuation_eq_bits f.pairwise_vars (Formula.mem_vars.2 hv) row

@[simp] theorem length_rows (f : Formula) : (rows f).length = 2 ^ f.vars.length := by simp [rows]

theorem getElem?_rows (h : row < 2 ^ f.vars.length) :
    (rows f)[row]? = some (f.value (bits f.vars row)) := by
  rw [rows, List.getElem?_map, List.getElem?_range h]
  rfl

@[simp] theorem toList_kept (f : Formula) (capacity row : Nat) :
    (kept f capacity row).toList = (rows f).take (min capacity row) := rfl

@[simp] theorem capacity_kept (f : Formula) (capacity row : Nat) :
    (kept f capacity row).capacity = capacity := rfl

@[simp] theorem dropped_kept (f : Formula) (capacity row : Nat) :
    (kept f capacity row).dropped = row - min capacity row := rfl

theorem kept_zero (f : Formula) (capacity expected : Nat) :
    kept f capacity 0 = Collector.withReserved capacity expected :=
  Collector.ext_toList (by simp) rfl (by simp [Collector.withReserved])

theorem size_kept (h : row ≤ 2 ^ f.vars.length) (capacity : Nat) :
    (kept f capacity row).size = min capacity row := by
  rw [← Collector.length_toList, toList_kept, List.length_take, length_rows]
  omega

theorem hasRoom_kept (h : row ≤ 2 ^ f.vars.length) (capacity : Nat) :
    (kept f capacity row).hasRoom = true ↔ row < capacity := by
  rw [Collector.hasRoom_iff, size_kept h, capacity_kept]
  omega

theorem take_succ_rows (h : row < 2 ^ f.vars.length) :
    (rows f).take (row + 1) = (rows f).take row ++ [f.value (bits f.vars row)] := by
  rw [← List.take_append_getElem (by simpa using h)]
  simp [rows]

theorem collected_kept (h : row ≤ 2 ^ f.vars.length) (capacity : Nat) :
    Collector.Collected capacity ((rows f).take row) (kept f capacity row) := by
  have hlen : ((rows f).take row).length = row := by
    rw [List.length_take, length_rows]
    omega
  refine ⟨rfl, ?_, ?_⟩
  · rw [toList_kept, hlen, List.take_take, Nat.min_eq_left (Nat.min_le_right capacity row)]
  · rw [hlen, size_kept h, dropped_kept]
    omega

/-- The value of the next row is kept if it fits and counted if not. -/
theorem offer_kept (h : row < 2 ^ f.vars.length) :
    (kept f capacity row).offer (f.value (bits f.vars row)) = kept f capacity (row + 1) := by
  have hnext := (collected_kept (Nat.le_of_lt h) capacity).offer (f.value (bits f.vars row))
  rw [← take_succ_rows h] at hnext
  exact hnext.eq (collected_kept h capacity)

theorem fill_succ (hb : f.eval (rowValuation vs row) = .ok b)
    (hroom : overflow = .refuse → c.hasRoom = true) :
    fill f vs overflow (remaining + 1) row c = fill f vs overflow remaining (row + 1) (c.offer b) := by
  cases overflow with
  | truncate => simp [fill, hb, Collector.tryPush]
  | refuse => simp [fill, hb, Collector.tryPush, hroom rfl]

theorem fill_full (hb : f.eval (rowValuation vs row) = .ok b) (hroom : c.hasRoom = false) :
    fill f vs .refuse (remaining + 1) row c = .error (.table (.capacityExceeded c.capacity)) := by
  simp [fill, hb, Collector.tryPush, hroom]

/-- Rows that fit, or need not, are all offered. -/
theorem fill_kept (hrows : row + remaining ≤ 2 ^ f.vars.length)
    (hfit : overflow = .refuse → row + remaining ≤ capacity) :
    fill f f.vars overflow remaining row (kept f capacity row) =
      .ok (kept f capacity (row + remaining)) := by
  induction remaining generalizing row with
  | zero => rfl
  | succ remaining ih =>
    have hroom : overflow = .refuse → (kept f capacity row).hasRoom = true := fun ho =>
      (hasRoom_kept (by omega) _).2 (by have := hfit ho; omega)
    have hfit' : overflow = .refuse → row + 1 + remaining ≤ capacity := fun ho => by
      have := hfit ho
      omega
    rw [fill_succ (eval_rowValuation f row) hroom, offer_kept (by omega), ih (by omega) hfit',
      Nat.add_right_comm, Nat.add_assoc]

/-- The first row that does not fit ends the loop. -/
theorem fill_kept_refuse (hrows : row + remaining ≤ 2 ^ f.vars.length) (hrow : row ≤ capacity)
    (hfull : capacity < row + remaining) :
    fill f f.vars .refuse remaining row (kept f capacity row) =
      .error (.table (.capacityExceeded capacity)) := by
  induction remaining generalizing row with
  | zero => omega
  | succ remaining ih =>
    by_cases hlt : row < capacity
    · rw [fill_succ (eval_rowValuation f row) fun _ => (hasRoom_kept (by omega) _).2 hlt,
        offer_kept (by omega)]
      exact ih (by omega) hlt (by omega)
    · have hroom : (kept f capacity row).hasRoom = false :=
        Bool.eq_false_iff.2 fun hr => hlt ((hasRoom_kept (by omega) _).1 hr)
      exact fill_full (eval_rowValuation f row) hroom

theorem build_eq_outcome (f : Formula) (settings : Settings) :
    build f settings = outcome f settings := by
  simp only [build_eq, outcome, Nat.one_shiftLeft]
  generalize hcapacity : settings.rowLimit.getD (2 ^ f.vars.length) = capacity
  rw [← kept_zero f]
  by_cases hmax : min settings.maxVariables 63 < f.vars.length
  · rw [if_pos hmax]
    exact if_pos hmax
  · rw [if_neg hmax, maxNumbered, if_neg hmax]
    split
    · rename_i hfull
      rw [hfull.1, fill_kept_refuse (by omega) (Nat.zero_le _) (by omega)]
      rfl
    · rename_i hfit
      rw [fill_kept (by omega) fun ho => Nat.not_lt.1 fun hlt => hfit ⟨ho, by omega⟩, Nat.zero_add]
      rfl

theorem outcome_ne_eval (f : Formula) (settings : Settings) (e : EvalError) :
    outcome f settings ≠ .error (.eval e) := by
  simp only [outcome]
  split
  · exact nofun
  · split
    · exact nofun
    · exact nofun

/-- Without a limit all rows are kept. -/
theorem toList_full (f : Formula) : (full f).values.toList = rows f := by
  simp only [full, Collector.toList, kept, Nat.min_self, ← length_rows f, List.take_length]

theorem size_full (f : Formula) : (full f).size = 2 ^ f.vars.length :=
  (size_kept (Nat.le_refl _) _).trans (Nat.min_self _)

/-- Without a limit on the rows the table is full. -/
theorem build_total {n : Nat} (h : f.vars.length ≤ min n 63) :
    build f { maxVariables := n } = .ok (full f) := by
  rw [build_eq_outcome]
  simp only [outcome, Option.getD_none, if_neg (Nat.not_lt.2 h)]
  rfl

theorem enumerate_eq (f : Formula) :
    enumerate f =
      if 30 < f.vars.length then .error (.table (.tooManyVariables f.vars.length 30))
      else .ok (rows f) := by
  rw [enumerate, build_eq_outcome]
  show (if 30 < f.vars.length then _ else _ : Except Error TruthTable).map _ = _
  split
  · rfl
  · exact congrArg Except.ok (toList_full f)

end Propositional.TruthTable
