import Propositional.Proofs.TruthTable.Outcome

/-!
# Tables in 64-bit words

A table of at most 63 variables can be made with 64-bit words: no shift is by a whole word, the bits
of a row are those of the word, and in every call of the loop (`Reached`) the row number and what
the collector counts leave room for one more. So its outcome in words is the one in numbers.
-/

namespace Propositional.TruthTable

/-- The calls that the loop over the rows makes for a table of `f`: how many rows remain, the next
one, and the collector. -/
inductive Reached (f : Formula) (settings : Settings) : Nat → Nat → Collector → Prop where
  | first :
      Reached f settings (1 <<< f.vars.length) 0
        (.withReserved (settings.rowLimit.getD (1 <<< f.vars.length)) (1 <<< f.vars.length))
  | next {remaining row : Nat} {c : Collector} {b : Bool} :
      Reached f settings (remaining + 1) row c → f.eval (rowValuation f.vars row) = .ok b →
      (settings.overflow = .refuse → c.hasRoom = true) →
      Reached f settings remaining (row + 1) (c.offer b)

/-- Making a table of `f` stays within 64-bit words. -/
structure FitsWord64 (f : Formula) (settings : Settings) : Prop where
  /-- the shift that gives the number of rows is not by a whole word -/
  length : f.vars.length < 64
  /-- nor is one that reads the bit of a variable -/
  place : ∀ v ∈ f.vars, f.vars.idxOf v < 64
  /-- the number of rows is the one in words -/
  total : ((1 : UInt64) <<< f.vars.length.toUInt64).toNat = 1 <<< f.vars.length
  /-- the bits of a row are those of the word, both for evaluation and for display -/
  valuation : ∀ row : UInt64, rowValuation f.vars row.toNat = fun v =>
    (f.vars.idxOf? v).map fun j => row >>> j.toUInt64 &&& 1 == 1
  entries : ∀ row : UInt64, rowEntries f.vars row.toNat =
    f.vars.mapIdx fun j v => (v, row >>> j.toUInt64 &&& 1 == 1)
  /-- every call of the loop makes the table, and there one more can be counted -/
  counts : ∀ remaining row c, Reached f settings remaining row c →
    build f settings =
        (fill f f.vars settings.overflow remaining row c).map (fun values => ⟨f.vars, values⟩) ∧
      row + 1 < 2 ^ 64 ∧ c.size + 1 < 2 ^ 64 ∧ c.dropped + 1 < 2 ^ 64

variable {f : Formula} {settings : Settings} {c : Collector} {remaining row j n : Nat}

theorem Reached.build_eq (h : Reached f settings remaining row c)
    (hmax : f.vars.length ≤ min settings.maxVariables 63) :
    build f settings =
      (fill f f.vars settings.overflow remaining row c).map fun values => ⟨f.vars, values⟩ := by
  induction h with
  | first => exact (TruthTable.build_eq f settings).trans (if_neg (Nat.not_lt.2 hmax))
  | next _ hb hroom ih => rw [ih, fill_succ hb hroom]

/-- The loop passes through the collectors that hold the rows so far. -/
theorem Reached.eq_kept (h : Reached f settings remaining row c) :
    row + remaining = 2 ^ f.vars.length ∧
      c = kept f (settings.rowLimit.getD (2 ^ f.vars.length)) row := by
  induction h with
  | first =>
    rw [Nat.one_shiftLeft]
    exact ⟨Nat.zero_add _, (kept_zero ..).symm⟩
  | @next remaining row c b _ hb _ ih =>
    obtain ⟨hrow, rfl⟩ := ih
    obtain rfl : f.value (bits f.vars row) = b := by
      rw [eval_rowValuation] at hb
      exact Except.ok.inj hb
    exact ⟨by omega, offer_kept (by omega)⟩

theorem Reached.counts_lt (h : Reached f settings remaining row c) (hlen : f.vars.length ≤ 63) :
    row + 1 < 2 ^ 64 ∧ c.size + 1 < 2 ^ 64 ∧ c.dropped + 1 < 2 ^ 64 := by
  obtain ⟨hrow, rfl⟩ := h.eq_kept
  have htotal : 2 ^ f.vars.length ≤ 2 ^ 63 := Nat.pow_le_pow_right (by decide) hlen
  have hsize := size_kept (show row ≤ 2 ^ f.vars.length by omega)
    (settings.rowLimit.getD (2 ^ f.vars.length))
  refine ⟨by omega, by omega, ?_⟩
  simp only [kept]
  omega

theorem toNat_toUInt64_of_lt (h : j < 64) : j.toUInt64.toNat = j := by
  simp
  omega

/-- A bit of a word is read by a shift. -/
theorem shiftRight_and_one_beq (h : j < 64) (row : UInt64) :
    (row >>> j.toUInt64 &&& 1 == 1) = row.toNat.testBit j := by
  rw [Bool.eq_iff_iff, beq_iff_eq, ← UInt64.toNat_inj]
  simp [toNat_toUInt64_of_lt h, Nat.testBit, Nat.mod_eq_of_lt h]

theorem toNat_one_shiftLeft (h : n < 64) : ((1 : UInt64) <<< n.toUInt64).toNat = 1 <<< n := by
  have hlt : 2 ^ n < 2 ^ 64 := Nat.pow_lt_pow_right (by decide) h
  rw [UInt64.toNat_shiftLeft, toNat_toUInt64_of_lt h, Nat.mod_eq_of_lt h, UInt64.toNat_one,
    Nat.one_shiftLeft, Nat.mod_eq_of_lt hlt]

theorem fitsWord64 (h : f.vars.length ≤ min settings.maxVariables 63) :
    FitsWord64 f settings where
  length := by omega
  place v hv := Nat.lt_of_lt_of_le (List.idxOf_lt_length_iff.2 hv) (by omega)
  total := toNat_one_shiftLeft (by omega)
  valuation row := by
    funext v
    rw [rowValuation, search_eq_idxOf? f.pairwise_vars]
    cases hj : f.vars.idxOf? v with
    | none => rfl
    | some j =>
      obtain ⟨hlt, -⟩ := List.idxOf?_eq_some_iff.1 hj
      rw [Option.map_some, Option.map_some, shiftRight_and_one_beq (by omega)]
  entries row := by
    refine List.ext_getElem (by simp [rowEntries]) fun j hj _ => ?_
    have hlt : j < f.vars.length := by simpa [rowEntries] using hj
    simp only [rowEntries, List.getElem_mapIdx]
    rw [shiftRight_and_one_beq (by omega)]
  counts remaining row c hr := ⟨hr.build_eq h, hr.counts_lt (by omega)⟩

/-- What a table is follows from the number of variables and the settings: never does a variable
lack a value at a row, and never does a count or a shift leave the 64-bit words. The values at all
rows come out for up to 30 variables. -/
theorem build_exact (f : Formula) (settings : Settings) :
    build f settings = outcome f settings ∧
      (∀ row, f.eval (rowValuation f.vars row) = .ok (f.value (bits f.vars row))) ∧
      (∀ e, build f settings ≠ .error (.eval e)) ∧
      (f.vars.length ≤ min settings.maxVariables 63 → FitsWord64 f settings) ∧
      enumerate f =
        if 30 < f.vars.length then .error (.table (.tooManyVariables f.vars.length 30))
        else .ok (rows f) := by
  refine ⟨build_eq_outcome f settings, eval_rowValuation f, fun e => ?_, fitsWord64,
    enumerate_eq f⟩
  rw [build_eq_outcome]
  exact outcome_ne_eval f settings e

end Propositional.TruthTable
