import Mathlib.Algebra.Group.Nat.Defs
import Propositional.TruthTable.Storage

/-!
# Tables and storage

Row numbers bound a table by 63 variables, a block of storage bounds it by 2⁶³ - 1 places, and the
first bound does not imply the second: all rows of 63 variables are one place too many. Where the
places fit, a table made in storage is the one of `build`.
-/

namespace Propositional.TruthTable

/-- The places reserved for the values of a formula: one for each row, or the row limit if that is
fewer. -/
def reservation (f : Formula) (settings : Settings) : Nat :=
  min (settings.rowLimit.getD (2 ^ f.vars.length)) (2 ^ f.vars.length)

variable {f : Formula} {settings : Settings}

/-- Storage has a say only where the variables are few enough, and then only by the places. -/
theorem buildInStorage_eq (f : Formula) (settings : Settings) :
    buildInStorage f settings =
      if f.vars.length ≤ min settings.maxVariables 63 ∧ 2 ^ 63 - 1 < reservation f settings then
        .error ⟨reservation f settings⟩
      else .ok (build f settings) := by
  simp only [buildInStorage, buildIn, build_eq, Nat.one_shiftLeft, maxNumbered]
  by_cases hmax : min settings.maxVariables 63 < f.vars.length
  · rw [if_pos hmax, if_pos hmax, if_neg fun h => Nat.not_le_of_lt hmax h.1]
    rfl
  · rw [if_neg hmax, if_neg hmax]
    by_cases hplaces : reservation f settings ≤ 2 ^ 63 - 1
    · have hroom : Collector.allocate (settings.rowLimit.getD (2 ^ f.vars.length))
          (2 ^ f.vars.length) = .ok (.withReserved _ _) := if_pos hplaces
      rw [hroom, if_neg fun h => Nat.not_lt_of_le hplaces h.2]
      rfl
    · have hroom : Collector.allocate (settings.rowLimit.getD (2 ^ f.vars.length))
          (2 ^ f.vars.length) = .error ⟨reservation f settings⟩ := if_neg hplaces
      rw [hroom, if_pos ⟨Nat.not_lt.1 hmax, Nat.lt_of_not_le hplaces⟩]
      rfl

/-- Up to 62 variables no row limit is too large for a block, for 63 every one from 2⁶³ on is. -/
theorem reservation_le_iff (h : f.vars.length ≤ 63) :
    reservation f settings ≤ 2 ^ 63 - 1 ↔
      f.vars.length ≤ 62 ∨ ∃ k < 2 ^ 63, settings.rowLimit = some k := by
  rw [reservation]
  by_cases hlen : f.vars.length ≤ 62
  · have hrows : 2 ^ f.vars.length ≤ 2 ^ 62 := Nat.pow_le_pow_right (by decide) hlen
    exact iff_of_true (by omega) (.inl hlen)
  · have hlen : f.vars.length = 63 := by omega
    rw [hlen]
    cases settings.rowLimit with
    | none => simp
    | some k =>
      simp only [Option.getD_some, Option.some.injEq, exists_eq_right']
      omega

/-- For up to 62 variables, and under a limit of 62 variables, there is always a block. -/
theorem buildInStorage_eq_ok (h : min settings.maxVariables f.vars.length ≤ 62) :
    buildInStorage f settings = .ok (build f settings) := by
  rw [buildInStorage_eq, if_neg]
  rintro ⟨hmax, hplaces⟩
  have hfits := (@reservation_le_iff f settings (by omega)).2 (.inl (by omega))
  omega

/-- The default settings are such a limit: for the values at all rows there is always a block. -/
theorem map_buildInStorage_eq_enumerate (f : Formula) :
    (buildInStorage f).map (·.map (·.values.toList)) = .ok (enumerate f) := by
  have hlimit : min 30 f.vars.length ≤ 62 := by omega
  rw [buildInStorage_eq_ok hlimit]
  rfl

/-- A block is refused for 63 variables unless a row limit below 2⁶³ is set, and in no other case: a
table whose variables can be numbered fits if there are at most 62 of them or its rows are limited
so. -/
theorem buildInStorage_eq_ok_iff (h : f.vars.length ≤ min settings.maxVariables 63) :
    (reservation f settings ≤ 2 ^ 63 - 1 ↔
        f.vars.length ≤ 62 ∨ ∃ k < 2 ^ 63, settings.rowLimit = some k) ∧
      (reservation f settings ≤ 2 ^ 63 - 1 → buildInStorage f settings = .ok (build f settings)) ∧
      (¬ reservation f settings ≤ 2 ^ 63 - 1 → buildInStorage f settings = .error ⟨2 ^ 63⟩) := by
  refine ⟨reservation_le_iff (by omega), fun hfits => ?_, fun hfull => ?_⟩
  · rw [buildInStorage_eq, if_neg fun hr => Nat.not_lt_of_le hfits hr.2]
  · have hplaces : reservation f settings = 2 ^ 63 := by
      have hrows : 2 ^ f.vars.length ≤ 2 ^ 63 := Nat.pow_le_pow_right (by decide) (by omega)
      have hle : reservation f settings ≤ 2 ^ f.vars.length := Nat.min_le_right _ _
      omega
    rw [buildInStorage_eq, if_pos ⟨h, Nat.lt_of_not_le hfull⟩, hplaces]

/-- A disjunction of the 63 variables whose names have one character. -/
def shortDisjunction : Formula :=
  .join .or (.atom ⟨"0", by decide⟩)
    ("123456789ABCDEFGHIJKLMNOPQRSTUVWXYZ_abcdefghijklmnopqrstuvwxyz".toList.filterMap fun c =>
      (Variable.ofName? (String.singleton c)).map .atom)

theorem length_vars_shortDisjunction : shortDisjunction.vars.length = 63 := by decide +kernel

/-- Under a row limit the block for 63 variables is small. -/
theorem buildInStorage_eq_ok_four_rows :
    shortDisjunction.vars.length ≤ min 63 63 ∧
      reservation shortDisjunction { maxVariables := 63, rowLimit := some 4 } ≤ 2 ^ 63 - 1 ∧
      buildInStorage shortDisjunction { maxVariables := 63, rowLimit := some 4 } =
        .ok (build shortDisjunction { maxVariables := 63, rowLimit := some 4 }) := by
  have hlen : shortDisjunction.vars.length ≤ min 63 63 := Nat.le_of_eq length_vars_shortDisjunction
  let settings : Settings := { maxVariables := 63, rowLimit := some 4 }
  obtain ⟨hiff, hfits, -⟩ := @buildInStorage_eq_ok_iff shortDisjunction settings hlen
  have hplaces := hiff.2 (.inr ⟨4, by decide, rfl⟩)
  exact ⟨hlen, hplaces, hfits hplaces⟩

/-- Without one it is a place too large, although the variables can be numbered. -/
theorem buildInStorage_refused_all_rows :
    shortDisjunction.vars.length ≤ min 63 63 ∧
      ¬ reservation shortDisjunction { maxVariables := 63 } ≤ 2 ^ 63 - 1 ∧
      buildInStorage shortDisjunction { maxVariables := 63 } = .error ⟨2 ^ 63⟩ := by
  have hlen : shortDisjunction.vars.length ≤ min 63 63 := Nat.le_of_eq length_vars_shortDisjunction
  have hplaces : reservation shortDisjunction { maxVariables := 63 } = 2 ^ 63 := by
    rw [reservation, length_vars_shortDisjunction]
    rfl
  rw [buildInStorage_eq, hplaces, if_pos ⟨hlen, by decide⟩]
  exact ⟨hlen, by decide, rfl⟩

end Propositional.TruthTable
