import Propositional.Proofs.Formula.ChainValue
import Propositional.Proofs.Formula.Missing

/-!
# A chain among the operands of a chain

An operand that is a chain of the same connective may give way to its own operands. The variables
are met in the same order, so the same one is missing. The value stays in a conjunction and in a
disjunction, and wherever the inner chain comes first. Behind other operands of an implication it
may change: the inner chain starts anew, while its operands in a row go on from what stands before
them, and the two differ only from a false value on. Each false operand after that negates both, and
a true one makes them equal again.
-/

namespace Propositional

namespace Junction

variable {a a' : Bool} {bs : List Bool}

/-- Two left folds of implication over the same values differ if their starts do and no value is
true. -/
theorem applyAll_implies_ne_iff :
    implies.applyAll a bs ≠ implies.applyAll a' bs ↔ a ≠ a' ∧ ∀ b ∈ bs, b = false := by
  induction bs generalizing a a' with
  | nil => simp [applyAll]
  | cons b bs ih =>
    have hstep : implies.apply a b ≠ implies.apply a' b ↔ a ≠ a' ∧ b = false := by
      cases a <;> cases a' <;> cases b <;> decide
    rw [applyAll_cons, applyAll_cons, ih, hstep, List.forall_mem_cons, and_assoc]

/-- From a true start a fold is false if the number of false values at the end is odd. -/
theorem applyAll_implies_true_ne_iff :
    true ≠ implies.applyAll true bs ↔ trailingFalse bs % 2 = 1 := by
  rw [ne_comm, ne_eq, applyAll_implies_iff, trailingFalse_true_cons]
  omega

/-- A chain of implications behind `a` and its operands in a row differ only if `a` is false. -/
theorem applyAll_implies_inner_ne_iff {b : Bool} :
    implies.apply a (implies.applyAll b bs) ≠ implies.applyAll (implies.apply a b) bs ↔
      a = false ∧ trailingFalse bs % 2 = 1 := by
  cases a with
  | true =>
    have htrue : ∀ c, implies.apply true c = c := by decide
    rw [htrue, htrue]
    exact iff_of_false (· rfl) (by simp)
  | false =>
    rw [and_iff_right rfl]
    exact applyAll_implies_true_ne_iff

/-- A chain of implications among the values `as` before and `cs` behind it, and its operands in a
row there. -/
theorem applyAll_implies_regroup_ne_iff {b : Bool} {as cs : List Bool} :
    implies.applyAll a (as ++ implies.applyAll b bs :: cs) ≠
        implies.applyAll a (as ++ b :: bs ++ cs) ↔
      implies.applyAll a as = false ∧ trailingFalse bs % 2 = 1 ∧ ∀ c ∈ cs, c = false := by
  rw [applyAll_append, applyAll_append, applyAll_append, applyAll_cons, applyAll_cons,
    applyAll_implies_ne_iff, applyAll_implies_inner_ne_iff, and_assoc]

end Junction

namespace Formula

variable {val : Valuation} {e e' : Formula}

theorem missing?_congr (h : e.leaves = e'.leaves) : e.missing? val = e'.missing? val := by
  rw [missing?, missing?, h]

/-- Formulas with the same leaves lack the same variable. -/
theorem eval_eq_error_congr (h : e.leaves = e'.leaves) (err : EvalError) :
    e.eval val = .error err ↔ e'.eval val = .error err := by
  obtain ⟨v⟩ := err
  rw [eval_eq_error_iff, eval_eq_error_iff, missing?_congr h]

theorem eval_eq_of_value_eq (h : e.leaves = e'.leaves) (hv : ∀ a, e.value a = e'.value a) :
    e.eval val = e'.eval val := by
  cases hm : e.missing? val with
  | none =>
    rw [eval_of_missing?_eq_none hm, eval_of_missing?_eq_none (missing?_congr h ▸ hm),
      valueOrFalse, valueOrFalse, hv]
  | some v =>
    rw [eval_of_missing?_eq_some hm, eval_of_missing?_eq_some (missing?_congr h ▸ hm)]

theorem exists_ofOperands_binary (j : Junction) {fs : List Formula} (h : 2 ≤ fs.length) :
    ∃ e, ofOperands (.binary j) fs = .ok e := by
  match fs, h with
  | f :: g :: rest, _ => exact ⟨chain j f g rest, rfl⟩

theorem value_of_ofOperands {j : Junction} {f : Formula} {fs : List Formula}
    (h : ofOperands (.binary j) (f :: fs) = .ok e) (a : Variable → Bool) :
    e.value a = j.applyAll (f.value a) (fs.map (value a)) := by
  obtain ⟨f, g, rest, hfs, rfl⟩ := exists_of_ofOperands_binary h
  cases hfs
  exact value_chain a j f g rest

section Regroup

variable {j : Junction} {xs ys zs : List Formula} {inner grouped flat : Formula}

/-- The leaves of a formula do not show how its operands are grouped. -/
theorem leaves_regroup (hinner : ofOperands (.binary j) ys = .ok inner)
    (hgrouped : ofOperands (.binary j) (xs ++ inner :: zs) = .ok grouped)
    (hflat : ofOperands (.binary j) (xs ++ ys ++ zs) = .ok flat) :
    grouped.leaves = flat.leaves := by
  rw [leaves_of_ofOperands hgrouped, leaves_of_ofOperands hflat]
  simp [leaves_of_ofOperands hinner]

/-- A chain that comes first is how the left fold starts anyway. -/
theorem value_regroup_first (hinner : ofOperands (.binary j) ys = .ok inner)
    (hgrouped : ofOperands (.binary j) (inner :: zs) = .ok grouped)
    (hflat : ofOperands (.binary j) (ys ++ zs) = .ok flat) (a : Variable → Bool) :
    grouped.value a = flat.value a := by
  obtain ⟨f, g, rest, rfl, -⟩ := exists_of_ofOperands_binary hinner
  have hvalue : flat.value a = j.applyAll (f.value a) ((g :: rest ++ zs).map (value a)) :=
    value_of_ofOperands hflat a
  rw [value_of_ofOperands hgrouped, value_of_ofOperands hinner, hvalue, List.map_append,
    Junction.applyAll_append]

theorem eval_regroup_eq (hj : j ≠ .implies ∨ xs = [])
    (hinner : ofOperands (.binary j) ys = .ok inner)
    (hgrouped : ofOperands (.binary j) (xs ++ inner :: zs) = .ok grouped)
    (hflat : ofOperands (.binary j) (xs ++ ys ++ zs) = .ok flat) :
    grouped.eval val = flat.eval val := by
  refine eval_eq_of_value_eq (leaves_regroup hinner hgrouped hflat) ?_
  rcases hj with hj | rfl
  · exact (Rearranged.regroup hj hinner hgrouped hflat).value_eq
  · exact value_regroup_first hinner hgrouped hflat

theorem eval_regroup_implies_ne_iff {a b : Bool} {as bs cs : List Bool}
    (hinner : ofOperands (.binary .implies) ys = .ok inner)
    (hgrouped : ofOperands (.binary .implies) (xs ++ inner :: zs) = .ok grouped)
    (hflat : ofOperands (.binary .implies) (xs ++ ys ++ zs) = .ok flat)
    (hxs : xs.map (eval val) = (a :: as).map .ok) (hys : ys.map (eval val) = (b :: bs).map .ok)
    (hzs : zs.map (eval val) = cs.map .ok) :
    grouped.eval val ≠ flat.eval val ↔
      Junction.implies.applyAll a as = false ∧ Junction.trailingFalse bs % 2 = 1 ∧
        ∀ c ∈ cs, c = false := by
  have hvalue := eval_of_ofOperands hinner hys
  have hvalues : (xs ++ inner :: zs).map (eval val) =
      (a :: (as ++ Junction.implies.applyAll b bs :: cs)).map .ok := by
    rw [List.map_append, List.map_cons, hxs, hvalue, hzs, ← List.map_cons, ← List.map_append]
    rfl
  have hvalues' : (xs ++ ys ++ zs).map (eval val) = (a :: (as ++ b :: bs ++ cs)).map .ok := by
    rw [List.map_append, List.map_append, hxs, hys, hzs, ← List.map_append, ← List.map_append]
    rfl
  rw [eval_of_ofOperands hgrouped hvalues, eval_of_ofOperands hflat hvalues', ne_eq,
    Except.ok.injEq]
  exact Junction.applyAll_implies_regroup_ne_iff

end Regroup

/-- A chain lacks the same variable and has the same value whether one of its operands is a chain of
the same connective or that chain's own operands stand there. Only the value of an implication can
differ: where the operands before make it false, those of the inner chain, its first left aside, end
in an odd number of false ones, and none behind is true. -/
theorem eval_regroup {xs ys zs : List Formula} (val : Valuation) (j : Junction)
    (hys : 2 ≤ ys.length) (hne : xs ++ zs ≠ []) :
    ∃ inner grouped flat : Formula, ofOperands (.binary j) ys = .ok inner ∧
      ofOperands (.binary j) (xs ++ inner :: zs) = .ok grouped ∧
      ofOperands (.binary j) (xs ++ ys ++ zs) = .ok flat ∧
      (j ≠ .implies ∨ xs = [] → grouped.eval val = flat.eval val) ∧
      (∀ err, grouped.eval val = .error err ↔ flat.eval val = .error err) ∧
      ∀ (a b : Bool) (as bs cs : List Bool), j = .implies → xs.map (eval val) = (a :: as).map .ok →
        ys.map (eval val) = (b :: bs).map .ok → zs.map (eval val) = cs.map .ok →
        (grouped.eval val ≠ flat.eval val ↔
          Junction.implies.applyAll a as = false ∧ Junction.trailingFalse bs % 2 = 1 ∧
            ∀ c ∈ cs, c = false) := by
  have hpos : 0 < (xs ++ zs).length := List.length_pos_iff.2 hne
  obtain ⟨inner, hinner⟩ := exists_ofOperands_binary j hys
  have hlen : 2 ≤ (xs ++ inner :: zs).length := by
    rw [List.length_append, List.length_cons, ← Nat.add_assoc, ← List.length_append]
    omega
  have hlen' : 2 ≤ (xs ++ ys ++ zs).length := by
    rw [List.length_append, List.length_append]
    omega
  obtain ⟨grouped, hgrouped⟩ := exists_ofOperands_binary j hlen
  obtain ⟨flat, hflat⟩ := exists_ofOperands_binary j hlen'
  refine ⟨inner, grouped, flat, hinner, hgrouped, hflat, fun hj => ?_, fun err => ?_, ?_⟩
  · exact eval_regroup_eq hj hinner hgrouped hflat
  · exact eval_eq_error_congr (leaves_regroup hinner hgrouped hflat) err
  · rintro a b as bs cs rfl hxs hys hzs
    exact eval_regroup_implies_ne_iff hinner hgrouped hflat hxs hys hzs

/-- If all is false, the inner chain is true and its operands in a row are not. -/
theorem eval_regroup_all_false :
    let p := atom ⟨"P", by decide⟩
    let q := atom ⟨"Q", by decide⟩
    let val : Valuation := fun _ => some false
    2 ≤ [q, q].length ∧ [p] ++ [p] ≠ [] ∧
      (chain .implies p (chain .implies q q []) [p]).eval val ≠
        (chain .implies p q [q, p]).eval val := by
  intro p q val
  have hys : 2 ≤ [q, q].length := Nat.le_refl 2
  have hne : [p] ++ [p] ≠ [] := List.cons_ne_nil p [p]
  obtain ⟨inner, grouped, flat, hinner, hgrouped, hflat, -, -, h⟩ :=
    eval_regroup val .implies hys hne
  cases hinner
  cases hgrouped
  cases hflat
  exact ⟨hys, hne, (h false false [] [false] [false] rfl rfl rfl rfl).2 ⟨rfl, rfl, by decide⟩⟩

end Formula

end Propositional
