import Propositional.Proofs.Formula.Eval

/-!
# The variable that is missing

Evaluating reads the leaves from left to right and stops at the first variable without a value
(`missing?`), whatever the values before it are: no operand of a chain is skipped. So a formula has
a value exactly where all its variables have one.
-/

namespace Propositional

/-- In a chain of results the first error comes out, and no value before it can keep it back. -/
theorem Junction.combine_error {ε : Type} {j : Junction} {r : Except ε Bool}
    {rest after : List (Except ε Bool)} {before : List Bool} {e : ε}
    (h : r :: rest = before.map .ok ++ .error e :: after) : j.combine r rest = .error e := by
  cases before with
  | nil =>
    cases h
    rfl
  | cons b before =>
    obtain ⟨rfl, rfl⟩ := List.cons.inj h
    clear h
    induction before generalizing b with
    | nil => rfl
    | cons c before ih => exact ih (j.apply b c)

namespace Formula

/-- The first leaf without a value. -/
def missing? (val : Valuation) (f : Formula) : Option Variable :=
  f.leaves.find? fun v => (val v).isNone

variable {val : Valuation} {f : Formula} {v : Variable}

theorem missing?_chain (val : Valuation) (j : Junction) (f g : Formula) (rest : List Formula) :
    (chain j f g rest).missing? val = (f :: g :: rest).findSome? (missing? val) := by
  rw [missing?, leaves_chain, List.find?_flatMap]
  rfl

theorem missing?_eq_none_iff : f.missing? val = none ↔ ∀ v ∈ f.leaves, (val v).isSome = true := by
  simp [missing?, Option.isSome_iff_ne_none]

theorem missing?_eq_some_iff :
    f.missing? val = some v ↔
      ∃ before after, f.leaves = before ++ v :: after ∧ val v = none ∧
        ∀ u ∈ before, (val u).isSome = true := by
  rw [missing?, List.find?_eq_some_iff_append]
  constructor
  · rintro ⟨hv, before, after, hleaves, hbefore⟩
    exact ⟨before, after, hleaves, by simpa using hv, by simpa using hbefore⟩
  · rintro ⟨before, after, hleaves, hv, hbefore⟩
    exact ⟨by simpa using hv, before, after, hleaves, by simpa using hbefore⟩

/-- The value where variables without one count as false. -/
def valueOrFalse (val : Valuation) (f : Formula) : Bool := f.value fun v => (val v).getD false

theorem eval_of_missing?_eq_none (h : f.missing? val = none) :
    f.eval val = .ok (f.valueOrFalse val) :=
  eval_eq_value fun v hv => by
    obtain ⟨b, hb⟩ := Option.isSome_iff_exists.1 (missing?_eq_none_iff.1 h v hv)
    rw [hb, Option.getD_some]

theorem eval_of_missing?_eq_some (h : f.missing? val = some v) :
    f.eval val = .error (.missing v) := by
  induction f with
  | atom w =>
    obtain ⟨hw, rfl⟩ : val w = none ∧ w = v := by simpa [missing?] using h
    exact eval_atom_missing hw
  | neg f ih =>
    rw [eval_neg, ih h]
    rfl
  | chain j f g rest hf hg hr =>
    rw [missing?_chain, List.findSome?_eq_some_iff] at h
    obtain ⟨before, k, after, hsplit, hk, hbefore⟩ := h
    have herror : k.eval val = .error (.missing v) := by
      have hmem : k ∈ f :: g :: rest := hsplit ▸ List.mem_append_right before List.mem_cons_self
      exact List.forall_mem_cons.2 ⟨hf, List.forall_mem_cons.2 ⟨hg, hr⟩⟩ k hmem hk
    have hvalues : before.map (eval val) = (before.map (valueOrFalse val)).map .ok := by
      rw [List.map_map]
      exact List.map_congr_left fun h hh => eval_of_missing?_eq_none (hbefore h hh)
    have hresults : f.eval val :: (g :: rest).map (eval val) =
        (before.map (valueOrFalse val)).map .ok ++ .error (.missing v) :: after.map (eval val) := by
      rw [← List.map_cons, hsplit, List.map_append, hvalues, List.map_cons, herror]
    rw [eval_chain]
    exact Junction.combine_error hresults

theorem eval_eq_error_iff : f.eval val = .error (.missing v) ↔ f.missing? val = some v := by
  refine ⟨fun h => ?_, eval_of_missing?_eq_some⟩
  cases hm : f.missing? val with
  | none =>
    rw [eval_of_missing?_eq_none hm] at h
    cases h
  | some w =>
    rw [eval_of_missing?_eq_some hm] at h
    cases h
    rfl

theorem exists_eval_eq_ok_iff : (∃ b, f.eval val = .ok b) ↔ f.missing? val = none := by
  refine ⟨fun ⟨b, hb⟩ => ?_, fun h => ⟨_, eval_of_missing?_eq_none h⟩⟩
  refine Option.eq_none_iff_forall_ne_some.2 fun v hv => ?_
  rw [eval_of_missing?_eq_some hv] at hb
  cases hb

/-- Evaluating a formula needs a value for each of its variables and for no others. If some have
none, the error is the first of them from the left. -/
theorem eval_needs_vars (f : Formula) (val : Valuation) :
    ((∃ b, f.eval val = .ok b) ↔ ∀ v ∈ f.vars, (val v).isSome = true) ∧
      (∀ v, f.eval val = .error (.missing v) ↔
        ∃ before after, f.leaves = before ++ v :: after ∧ val v = none ∧
          ∀ u ∈ before, (val u).isSome = true) ∧
      ∀ val' : Valuation, (∀ v ∈ f.vars, val v = val' v) → f.eval val = f.eval val' := by
  refine ⟨?_, fun v => eval_eq_error_iff.trans missing?_eq_some_iff, fun val' h => ?_⟩
  · rw [exists_eval_eq_ok_iff, missing?_eq_none_iff]
    simp only [mem_vars]
  · exact eval_congr fun v hv => h v (mem_vars.2 hv)

/-- A disjunction with a true operand, and one behind it that has no value. -/
theorem eval_needs_var_behind_true :
    let f := chain .or (atom ⟨"R", by decide⟩) (neg (atom ⟨"S", by decide⟩)) [atom ⟨"T", by decide⟩]
    let val : Valuation := fun v => if v.name = "R" then some true else none
    let val' : Valuation := fun v => if v.name = "R" ∨ v.name = "U" then some true else none
    (∀ v ∈ f.vars, val v = val' v) ∧ f.eval val = f.eval val' ∧
      f.eval val = .error (.missing ⟨"S", by decide⟩) := by
  intro f val val'
  have hagree : ∀ v ∈ f.vars, val v = val' v := by decide
  obtain ⟨-, herror, hcongr⟩ := eval_needs_vars f val
  refine ⟨hagree, hcongr val' hagree, (herror _).2 ?_⟩
  exact ⟨[⟨"R", by decide⟩], [⟨"T", by decide⟩], rfl, rfl, by decide⟩

end Formula

end Propositional
