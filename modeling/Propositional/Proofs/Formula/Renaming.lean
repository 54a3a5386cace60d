import Mathlib.Data.List.Basic
import Mathlib.Data.List.Nodup
import Mathlib.Data.Set.Function
import Propositional.Proofs.Formula.Eval
import Propositional.Proofs.Variable

/-!
# Renaming variables

A renamed formula has other variables at the same leaves (`rename`). Its value is that of the
formula where each variable takes the value of its new name. As long as no two variables get one
name, its variables are those of the formula renamed, in an order of their own.
-/

namespace Propositional.Formula

/-- The formula with `r v` at every leaf in place of `v`. -/
def rename (r : Variable → Variable) : Formula → Formula :=
  fold (fun v => atom (r v)) neg chain

variable {r : Variable → Variable} {f : Formula} {a b : Variable → Bool} {v w : Variable}

@[simp] theorem rename_atom (r : Variable → Variable) (v : Variable) :
    (atom v).rename r = atom (r v) := rfl

@[simp] theorem rename_neg (r : Variable → Variable) (f : Formula) :
    (neg f).rename r = neg (f.rename r) := rfl

@[simp] theorem rename_chain (r : Variable → Variable) (j : Junction) (f g : Formula)
    (rest : List Formula) :
    (chain j f g rest).rename r = chain j (f.rename r) (g.rename r) (rest.map (rename r)) := by
  simp only [rename, fold, foldAll_eq_map]

theorem leaves_rename (r : Variable → Variable) (f : Formula) :
    (f.rename r).leaves = f.leaves.map r := by
  induction f with
  | atom v => rfl
  | neg f ih => exact ih
  | chain j f g rest hf hg hr =>
    have hs : ∀ h ∈ f :: g :: rest, (h.rename r).leaves = h.leaves.map r :=
      List.forall_mem_cons.2 ⟨hf, List.forall_mem_cons.2 ⟨hg, hr⟩⟩
    rw [rename_chain, leaves_chain, leaves_chain, ← List.map_cons, ← List.map_cons,
      List.flatMap_map, List.map_flatMap]
    exact List.flatMap_congr hs

theorem value_rename (r : Variable → Variable) (a : Variable → Bool) (f : Formula) :
    (f.rename r).value a = f.value fun v => a (r v) := by
  induction f with
  | atom v => rfl
  | neg f ih => exact congrArg (!·) ih
  | chain j f g rest hf hg hr =>
    rw [rename_chain, value_chain, value_chain, hf, ← List.map_cons, List.map_map]
    exact congrArg _ (List.map_congr_left (List.forall_mem_cons.2 ⟨hg, hr⟩))

theorem mem_vars_rename : w ∈ (f.rename r).vars ↔ ∃ v ∈ f.vars, r v = w := by
  simp only [mem_vars, leaves_rename, List.mem_map]

theorem nodup_map_vars (hr : Set.InjOn r {v | v ∈ f.vars}) : (f.vars.map r).Nodup :=
  f.nodup_vars.map_on fun _ hv _ hw h => hr hv hw h

theorem perm_vars_rename (hr : Set.InjOn r {v | v ∈ f.vars}) :
    (f.rename r).vars.Perm (f.vars.map r) := by
  refine (List.perm_ext_iff_of_nodup (nodup_vars _) (nodup_map_vars hr)).2 fun w => ?_
  rw [mem_vars_rename, List.mem_map]

theorem length_vars_rename (hr : Set.InjOn r {v | v ∈ f.vars}) :
    (f.rename r).vars.length = f.vars.length := by
  rw [(perm_vars_rename hr).length_eq, List.length_map]

/-- A renaming that keeps the order of the variables keeps their places. -/
theorem vars_rename_of_strictMono (h : ∀ v ∈ f.vars, ∀ w ∈ f.vars, v < w → r v < r w) :
    (f.rename r).vars = f.vars.map r := by
  refine Variable.eq_of_pairwise (pairwise_vars _) ?_ fun w => ?_
  · exact List.pairwise_map.2 (f.pairwise_vars.imp_of_mem fun hv hw hlt => h _ hv _ hw hlt)
  · rw [mem_vars_rename, List.mem_map]

end Propositional.Formula
