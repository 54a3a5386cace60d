import Propositional.Assignment.Basic

/-!
# Which values count

The value of a formula depends on the values of the variables at its leaves, and on no others. If
they all have one, the formula has the value that its connectives give (`value`) and evaluating it
does not fail. A list of pairs gives a variable the value of the last pair with it.
-/

namespace Propositional

theorem Junction.combine_ok {ε : Type} (j : Junction) (a : Bool) (rest : List Bool) :
    j.combine (.ok a) (rest.map .ok) = (.ok (j.applyAll a rest) : Except ε Bool) := by
  induction rest generalizing a with
  | nil => rfl
  | cons b rest ih => exact ih (j.apply a b)

namespace Formula

/-- The value of a formula where every variable has one. -/
def value (a : Variable → Bool) : Formula → Bool :=
  fold a (!·) fun j b c rest => j.applyAll b (c :: rest)

theorem value_chain (a : Variable → Bool) (j : Junction) (f g : Formula) (rest : List Formula) :
    (chain j f g rest).value a = j.applyAll (f.value a) ((g :: rest).map (value a)) := by
  simp only [value, fold, foldAll_eq_map, List.map_cons]

theorem eval_eq_value {f : Formula} {val : Valuation} {a : Variable → Bool}
    (h : ∀ v ∈ f.leaves, val v = some (a v)) : f.eval val = .ok (f.value a) := by
  induction f with
  | atom v => exact eval_atom (h v List.mem_cons_self)
  | neg f ih =>
    rw [eval_neg, ih h]
    rfl
  | chain j f g rest hf hg hr =>
    have hs : ∀ k ∈ f :: g :: rest, k.eval val = .ok (k.value a) := by
      intro k hk
      refine List.forall_mem_cons.2 ⟨hf, List.forall_mem_cons.2 ⟨hg, hr⟩⟩ k hk fun v hv => h v ?_
      rw [leaves_chain]
      exact List.mem_flatMap.2 ⟨k, hk, hv⟩
    have htail : (g :: rest).map (eval val) = ((g :: rest).map (value a)).map .ok := by
      rw [List.map_map]
      exact List.map_congr_left fun k hk => hs k (List.mem_cons_of_mem f hk)
    rw [eval_chain, hs f List.mem_cons_self, htail, Junction.combine_ok, value_chain]

/-- Values that agree at the leaves give the same value. -/
theorem value_congr {f : Formula} {a b : Variable → Bool} (h : ∀ v ∈ f.leaves, a v = b v) :
    f.value a = f.value b := by
  have ha : f.eval (fun v => some (a v)) = .ok (f.value a) := eval_eq_value fun _ _ => rfl
  have hb : f.eval (fun v => some (a v)) = .ok (f.value b) :=
    eval_eq_value fun v hv => congrArg some (h v hv)
  exact Except.ok.inj (ha.symm.trans hb)

theorem nodup_vars (f : Formula) : f.vars.Nodup := Variable.nodup_of_pairwise f.pairwise_vars

/-- Valuations that agree at the leaves give the same value, or the same error. -/
theorem eval_congr {f : Formula} {val val' : Valuation} (h : ∀ v ∈ f.leaves, val v = val' v) :
    f.eval val = f.eval val' := by
  induction f with
  | atom v => simp only [eval, fold, h v List.mem_cons_self]
  | neg f ih => rw [eval_neg, eval_neg, ih h]
  | chain j f g rest ihf ihg ih =>
    simp only [leaves_chain, List.mem_flatMap, List.mem_cons] at h
    have hf := ihf fun v hv => h v ⟨f, .inl rfl, hv⟩
    have hg := ihg fun v hv => h v ⟨g, .inr (.inl rfl), hv⟩
    have hrest : rest.map (eval val) = rest.map (eval val') :=
      List.map_congr_left fun k hk => ih k hk fun v hv => h v ⟨k, .inr (.inr hk), hv⟩
    rw [eval_chain, eval_chain, List.map_cons, List.map_cons, hf, hg, hrest]

end Formula

namespace Assignment

theorem get?_foldl_set (es : List (Variable × Bool)) (a : Assignment) (v : Variable) :
    (es.foldl (fun a e => a.set e.1 e.2) a).get? v = (es.reverse.lookup v).or (a.get? v) := by
  induction es generalizing a with
  | nil => rfl
  | cons e es ih =>
    rw [List.foldl_cons, ih, get?_set, List.reverse_cons, List.lookup_append]
    obtain ⟨u, b⟩ := e
    by_cases h : v = u
    · subst h
      simp
    · simp [h, List.lookup_cons, beq_eq_false_iff_ne.2 h]

theorem get?_ofList (es : List (Variable × Bool)) (v : Variable) :
    (ofList es).get? v = es.reverse.lookup v := by
  rw [ofList, get?_foldl_set, get?_empty, Option.or_none]

/-- If the variables of a list are distinct, every pair counts. -/
theorem get?_ofList_of_mem {es : List (Variable × Bool)} {v : Variable} {b : Bool}
    (h : (es.map (·.1)).Nodup) (hv : (v, b) ∈ es) : (ofList es).get? v = some b := by
  obtain ⟨before, after, rfl⟩ := List.append_of_mem hv
  rw [get?_ofList, List.lookup_eq_some_iff]
  refine ⟨after.reverse, before.reverse, by simp, fun e he => ?_⟩
  rw [List.map_append, List.map_cons] at h
  have hafter := (List.nodup_cons.1 (List.nodup_append.1 h).2.1).1
  rw [bne_iff_ne]
  intro hev
  exact hafter (List.mem_map.2 ⟨e, List.mem_reverse.1 he, hev.symm⟩)

end Assignment

end Propositional
