import Mathlib.Data.List.Induction
import Propositional.Formula.Build
import Propositional.Proofs.Tree.Build

/-!
# What a chain builder makes

A builder keeps what is pushed in the order of the pushes and checks it when the chain is made.
`Assembled` says what comes out by the pushes alone: too little, two different connectives, negation
used to join, or a chain. In the last two cases it is what the operands joined by the one connective
are. Operands and connectives in two lists of their own, as `Tree.Builder` has them, give the same.
-/

namespace Propositional.ChainBuilder

/-- The builder behind the pushes, the earliest first. -/
def assemble (first : Formula) (pushes : List (Connective × Formula)) : ChainBuilder :=
  pushes.foldl (fun b p => b.push p.1 p.2) { first }

/-- What is made of a first operand and the pushes behind it. -/
inductive Assembled (first : Formula) :
    List (Connective × Formula) → Except BuildError Formula → Prop where
  | alone : Assembled first [] (.error (.tooFewOperands 1))
  /-- `other` is the earliest connective that differs from the one pushed first -/
  | mixed {c other : Connective} {f g : Formula} {same rest : List (Connective × Formula)} :
      (∀ p ∈ same, p.1 = c) → other ≠ c →
      Assembled first ((c, f) :: (same ++ (other, g) :: rest))
        (.error (.mixedConnectives c other))
  | negation {f : Formula} {rest : List (Connective × Formula)} : (∀ p ∈ rest, p.1 = .not) →
      Assembled first ((.not, f) :: rest) (.error (.notChainable .not))
  | chain {j : Junction} {second : Formula} {rest : List (Connective × Formula)} :
      (∀ p ∈ rest, p.1 = .binary j) →
      Assembled first ((.binary j, second) :: rest)
        (.ok (.chain j first second (rest.map (·.2))))

variable {first f g : Formula} {c other : Connective}
  {pushes same rest : List (Connective × Formula)} {r : Except BuildError Formula}

/-- No push is lost, and none changes its place. -/
theorem assemble_eq (first : Formula) (pushes : List (Connective × Formula)) :
    assemble first pushes = { first, pushed := pushes } := by
  induction pushes using List.reverseRecOn with
  | nil => rfl
  | append_singleton pushes p ih =>
    rw [assemble, List.foldl_append, ← assemble, ih]
    rfl

theorem build_assemble_of_forall (h : ∀ p ∈ rest, p.1 = c) :
    (assemble first ((c, f) :: rest)).build =
      Formula.ofOperands c (first :: f :: rest.map (·.2)) := by
  have hfind : rest.find? (·.1 ≠ c) = none := List.find?_eq_none.2 fun p hp => by simp [h p hp]
  simp only [assemble_eq, build, hfind]

theorem build_assemble_of_ne (h : ∀ p ∈ same, p.1 = c) (hne : other ≠ c) :
    (assemble first ((c, f) :: (same ++ (other, g) :: rest))).build =
      .error (.mixedConnectives c other) := by
  have hfind : (same ++ (other, g) :: rest).find? (·.1 ≠ c) = some (other, g) := by
    refine List.find?_eq_some_iff_append.2 ⟨by simpa using hne, same, rest, rfl, fun p hp => ?_⟩
    simp [h p hp]
  simp only [assemble_eq, build, hfind]

theorem Assembled.build_eq (h : Assembled first pushes r) : (assemble first pushes).build = r := by
  cases h with
  | alone => rfl
  | mixed hsame hne => exact build_assemble_of_ne hsame hne
  | negation hrest => exact build_assemble_of_forall hrest
  | chain hrest => exact build_assemble_of_forall hrest

/-- The pushes behind the first one repeat its connective, or there is an earliest that does not. -/
theorem exists_assembled (first : Formula) (pushes : List (Connective × Formula)) :
    ∃ r, Assembled first pushes r := by
  match pushes with
  | [] => exact ⟨_, .alone⟩
  | (c, f) :: rest =>
    cases hfind : rest.find? (·.1 ≠ c) with
    | some p =>
      obtain ⟨hne, same, after, rfl, hsame⟩ := List.find?_eq_some_iff_append.1 hfind
      exact ⟨_, .mixed (fun q hq => by simpa using hsame q hq) (by simpa using hne)⟩
    | none =>
      have hrest : ∀ p ∈ rest, p.1 = c := fun p hp => by
        simpa using List.find?_eq_none.1 hfind p hp
      cases c with
      | not => exact ⟨_, .negation hrest⟩
      | binary j => exact ⟨_, .chain hrest⟩

theorem build_eq_iff (first : Formula) (pushes : List (Connective × Formula))
    (r : Except BuildError Formula) :
    (assemble first pushes).build = r ↔ Assembled first pushes r := by
  refine ⟨fun h => ?_, Assembled.build_eq⟩
  obtain ⟨r', hr⟩ := exists_assembled first pushes
  obtain rfl : r' = r := hr.build_eq.symm.trans h
  exact hr

/-- The two lists of a tree builder stay in step. -/
theorem build_assemble_toTree (first : Formula) (pushes : List (Connective × Formula)) :
    (Tree.Builder.assemble first.toTree (pushes.map fun p => (p.1, p.2.toTree))).build =
      (assemble first pushes).build.map Formula.toTree := by
  rw [assemble_toTree, build_toTree, assemble_eq]

/-- What a builder makes is decided by the pushes: none at all is the first thing to be wrong, then
comes the earliest connective unlike the one pushed first, then negation. A chain is made if the
pushes agree on a junction, and it has all operands in their order. With operands and connectives
in two lists it is the same. -/
theorem build_assemble (first : Formula) (pushes : List (Connective × Formula)) :
    (∀ r, (assemble first pushes).build = r ↔ Assembled first pushes r) ∧
      (∀ c, pushes ≠ [] → (∀ p ∈ pushes, p.1 = c) →
        (assemble first pushes).build = Formula.ofOperands c (first :: pushes.map (·.2))) ∧
      ((∃ f, (assemble first pushes).build = .ok f) ↔
        pushes ≠ [] ∧ ∃ j, ∀ p ∈ pushes, p.1 = .binary j) ∧
      (Tree.Builder.assemble first.toTree (pushes.map fun p => (p.1, p.2.toTree))).build =
        (assemble first pushes).build.map Formula.toTree := by
  refine ⟨build_eq_iff first pushes, fun c hne hall => ?_,
    ⟨fun ⟨f, hf⟩ => ?_, fun ⟨hne, j, hall⟩ => ?_⟩, build_assemble_toTree first pushes⟩
  · match pushes, hne with
    | (d, f) :: rest, _ =>
      obtain ⟨rfl, hrest⟩ := List.forall_mem_cons.1 hall
      exact build_assemble_of_forall hrest
  · cases (build_eq_iff first pushes _).1 hf with
    | chain hrest => exact ⟨List.cons_ne_nil _ _, _, List.forall_mem_cons.2 ⟨rfl, hrest⟩⟩
  · match pushes, hne with
    | (d, f) :: rest, _ =>
      obtain ⟨rfl, hrest⟩ := List.forall_mem_cons.1 hall
      exact ⟨_, build_assemble_of_forall hrest⟩

/-- Two negations behind a first operand, each pushed with the same connective. -/
theorem build_assemble_two_disjunctions :
    let operand : Formula := .neg (.atom ⟨"Or", by decide⟩)
    let pushes := [(.binary .or, operand), (.binary .or, .neg operand)]
    pushes ≠ [] ∧ (∀ p ∈ pushes, p.1 = .binary .or) ∧
      (assemble operand pushes).build =
        Formula.ofOperands (.binary .or) (operand :: pushes.map (·.2)) := by
  intro operand pushes
  have hne : pushes ≠ [] := List.cons_ne_nil _ _
  have hall : ∀ p ∈ pushes, p.1 = .binary .or := by simp [pushes]
  exact ⟨hne, hall, (build_assemble operand pushes).2.1 _ hne hall⟩

/-- Negation that does not stay alone is no better than any other first connective. -/
example (f g h : Formula) :
    (assemble f [(.not, g), (.binary .or, h)]).build =
      .error (.mixedConnectives .not (.binary .or)) := rfl

end Propositional.ChainBuilder
