import Propositional.Proofs.Tree.Agreement
import Propositional.Proofs.Tree.Build
import Propositional.Proofs.Tree.Panic

/-!
# The trees that can be built

`Reachable t` says that `t` comes from some sequence of the operations that give trees: naming a
leaf, negating, joining operands, assembling a chain, taking an operand, and reading tokens, which
joins without a check. Each operation does on trees what it does on formulas, so the trees that can
be built are those of formulas: using them takes no operand of none and gives no connective the
wrong number of values.
-/

namespace Propositional

namespace Tree

inductive Reachable : Tree → Prop where
  | named {name : String} {t : Tree} : ofName name = .ok t → Reachable t
  | variable (v : Variable) : Reachable (leaf v.name)
  | neg {t : Tree} : Reachable t → Reachable (unary .not t)
  | binary {c : Connective} {t u w : Tree} : Reachable t → Reachable u → binary t c u = .ok w →
      Reachable w
  | joined {c : Connective} {ts : List Tree} {t : Tree} : (∀ u ∈ ts, Reachable u) →
      ofOperands c ts = .ok t → Reachable t
  | assembled {first t : Tree} {pushed : List (Connective × Tree)} : Reachable first →
      (∀ p ∈ pushed, Reachable p.2) → (Builder.assemble first pushed).build = .ok t → Reachable t
  | operand {t u : Tree} : Reachable t → u ∈ t.operands → Reachable u
  | parsed {ts : List Token} {limit : Nat} {t : Tree} : ofTokens ts limit = .ok t → Reachable t

/-- Using the tree never takes the first operand of none, nor gives a connective the wrong number of
values: no use ends in a `Panic`. That a block of storage is refused to its table is not ruled out.
-/
structure Safe (t : Tree) : Prop where
  eval (val : String → Option Bool) (p : Panic) : t.eval val ≠ .error (.panic p)
  text (p : Panic) : t.text ≠ .error (.panic p)
  table (settings : TruthTable.Settings) (p : Panic) : t.table settings ≠ .error (.panic p)

/-- What a result is mapped to is the image of a value. -/
theorem exists_of_map_eq_ok {ε α β : Type} {g : α → β} {r : Except ε α} {b : β}
    (h : r.map g = .ok b) : ∃ a, g a = b := by
  cases r with
  | error e => cases h
  | ok a => exact ⟨a, Except.ok.inj h⟩

theorem exists_of_ofOperands {c : Connective} {ts : List Tree} {t : Tree}
    (h : ∀ u ∈ ts, ∃ f : Formula, f.toTree = u) (ht : ofOperands c ts = .ok t) :
    ∃ f : Formula, f.toTree = t := by
  obtain ⟨fs, rfl⟩ : ts ∈ Set.range (List.map Formula.toTree) := by rwa [Set.range_list_map]
  rw [ofOperands_map] at ht
  exact exists_of_map_eq_ok ht

theorem exists_of_assemble {first t : Tree} {pushed : List (Connective × Tree)}
    (hf : ∃ f : Formula, f.toTree = first) (hp : ∀ p ∈ pushed, ∃ f : Formula, f.toTree = p.2)
    (ht : (Builder.assemble first pushed).build = .ok t) : ∃ f : Formula, f.toTree = t := by
  obtain ⟨f, rfl⟩ := hf
  obtain ⟨fs, rfl⟩ : pushed ∈ Set.range (List.map fun p : Connective × Formula =>
      (p.1, p.2.toTree)) := by
    rw [Set.range_list_map]
    intro p hmem
    obtain ⟨g, hg⟩ := hp p hmem
    exact ⟨(p.1, g), Prod.ext rfl hg⟩
  rw [ChainBuilder.assemble_toTree, ChainBuilder.build_toTree] at ht
  exact exists_of_map_eq_ok ht

/-- Every operation that gives a tree gives that of a formula. -/
theorem Reachable.exists_toTree {t : Tree} (h : Reachable t) : ∃ f : Formula, f.toTree = t := by
  induction h with
  | named ht =>
    rw [ofName_eq] at ht
    obtain ⟨v, hv⟩ := exists_of_map_eq_ok ht
    exact ⟨.atom v, hv⟩
  | «variable» v => exact ⟨.atom v, rfl⟩
  | neg _ ih =>
    obtain ⟨f, rfl⟩ := ih
    exact ⟨.neg f, rfl⟩
  | binary _ _ hw iht ihu =>
    refine exists_of_ofOperands ?_ hw
    exact List.forall_mem_cons.2 ⟨iht, List.forall_mem_singleton.2 ihu⟩
  | joined _ ht ih => exact exists_of_ofOperands ih ht
  | assembled _ _ ht ihf ihp => exact exists_of_assemble ihf ihp ht
  | operand _ hu ih =>
    obtain ⟨f, rfl⟩ := ih
    rw [Formula.operands_toTree] at hu
    obtain ⟨g, -, hg⟩ := List.mem_map.1 hu
    exact ⟨g, hg⟩
  | parsed ht =>
    rw [ofTokens_eq] at ht
    exact exists_of_map_eq_ok ht

theorem WellFormed.reachable {t : Tree} (h : t.WellFormed) : Reachable t := by
  induction h with
  | leaf hn => exact .variable ⟨_, hn⟩
  | unary _ ih => exact .neg ih
  | chain hlength _ ih => exact .joined ih (ofOperands_binary_of_le hlength _)

/-- Exactly the well-formed trees can be built. -/
theorem reachable_iff_wellFormed {t : Tree} : Reachable t ↔ t.WellFormed :=
  ⟨fun h => wellFormed_iff.2 h.exists_toTree, WellFormed.reachable⟩

end Tree

namespace Formula

open Propositional.Tree

theorem safe_toTree (f : Formula) : f.toTree.Safe where
  eval val p := by
    rw [eval_toTree]
    cases f.eval fun v => val v.name with
    | error e => cases e; exact nofun
    | ok b => exact nofun
  text p := by
    rw [text_toTree]
    exact nofun
  table settings p := by
    obtain ⟨built, -, htable⟩ := f.table_toTree settings
    rw [htable]
    match built with
    | .error e | .ok (.error e) | .ok (.ok t) => exact nofun

end Formula

namespace Tree

/-- Every tree that can be built is well formed, and no use of it ends in a `Panic`: its value, its
text and its table are those of a formula. Where a block of storage is refused to the table of the
formula, it is refused to that of the tree, and nowhere else. -/
theorem wellFormed_and_safe_of_reachable {t : Tree} (h : Reachable t) :
    t.WellFormed ∧ t.Safe ∧
      ∃ f : Formula, f.toTree = t ∧
        (∀ val : String → Option Bool,
          t.eval val = (f.eval fun v => val v.name).mapError .ofEval) ∧
        t.text = .ok f.text ∧
        ∀ settings, ∃ built : Except StorageError (Except TableError TruthTable),
          TruthTable.buildInStorage f settings = built.map (Except.mapError .table) ∧
            t.table settings = ofBuilt built := by
  obtain ⟨f, rfl⟩ := h.exists_toTree
  exact ⟨f.wellFormed_toTree, f.safe_toTree, f, rfl, f.eval_toTree, f.text_toTree, f.table_toTree⟩

/-- The second operand of a conjunction that has been read, negated once more. -/
theorem wellFormed_and_safe_of_negated_operand :
    let ts : List Token := [.ident "P", .op (.binary .and), .op .not, .ident "Q"]
    let t := unary .not (unary .not (leaf "Q"))
    ofTokens ts 1 = .ok (chain (.binary .and) [leaf "P", unary .not (leaf "Q")]) ∧
      t.WellFormed ∧ t.Safe ∧ t.text = .ok "( NOT ( NOT Q ) )" ∧
      t.eval (fun _ => none) = .error (.missing "Q") := by
  intro ts t
  have hread : ofTokens ts 1 = .ok (chain (.binary .and) [leaf "P", unary .not (leaf "Q")]) := by
    rw [ofTokens_eq]
    rfl
  have ht : Reachable t := .neg (.operand (.parsed hread) (by simp [operands]))
  obtain ⟨hwf, hsafe, -⟩ := wellFormed_and_safe_of_reachable ht
  exact ⟨hread, hwf, hsafe, rfl, rfl⟩

end Tree

end Propositional
