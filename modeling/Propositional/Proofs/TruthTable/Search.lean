import Propositional.TruthTable.Search
import Propositional.Variable

/-!
# What a binary search finds

Among ascending items halving finds every item at its place, and nothing that is not there: it finds
what looking at one item after the other finds. Among others it may miss an item.
-/

namespace Propositional

section

variable {α : Type} [LT α] {items : List α}

/-- Ascending items are ordered as their places are. -/
theorem getElem_lt_iff [Std.Asymm (α := α) (· < ·)] (hasc : items.Pairwise (· < ·)) {i j : Nat}
    (hi : i < items.length) (hj : j < items.length) : items[i] < items[j] ↔ i < j := by
  refine ⟨fun h => Nat.lt_of_not_le fun hle => ?_, List.pairwise_iff_getElem.1 hasc i j hi hj⟩
  rcases Nat.lt_or_eq_of_le hle with hlt | rfl
  · exact Std.Asymm.asymm _ _ h (List.pairwise_iff_getElem.1 hasc j i hj hi hlt)
  · exact Std.Asymm.asymm _ _ h h

variable [DecidableLT α] {a : α} {low high place : Nat}

/-- The place of an item stays between the bounds. -/
theorem searchFrom_getElem [Std.Asymm (α := α) (· < ·)] (hasc : items.Pairwise (· < ·))
    (h : high ≤ items.length) (hplace : place < items.length) (hlow : low ≤ place)
    (hhigh : place < high) : searchFrom items items[place] low high h = some place := by
  fun_induction searchFrom items items[place] low high h with
  | case1 low high h _ mid hmid hless ih =>
    exact ih hlow ((getElem_lt_iff hasc hplace (by omega)).1 hless)
  | case2 low high h _ mid hmid _ hmore ih =>
    exact ih ((getElem_lt_iff hasc (by omega) hplace).1 hmore) hhigh
  | case3 low high h _ mid hmid hless hmore =>
    rw [getElem_lt_iff hasc hplace (by omega)] at hless
    rw [getElem_lt_iff hasc (by omega) hplace] at hmore
    exact congrArg some (by omega)
  | case4 low high h hnlt => omega

/-- Every item is found at its place. -/
theorem search_getElem [Std.Asymm (α := α) (· < ·)] (hasc : items.Pairwise (· < ·))
    (hplace : place < items.length) : search items items[place] = some place :=
  searchFrom_getElem hasc (Nat.le_refl _) hplace (Nat.zero_le place) hplace

theorem mem_of_searchFrom [Std.Trichotomous (α := α) (· < ·)] {h : high ≤ items.length}
    (hfound : searchFrom items a low high h = some place) : a ∈ items := by
  fun_induction searchFrom items a low high h with
  | case1 low high h _ mid _ _ ih => exact ih hfound
  | case2 low high h _ mid _ _ _ ih => exact ih hfound
  | case3 low high h _ mid _ hless hmore =>
    rw [Std.Trichotomous.trichotomous a _ hless hmore]
    exact List.getElem_mem _
  | case4 => cases hfound

/-- Among ascending items halving finds what looking at one after the other finds. -/
theorem search_eq_idxOf? [DecidableEq α] [Std.Asymm (α := α) (· < ·)]
    [Std.Trichotomous (α := α) (· < ·)] (hasc : items.Pairwise (· < ·)) (a : α) :
    search items a = items.idxOf? a := by
  cases hidx : items.idxOf? a with
  | some place =>
    obtain ⟨hplace, rfl, -⟩ := List.idxOf?_eq_some_iff.1 hidx
    exact search_getElem hasc hplace
  | none =>
    cases hfound : search items a with
    | none => rfl
    | some place => exact absurd (mem_of_searchFrom hfound) (List.idxOf?_eq_none_iff.1 hidx)

end

namespace Variable

instance : Std.Asymm (α := Variable) (· < ·) := ⟨fun v _ h k => v.lt_irrefl (lt_trans h k)⟩

instance : Std.Trichotomous (α := Variable) (· < ·) :=
  ⟨fun _ _ h k => Classical.byContradiction fun hne => k (lt_of_not_lt h hne)⟩

end Variable

end Propositional
