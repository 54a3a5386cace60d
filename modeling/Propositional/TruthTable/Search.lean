/-!
# Binary search

A value is looked up among ascending ones by halves: the one in the middle tells in which half it
stands.
-/

namespace Propositional

section

variable {α : Type} [LT α] [DecidableLT α]

/-- Looks for `a` among the items from `low` on and before `high`. -/
def searchFrom (items : List α) (a : α) (low high : Nat) (h : high ≤ items.length) : Option Nat :=
  if hlt : low < high then
    let mid := low + (high - low) / 2
    have hmid : mid < high := by omega
    if a < items[mid] then searchFrom items a low mid (by omega)
    else if items[mid] < a then searchFrom items a (mid + 1) high h
    else some mid
  else none
termination_by high - low

/-- The place of `a` among the items. -/
def search (items : List α) (a : α) : Option Nat :=
  searchFrom items a 0 items.length (Nat.le_refl _)

end

end Propositional
