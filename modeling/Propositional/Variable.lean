import Propositional.Text.CharClass
import Propositional.Text.Quoted

/-!
# Variables

A variable is its name: one or more word characters. Two variables are the same when their names
are, letter case included, and variables are ordered as their names are.
-/

namespace Propositional

/-- A name is a non-empty run of word characters. -/
def IsName (s : String) : Prop := s.toList ≠ [] ∧ ∀ c ∈ s.toList, Text.isWord c = true

instance (s : String) : Decidable (IsName s) :=
  decidable_of_iff (s.toList ≠ [] ∧ s.toList.all Text.isWord = true) (by simp [IsName])

structure Variable where
  name : String
  isName : IsName name
  deriving DecidableEq

/-- The text is no variable name. -/
structure NameError where
  name : String
  deriving DecidableEq, Repr

def NameError.message (e : NameError) : String := "Invalid variable name: " ++ Text.quoted e.name

namespace Variable

instance : ToString Variable := ⟨name⟩

instance : Repr Variable := ⟨fun v _ => repr v.name⟩

/-- The variable with this name, if it is one. -/
def ofName? (s : String) : Option Variable := if h : IsName s then some ⟨s, h⟩ else none

/-- The variable with this name. -/
def ofName (s : String) : Except NameError Variable :=
  match ofName? s with
  | some v => .ok v
  | none => .error ⟨s⟩

instance : LT Variable := ⟨fun v w => v.name < w.name⟩

instance (v w : Variable) : Decidable (v < w) := inferInstanceAs (Decidable (v.name < w.name))

/-- Variables in ascending order, with `v` in its place. -/
def insert (v : Variable) : List Variable → List Variable
  | [] => [v]
  | w :: ws => if v < w then v :: w :: ws else if v = w then w :: ws else w :: insert v ws

/-- The distinct variables of a list, ascending. -/
def distinct (vs : List Variable) : List Variable := vs.foldr insert []

/-- The variables of a list in ascending order, as often as they occur in it. -/
def sorted (vs : List Variable) : List Variable := vs.mergeSort fun v w => !decide (w < v)

theorem ext_name {v w : Variable} (h : v.name = w.name) : v = w := by
  cases v; cases w; cases h; rfl

theorem ofName?_name (v : Variable) : ofName? v.name = some v := by
  simp [ofName?, v.isName]

theorem name_of_ofName? {s : String} {v : Variable} (h : ofName? s = some v) : v.name = s := by
  unfold ofName? at h
  split at h
  · cases h; rfl
  · cases h

theorem ofName?_eq_none_iff {s : String} : ofName? s = none ↔ ¬ IsName s := by
  simp [ofName?]

theorem lt_irrefl (v : Variable) : ¬ v < v := String.lt_irrefl v.name

theorem lt_trans {u v w : Variable} (h : u < v) (k : v < w) : u < w := String.lt_trans h k

/-- Ascending variables are distinct. -/
theorem nodup_of_pairwise {vs : List Variable} (h : vs.Pairwise (· < ·)) : vs.Nodup := by
  refine h.imp fun {v w} hlt => ?_
  rintro rfl
  exact v.lt_irrefl hlt

/-- Of two different variables one comes first. -/
theorem lt_of_not_lt {v w : Variable} (h : ¬ v < w) (hne : v ≠ w) : w < v :=
  have hle : w.name ≤ v.name := Std.not_lt.1 h
  have hlt : w.name < v.name := Std.lt_of_le_of_ne hle fun e => hne (ext_name e.symm)
  hlt

theorem mem_insert {u v : Variable} {ws : List Variable} : u ∈ insert v ws ↔ u = v ∨ u ∈ ws := by
  induction ws with
  | nil => simp [insert]
  | cons w ws ih =>
    rw [insert]
    split
    · simp
    · split
      · simp_all
      · simp only [List.mem_cons, ih]
        exact ⟨fun h => h.elim (.inr ∘ .inl) (·.imp id .inr), fun h => by
          rcases h with h | h | h
          · exact .inr (.inl h)
          · exact .inl h
          · exact .inr (.inr h)⟩

theorem pairwise_insert {v : Variable} {ws : List Variable} (h : ws.Pairwise (· < ·)) :
    (insert v ws).Pairwise (· < ·) := by
  induction ws with
  | nil => simp [insert]
  | cons w ws ih =>
    rw [List.pairwise_cons] at h
    rw [insert]
    split
    · rename_i hv
      refine List.pairwise_cons.2 ⟨fun u hu => ?_, List.pairwise_cons.2 h⟩
      rcases List.mem_cons.1 hu with rfl | hu
      · exact hv
      · exact lt_trans hv (h.1 u hu)
    · split
      · exact List.pairwise_cons.2 h
      · rename_i hv hne
        refine List.pairwise_cons.2 ⟨fun u hu => ?_, ih h.2⟩
        rcases mem_insert.1 hu with rfl | hu
        · exact lt_of_not_lt hv hne
        · exact h.1 u hu

theorem mem_distinct {u : Variable} {vs : List Variable} : u ∈ distinct vs ↔ u ∈ vs := by
  induction vs with
  | nil => simp [distinct]
  | cons v vs ih => exact mem_insert.trans (by rw [List.mem_cons]; exact or_congr_right ih)

theorem pairwise_distinct (vs : List Variable) : (distinct vs).Pairwise (· < ·) := by
  induction vs with
  | nil => exact .nil
  | cons v vs ih => exact pairwise_insert ih

end Variable

end Propositional
