import Propositional.Formula.Eval

/-!
# Assignments

An assignment gives a truth value to finitely many variables. It is kept as a list in ascending
order of the variables, so that equal assignments are equal lists.
-/

namespace Propositional

structure Assignment where
  entries : List (Variable × Bool) := []
  ascending : entries.Pairwise (·.1 < ·.1) := by exact .nil
  deriving DecidableEq

namespace Assignment

def empty : Assignment := {}

def get? (a : Assignment) (v : Variable) : Option Bool := a.entries.lookup v

/-- The entries in ascending order, with that of `v` replaced or added. -/
def put (v : Variable) (b : Bool) : List (Variable × Bool) → List (Variable × Bool)
  | [] => [(v, b)]
  | e :: es =>
    if v < e.1 then (v, b) :: e :: es
    else if v = e.1 then (v, b) :: es
    else e :: put v b es

theorem mem_put {v : Variable} {b : Bool} {e : Variable × Bool} {es : List (Variable × Bool)}
    (h : e ∈ put v b es) : e = (v, b) ∨ e ∈ es := by
  induction es with
  | nil => simpa [put] using h
  | cons x es ih =>
    rw [put] at h
    split at h
    · simpa using h
    · split at h
      · exact (List.mem_cons.1 h).imp id (List.mem_cons_of_mem _)
      · rcases List.mem_cons.1 h with rfl | h
        · exact .inr List.mem_cons_self
        · exact (ih h).imp id (List.mem_cons_of_mem _)

theorem pairwise_put {v : Variable} {b : Bool} {es : List (Variable × Bool)}
    (h : es.Pairwise (·.1 < ·.1)) : (put v b es).Pairwise (·.1 < ·.1) := by
  induction es with
  | nil => simp [put]
  | cons x es ih =>
    have ⟨hx, hes⟩ := List.pairwise_cons.1 h
    rw [put]
    split
    · rename_i hv
      refine List.pairwise_cons.2 ⟨fun e he => ?_, h⟩
      rcases List.mem_cons.1 he with rfl | he
      · exact hv
      · exact Variable.lt_trans hv (hx e he)
    · split
      · rename_i hv
        subst hv
        exact List.pairwise_cons.2 ⟨hx, hes⟩
      · rename_i hv hne
        refine List.pairwise_cons.2 ⟨fun e he => ?_, ih hes⟩
        rcases mem_put he with rfl | he
        · exact Variable.lt_of_not_lt hv hne
        · exact hx e he

/-- The assignment that also gives `b` to `v`, in place of any earlier value. -/
def set (a : Assignment) (v : Variable) (b : Bool) : Assignment :=
  ⟨put v b a.entries, pairwise_put a.ascending⟩

/-- The assignment without a value for `v`. -/
def erase (a : Assignment) (v : Variable) : Assignment :=
  ⟨a.entries.filter (·.1 ≠ v), a.ascending.filter _⟩

/-- The assignment of a list of pairs; of two for one variable the later counts. -/
def ofList (es : List (Variable × Bool)) : Assignment :=
  es.foldl (fun a e => a.set e.1 e.2) empty

/-- The entries in ascending order of the variables. -/
def toList (a : Assignment) : List (Variable × Bool) := a.entries

theorem lookup_put (v w : Variable) (b : Bool) (es : List (Variable × Bool)) :
    (put v b es).lookup w = if w = v then some b else es.lookup w := by
  induction es with
  | nil =>
    by_cases h : w = v
    · simp [put, h]
    · simp [put, List.lookup_cons, h, beq_eq_false_iff_ne.2 h]
  | cons e es ih =>
    obtain ⟨u, c⟩ := e
    rw [put]
    split
    · by_cases h : w = v
      · simp [h]
      · simp [List.lookup_cons, h, beq_eq_false_iff_ne.2 h]
    · split
      · rename_i hv
        subst hv
        by_cases h : w = v
        · simp [h]
        · simp [List.lookup_cons, h, beq_eq_false_iff_ne.2 h]
      · rename_i hne
        by_cases h : w = u
        · subst h
          simp [Ne.symm hne]
        · rw [List.lookup_cons, beq_eq_false_iff_ne.2 h, ih, List.lookup_cons,
            beq_eq_false_iff_ne.2 h]

@[simp] theorem get?_empty (v : Variable) : empty.get? v = none := rfl

/-- A value that is set is the one read, and other variables keep theirs. -/
theorem get?_set (a : Assignment) (v w : Variable) (b : Bool) :
    (a.set v b).get? w = if w = v then some b else a.get? w :=
  lookup_put v w b a.entries

theorem lookup_filter_ne (v w : Variable) (es : List (Variable × Bool)) :
    (es.filter (·.1 ≠ v)).lookup w = if w = v then none else es.lookup w := by
  induction es with
  | nil => simp
  | cons e es ih =>
    obtain ⟨u, c⟩ := e
    by_cases hu : u = v
    · subst hu
      rw [List.filter_cons_of_neg (by simp), ih]
      split
      · rfl
      · rename_i hw
        rw [List.lookup_cons, beq_eq_false_iff_ne.2 hw]
    · rw [List.filter_cons_of_pos (by simpa using hu), List.lookup_cons, List.lookup_cons, ih]
      by_cases hw : w = u
      · subst hw
        simp [hu]
      · rw [beq_eq_false_iff_ne.2 hw]

theorem get?_erase (a : Assignment) (v w : Variable) :
    (a.erase v).get? w = if w = v then none else a.get? w :=
  lookup_filter_ne v w a.entries

end Assignment

end Propositional
