import Propositional.Text.Split
import Propositional.TruthTable.Printer

/-!
# The lines of a printed table

No name and no cell contains a line end, so cutting a printed table at its line ends gives back the
heading and one line for each row that is kept. The last character of a row is its value.
-/

namespace Propositional

namespace Text

/-- Lines without the separator, each ended by it, are what it cuts their text into. -/
theorem splitAll_flatten {sep : Char} {ls : List (List Char)} (h : ∀ l ∈ ls, sep ∉ l) :
    splitAll sep (ls.map (· ++ [sep])).flatten = ls ++ [[]] := by
  induction ls with
  | nil => rfl
  | cons l ls ih =>
    have ⟨hl, hls⟩ := List.forall_mem_cons.1 h
    rw [List.map_cons, List.flatten_cons, List.append_assoc, List.singleton_append,
      splitAll_append hl, ih hls, List.cons_append]

end Text

namespace TruthTable

/-- The heading without its line end. -/
def headingText (vs : List Variable) : List Char := vs.flatMap headingCell ++ ['|', ' ', '=']

/-- The line of row `i` with value `b`, without its line end. -/
def rowText (vs : List Variable) (i : Nat) (b : Bool) : List Char :=
  (rowEntries vs i).flatMap (fun e => cell e.1 e.2) ++ ['|', ' ', bit b]

/-- The lines of the rows that are kept, without their line ends. -/
def rowTexts (t : TruthTable) : List (List Char) := t.values.toList.mapIdx (rowText t.vars)

/-- Whether a line shows a true row. -/
def endsInOne (line : List Char) : Bool := line.getLast? == some '1'

theorem lines_eq_map (t : TruthTable) :
    t.lines = (headingText t.vars :: t.rowTexts).map (· ++ ['\n']) := by
  have hrows : t.values.toList.mapIdx (rowLine t.vars) = t.rowTexts.map (· ++ ['\n']) := by
    refine List.ext_getElem (by simp [rowTexts]) fun i _ _ => ?_
    simp [rowTexts, rowText, rowLine]
  rw [lines, hrows, heading, List.map_cons, headingText, List.append_assoc]
  rfl

theorem newline_not_mem_headingText (vs : List Variable) : '\n' ∉ headingText vs := by
  intro h
  simp [headingText, headingCell] at h
  obtain ⟨v, -, hv⟩ := h
  exact absurd (v.isName.2 '\n' hv) (by decide)

theorem newline_not_mem_rowText (vs : List Variable) (i : Nat) (b : Bool) :
    '\n' ∉ rowText vs i b := by
  have hbit : ∀ b, '\n' ≠ bit b := by decide
  simp [rowText, cell, hbit]

theorem newline_not_mem_of_mem_lines {t : TruthTable} {line : List Char}
    (h : line ∈ headingText t.vars :: t.rowTexts) : '\n' ∉ line := by
  rcases List.mem_cons.1 h with rfl | h
  · exact newline_not_mem_headingText t.vars
  · obtain ⟨i, hi, rfl⟩ := List.mem_mapIdx.1 h
    exact newline_not_mem_rowText t.vars i _

/-- A printed table has one line for the heading, one for each row and none behind them. -/
theorem splitAll_text (t : TruthTable) :
    Text.splitAll '\n' t.text.toList = headingText t.vars :: t.rowTexts ++ [[]] := by
  rw [TruthTable.text, String.toList_ofList, lines_eq_map, Text.splitAll_flatten]
  exact fun _ => newline_not_mem_of_mem_lines

theorem size_eq_length (t : TruthTable) : t.size = t.values.toList.length := rfl

@[simp] theorem length_rowTexts (t : TruthTable) : t.rowTexts.length = t.size := by
  rw [rowTexts, List.length_mapIdx, size_eq_length]

theorem endsInOne_rowText (vs : List Variable) (i : Nat) (b : Bool) :
    endsInOne (rowText vs i b) = b := by
  rw [endsInOne, rowText, List.getLast?_append]
  cases b <;> rfl

/-- The row lines show the values. -/
theorem map_endsInOne_rowTexts (t : TruthTable) : t.rowTexts.map endsInOne = t.values.toList := by
  refine List.ext_getElem (by simp [rowTexts]) fun i _ _ => ?_
  simp [rowTexts, endsInOne_rowText]

end TruthTable

end Propositional
