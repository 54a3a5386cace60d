import Mathlib.Algebra.GroupWithZero.Nat
import Propositional.Proofs.TruthTable.Build
import Propositional.Proofs.TruthTable.Lines

/-!
# The columns of a printed table

Each line of a printed table is made of cells, one for each variable, and a short end. In all lines
the cells of a variable take the same room, one character more than its name, so they stand at the
same place (`column`): the name in the heading, the bits of the row numbers below it. Names have no
blanks and the rows end in their values, so the variables and the values can be read off the text.
-/

namespace Propositional

namespace Text

/-- In parts written one behind the other, each stands behind those before it. -/
theorem extract_flatten {parts : List (List Char)} {j : Nat} (h : j < parts.length)
    (rest : List Char) :
    (parts.flatten ++ rest).extract (parts.take j).flatten.length
      (parts.take (j + 1)).flatten.length = parts[j] := by
  have hsplit : parts.flatten =
      (parts.take j).flatten ++ (parts[j] ++ (parts.drop (j + 1)).flatten) := by
    rw [← List.flatten_cons, ← List.drop_eq_getElem_cons h, ← List.flatten_append,
      List.take_append_drop]
  have hstop : (parts.take (j + 1)).flatten.length =
      (parts.take j).flatten.length + parts[j].length := by
    rw [List.take_succ_eq_append_getElem h, List.flatten_append, List.length_append,
      List.flatten_singleton]
  rw [hstop, hsplit, List.append_assoc, List.append_assoc, List.extract, List.drop_left,
    Nat.add_sub_cancel_left, List.take_left]

end Text

namespace TruthTable

/-- Where the column of variable `j` starts. -/
def columnStart (vs : List Variable) (j : Nat) : Nat :=
  ((vs.take j).map fun v => v.name.length + 1).sum

/-- What a line has in the column of variable `j`. -/
def column (vs : List Variable) (j : Nat) (line : List Char) : List Char :=
  line.extract (columnStart vs j) (columnStart vs (j + 1))

/-- The lines of a printed table, which are as long as each other and have their columns at the same
places. -/
structure Aligned (t : TruthTable) (headingLine : List Char) (rowLines : List (List Char)) :
    Prop where
  text_eq : t.text.toList = ((headingLine :: rowLines).map (· ++ ['\n'])).flatten
  newline_not_mem : ∀ line ∈ headingLine :: rowLines, '\n' ∉ line
  length_rowLines : rowLines.length = t.size
  length_line : ∀ line ∈ headingLine :: rowLines,
    line.length = (t.vars.map fun v => v.name.length + 1).sum + 3
  column_heading : ∀ j (hj : j < t.vars.length),
    column t.vars j headingLine = t.vars[j].name.toList ++ [' ']
  column_row : ∀ i (hi : i < rowLines.length) j (hj : j < t.vars.length),
    column t.vars j rowLines[i] = bit (i.testBit j) :: List.replicate t.vars[j].name.length ' '
  getLast?_row : ∀ i (hi : i < rowLines.length),
    ∃ b, t.row i = some b ∧ rowLines[i].getLast? = some (bit b)

variable {vs ws : List Variable} {cells : List (List Char)}

theorem length_flatten_take (h : cells.map List.length = vs.map fun v => v.name.length + 1)
    (j : Nat) : (cells.take j).flatten.length = columnStart vs j := by
  rw [List.length_flatten, List.map_take, h, ← List.map_take, columnStart]

/-- Cells as wide as the columns stand in them. -/
theorem column_flatten (h : cells.map List.length = vs.map fun v => v.name.length + 1) {j : Nat}
    (hj : j < cells.length) (rest : List Char) :
    column vs j (cells.flatten ++ rest) = cells[j] := by
  rw [column, ← length_flatten_take h, ← length_flatten_take h]
  exact Text.extract_flatten hj rest

theorem length_cells_append (h : cells.map List.length = vs.map fun v => v.name.length + 1)
    (rest : List Char) :
    (cells.flatten ++ rest).length = (vs.map fun v => v.name.length + 1).sum + rest.length := by
  rw [List.length_append, List.length_flatten, h]

theorem map_length_headingCell (vs : List Variable) :
    (vs.map headingCell).map List.length = vs.map fun v => v.name.length + 1 := by
  simp [headingCell, Function.comp_def, String.length_toList]

theorem map_length_cell (vs : List Variable) (i : Nat) :
    ((rowEntries vs i).map fun e => cell e.1 e.2).map List.length =
      vs.map fun v => v.name.length + 1 := by
  refine List.ext_getElem (by simp [rowEntries]) fun j _ _ => ?_
  simp [rowEntries, cell]

theorem column_headingText {j : Nat} (hj : j < vs.length) :
    column vs j (headingText vs) = vs[j].name.toList ++ [' '] := by
  have hcell := column_flatten (map_length_headingCell vs) (j := j) (by simpa using hj)
    ['|', ' ', '=']
  rwa [List.getElem_map] at hcell

theorem column_rowText {j : Nat} (hj : j < vs.length) (i : Nat) (b : Bool) :
    column vs j (rowText vs i b) =
      bit (i.testBit j) :: List.replicate vs[j].name.length ' ' := by
  have hcells : j < ((rowEntries vs i).map fun e => cell e.1 e.2).length := by
    simpa [rowEntries] using hj
  calc column vs j (rowText vs i b)
    _ = ((rowEntries vs i).map fun e => cell e.1 e.2)[j] :=
      column_flatten (map_length_cell vs i) hcells _
    _ = cell vs[j] (i.testBit j) := by simp [rowEntries]

theorem getElem_rowTexts {t : TruthTable} {i : Nat} (hi : i < t.rowTexts.length) :
    ∃ b, t.row i = some b ∧ t.rowTexts[i] = rowText t.vars i b := by
  have hsize : i < t.values.toList.length := by simpa [rowTexts] using hi
  refine ⟨t.values.toList[i], ?_, by simp [rowTexts]⟩
  rw [row_eq_getElem?, List.getElem?_eq_getElem hsize]

theorem length_of_mem_lines {t : TruthTable} {line : List Char}
    (h : line ∈ headingText t.vars :: t.rowTexts) :
    line.length = (t.vars.map fun v => v.name.length + 1).sum + 3 := by
  rcases List.mem_cons.1 h with rfl | h
  · exact length_cells_append (map_length_headingCell t.vars) _
  · obtain ⟨i, hi, rfl⟩ := List.getElem_of_mem h
    obtain ⟨b, -, hline⟩ := getElem_rowTexts hi
    rw [hline]
    exact length_cells_append (map_length_cell t.vars i) _

theorem aligned (t : TruthTable) : Aligned t (headingText t.vars) t.rowTexts where
  text_eq := by rw [TruthTable.text, String.toList_ofList, lines_eq_map]
  newline_not_mem := fun _ => newline_not_mem_of_mem_lines
  length_rowLines := t.length_rowTexts
  length_line := fun _ => length_of_mem_lines
  column_heading := fun _ => column_headingText
  column_row := fun i hi j hj => by
    obtain ⟨b, -, hline⟩ := getElem_rowTexts hi
    rw [hline, column_rowText hj]
  getLast?_row := fun i hi => by
    obtain ⟨b, hrow, hline⟩ := getElem_rowTexts hi
    refine ⟨b, hrow, ?_⟩
    rw [hline, rowText, List.getLast?_append]
    rfl

theorem splitOnce?_headingText_cons (v : Variable) (vs : List Variable) :
    Text.splitOnce? ' ' (headingText (v :: vs)) = some (v.name.toList, headingText vs) := by
  have hblank : ' ' ∉ v.name.toList := fun h => absurd (v.isName.2 ' ' h) (by decide)
  rw [← Text.splitOnce?_append hblank]
  simp [headingText, headingCell]

/-- A heading names its variables: each ends at the next blank, and the bar is none. -/
theorem headingText_inj (h : headingText vs = headingText ws) : vs = ws := by
  have hbar : ∀ (v : Variable) (us : List Variable), headingText [] ≠ headingText (v :: us) := by
    intro v us h
    have hname := congrArg (Text.splitOnce? ' ') h
    rw [splitOnce?_headingText_cons] at hname
    have hname : v.name.toList = ['|'] := (Prod.mk.inj (Option.some.inj hname)).1.symm
    exact absurd (v.isName.2 '|' (hname ▸ List.mem_singleton_self _)) (by decide)
  induction vs generalizing ws with
  | nil =>
    cases ws with
    | nil => rfl
    | cons w ws => exact absurd h (hbar w ws)
  | cons v vs ih =>
    cases ws with
    | nil => exact absurd h.symm (hbar v vs)
    | cons w ws =>
      have hcut := congrArg (Text.splitOnce? ' ') h
      rw [splitOnce?_headingText_cons, splitOnce?_headingText_cons] at hcut
      obtain ⟨hname, hrest⟩ := Prod.mk.inj (Option.some.inj hcut)
      rw [Variable.ext_name (String.toList_inj.1 hname), ih hrest]

/-- The text of a table tells its variables and the values that are kept. -/
theorem eq_of_text_eq {t t' : TruthTable} (h : t'.text = t.text) :
    t'.vars = t.vars ∧ t'.values.toList = t.values.toList := by
  have hlines := congrArg (fun s : String => Text.splitAll '\n' s.toList) h
  simp only [splitAll_text] at hlines
  obtain ⟨hheading, hrows⟩ := List.cons.inj (List.append_cancel_right hlines)
  refine ⟨headingText_inj hheading, ?_⟩
  rw [← map_endsInOne_rowTexts, ← map_endsInOne_rowTexts, hrows]

/-- A printed table has a line for the heading and one for each row that is kept, all of the same
length. In every column the heading has the name and a row the bit of its number, both followed by
blanks, and the last character of a row is its value. So tables with the same text have the same
variables and have kept the same values. -/
theorem exists_aligned_lines (t : TruthTable) :
    (∃ headingLine rowLines, Aligned t headingLine rowLines) ∧
      ∀ t' : TruthTable, t'.text = t.text →
        t'.vars = t.vars ∧ t'.values.toList = t.values.toList :=
  ⟨⟨_, _, aligned t⟩, fun _ => eq_of_text_eq⟩

/-- Two tables of a conjunction that differ in what would have fitted, which the text does not
tell. -/
theorem exists_aligned_lines_two_limits :
    ∃ t t', build (.chain .and (.atom ⟨"E10", by decide⟩) (.atom ⟨"E2", by decide⟩) []) = .ok t ∧
      build (.chain .and (.atom ⟨"E10", by decide⟩) (.atom ⟨"E2", by decide⟩) [])
        { rowLimit := some 9 } = .ok t' ∧
      t' ≠ t ∧ t'.text = t.text ∧ t'.vars = t.vars ∧ t'.values.toList = t.values.toList := by
  let t : TruthTable := ⟨[⟨"E10", by decide⟩, ⟨"E2", by decide⟩],
    { values := #[false, false, false, true], capacity := 4 }⟩
  let t' : TruthTable := { t with values := { t.values with capacity := 9 } }
  have htext : t'.text = t.text := rfl
  refine ⟨t, t', ?_, ?_, by decide, htext, (exists_aligned_lines t).2 t' htext⟩
  · rw [build_eq_outcome]
    rfl
  · rw [build_eq_outcome]
    rfl

/-- The column of the longer name is wider in every line. -/
example : TruthTable.text ⟨[⟨"E10", by decide⟩, ⟨"E2", by decide⟩],
    { values := #[false, false, false], capacity := 3, dropped := 1 }⟩ =
      "E10 E2 | =\n0   0  | 0\n1   0  | 0\n0   1  | 0\n" := by decide +kernel

end TruthTable

end Propositional
