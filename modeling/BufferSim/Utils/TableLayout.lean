import BufferSim.Layout.Fields
import BufferSim.Utils.Report

/-!
# The layout of a table

The lines of the table of a rectangular result have the same length, and each
column takes the same characters of every line.  The cell of a row is read back
from these characters, up to spaces at its end.
-/

namespace BufferSim

open Cxx Layout

/-- Every row has one cell for each column. -/
def QueryResult.Rectangular (result : QueryResult) : Prop :=
  ∀ row ∈ result.rows, row.length = result.columns.length

instance : DecidablePred QueryResult.Rectangular :=
  fun result => inferInstanceAs
    (Decidable (∀ row ∈ result.rows, row.length = result.columns.length))

/-- The largest length of the name and the cells of a column. -/
def columnWidth (result : QueryResult) (c : ℕ) : ℕ :=
  ((result.columns :: result.rows).map
    (fun cells => (cells.getD c []).length)).max?.getD 0

/-- Two spaces follow the widest cell of each column. -/
def columnOffset (result : QueryResult) : ℕ → ℕ :=
  offset (fun c => columnWidth result c + 2)

/-- The characters of a line that belong to a column. -/
def columnSlice (result : QueryResult) (c : ℕ) (line : Text) : Text :=
  slice line (columnOffset result c) (columnWidth result c + 2)

/-- The table has a header, a line of dashes, a line for every row and an empty
line.  All but the last are aligned, and a cell is followed by at least two
spaces in the characters of its column. -/
structure Aligned (result : QueryResult) (lines : List Text) : Prop where
  length_eq : lines.length = result.rows.length + 4
  line_length : ∀ i < result.rows.length + 2, ∀ line, lines[i]? = some line →
    line.length = columnOffset result result.columns.length
  row_slice : ∀ i row line, result.rows[i]? = some row →
    lines[i + 2]? = some line → ∀ c cell, row[c]? = some cell →
      (∃ n, 2 ≤ n ∧
        columnSlice result c line = cell ++ List.replicate n ' ') ∧
      (columnSlice result c line).rdropWhile (· == ' ') =
        cell.rdropWhile (· == ' ')

/-! ## Widths -/

theorem getElem?_widenColumns (widths : List ℕ) (row : List Text) (c : ℕ) :
    (widenColumns widths row)[c]? =
      widths[c]?.map (fun width => max width (row.getD c []).length) := by
  induction widths generalizing row c with
  | nil => cases row <;> simp [widenColumns]
  | cons width widths ih =>
      cases row with
      | nil => simp [widenColumns]
      | cons cell row =>
          cases c with
          | zero => simp [widenColumns]
          | succ c => simpa [widenColumns] using ih row c

theorem getElem?_foldl_widenColumns (rows : List (List Text))
    (widths : List ℕ) (c : ℕ) :
    (rows.foldl widenColumns widths)[c]? =
      widths[c]?.map (fun width => rows.foldl
        (fun width row => max width (row.getD c []).length) width) := by
  induction rows generalizing widths with
  | nil => simp
  | cons row rows ih =>
      simp [ih, getElem?_widenColumns, Function.comp_def]

/-- The loops of the source compute the largest length of every column. -/
theorem columnWidths_eq (result : QueryResult) :
    columnWidths result =
      (List.range result.columns.length).map (columnWidth result) := by
  refine List.ext_getElem? fun c => ?_
  have hwidth : columnWidth result c = result.rows.foldl
      (fun width row => max width (row.getD c []).length)
        (result.columns.getD c []).length := by
    rw [columnWidth, List.map_cons, List.max?_cons', Option.getD_some,
      List.foldl_map]
  by_cases hc : c < result.columns.length
  · simp [columnWidths, getElem?_foldl_widenColumns, hwidth, hc]
  · simp [columnWidths, getElem?_foldl_widenColumns, hc]

theorem getElem?_columnWidths {result : QueryResult} {c width : ℕ} :
    (columnWidths result)[c]? = some width ↔
      c < result.columns.length ∧ width = columnWidth result c := by
  rw [columnWidths_eq, List.getElem?_map, Option.map_eq_some_iff]
  constructor
  · rintro ⟨d, hd, rfl⟩
    obtain ⟨hlt, rfl⟩ := List.getElem?_eq_some_iff.mp hd
    simpa using hlt
  · rintro ⟨hlt, rfl⟩
    exact ⟨c, List.getElem?_range hlt, rfl⟩

theorem length_columnWidths (result : QueryResult) :
    (columnWidths result).length = result.columns.length := by
  rw [columnWidths_eq, List.length_map, List.length_range]

theorem length_le_columnWidth {result : QueryResult} {cells : List Text}
    (hcells : cells ∈ result.columns :: result.rows) {c : ℕ} {cell : Text}
    (hcell : cells[c]? = some cell) :
    cell.length ≤ columnWidth result c := by
  have hlength : (cells.getD c []).length = cell.length := by
    rw [List.getD_eq_getElem?_getD, hcell, Option.getD_some]
  rw [← hlength]
  exact List.le_max?_getD_of_mem
    (List.mem_map_of_mem (f := fun cells => (cells.getD c []).length) hcells)

/-! ## Lines of cells -/

/-- The fields of a line are its padded cells. -/
theorem getElem?_paddedCells {result : QueryResult} {cells : List Text}
    (hlength : cells.length = result.columns.length) {c : ℕ} {field : Text} :
    (List.zipWith (fun width cell => Text.setw (width + 2) cell)
        (columnWidths result) cells)[c]? = some field ↔
      ∃ cell, cells[c]? = some cell ∧
        field = cell ++
          List.replicate (columnWidth result c + 2 - cell.length) ' ' := by
  rw [List.getElem?_zipWith_eq_some]
  constructor
  · rintro ⟨width, cell, hwidth, hcell, rfl⟩
    obtain ⟨-, rfl⟩ := getElem?_columnWidths.mp hwidth
    exact ⟨cell, hcell, rfl⟩
  · rintro ⟨cell, hcell, rfl⟩
    obtain ⟨hlt, -⟩ := List.getElem?_eq_some_iff.mp hcell
    exact ⟨columnWidth result c, cell,
      getElem?_columnWidths.mpr ⟨hlength ▸ hlt, rfl⟩, hcell, rfl⟩

theorem hasWidths_paddedCells {result : QueryResult} {cells : List Text}
    (hcells : cells ∈ result.columns :: result.rows)
    (hlength : cells.length = result.columns.length) :
    HasWidths (fun c => columnWidth result c + 2)
      (List.zipWith (fun width cell => Text.setw (width + 2) cell)
        (columnWidths result) cells) := by
  intro c field hfield
  obtain ⟨cell, hcell, rfl⟩ := (getElem?_paddedCells hlength).mp hfield
  have hle := length_le_columnWidth hcells hcell
  simp only [List.length_append, List.length_replicate]
  omega

theorem length_paddedLine {result : QueryResult} {cells : List Text}
    (hcells : cells ∈ result.columns :: result.rows)
    (hlength : cells.length = result.columns.length) :
    (paddedLine (columnWidths result) cells).length =
      columnOffset result result.columns.length := by
  have hcount : (List.zipWith (fun width cell => Text.setw (width + 2) cell)
      (columnWidths result) cells).length = result.columns.length := by
    simp [length_columnWidths, hlength]
  rw [← hcount]
  exact (hasWidths_paddedCells hcells hlength).length_flatten

/-- The slice of a column is its cell and at least two spaces. -/
theorem columnSlice_paddedLine {result : QueryResult} {cells : List Text}
    (hcells : cells ∈ result.columns :: result.rows)
    (hlength : cells.length = result.columns.length) {c : ℕ} {cell : Text}
    (hcell : cells[c]? = some cell) :
    columnSlice result c (paddedLine (columnWidths result) cells) =
      cell ++ List.replicate (columnWidth result c + 2 - cell.length) ' ' :=
  (hasWidths_paddedCells hcells hlength).slice_flatten
    ((getElem?_paddedCells hlength).mpr ⟨cell, hcell, rfl⟩)

theorem length_dashLine (result : QueryResult) :
    (dashLine (columnWidths result)).length =
      columnOffset result result.columns.length := by
  have h : HasWidths (fun c => columnWidth result c + 2)
      ((columnWidths result).map
        (fun width => List.replicate width '-' ++ "  ".toList)) := by
    intro c field hfield
    rw [List.getElem?_map, Option.map_eq_some_iff] at hfield
    obtain ⟨width, hwidth, rfl⟩ := hfield
    obtain ⟨-, rfl⟩ := getElem?_columnWidths.mp hwidth
    simp
  have hcount : ((columnWidths result).map
      (fun width => List.replicate width '-' ++ "  ".toList)).length =
        result.columns.length := by
    rw [List.length_map, length_columnWidths]
  rw [← hcount]
  exact h.length_flatten

/-! ## The lines of the table -/

/-- The lines of a table before the empty end of its text. -/
def tableLines (result : QueryResult) : List Text :=
  paddedLine (columnWidths result) result.columns ::
    dashLine (columnWidths result) ::
    (result.rows.map (paddedLine (columnWidths result)) ++ [[]])

theorem resultTable_eq (result : QueryResult) :
    resultTable result =
      ((tableLines result).map (fun line => line ++ ['\n'])).flatten := by
  simp [resultTable, tableLines, Function.comp_def]

theorem newline_not_mem_paddedLine (widths : List ℕ) {cells : List Text}
    (hcells : ∀ cell ∈ cells, '\n' ∉ cell) : '\n' ∉ paddedLine widths cells := by
  intro hmem
  obtain ⟨field, hfield, hnewline⟩ := List.mem_flatten.mp hmem
  obtain ⟨c, hc⟩ := List.mem_iff_getElem?.mp hfield
  obtain ⟨width, cell, -, hcell, rfl⟩ := List.getElem?_zipWith_eq_some.mp hc
  rcases List.mem_append.mp hnewline with hin | hpad
  · exact hcells cell (List.mem_of_getElem? hcell) hin
  · exact absurd (List.eq_of_mem_replicate hpad) (by decide)

theorem newline_not_mem_dashLine (widths : List ℕ) :
    '\n' ∉ dashLine widths := by
  simp [dashLine]

/-- The lines of the text are those of the table. -/
theorem splitOn_resultTable {result : QueryResult}
    (hclean : ∀ cells ∈ result.columns :: result.rows, ∀ cell ∈ cells,
      '\n' ∉ cell) :
    (resultTable result).splitOn '\n' = tableLines result ++ [[]] := by
  have hlines : ∀ line ∈ tableLines result, '\n' ∉ line := by
    intro line hline
    simp only [tableLines, List.mem_cons, List.mem_append, List.mem_map,
      List.not_mem_nil, or_false] at hline
    rcases hline with rfl | rfl | ⟨row, hrow, rfl⟩ | rfl
    · exact newline_not_mem_paddedLine _ (hclean _ List.mem_cons_self)
    · exact newline_not_mem_dashLine _
    · exact newline_not_mem_paddedLine _
        (hclean row (List.mem_cons_of_mem _ hrow))
    · exact List.not_mem_nil
  rw [resultTable_eq, splitOn_flatten hlines]

theorem getElem?_tableLines (result : QueryResult) {i : ℕ}
    (hi : i < result.rows.length) :
    (tableLines result ++ [[]])[i + 2]? =
      result.rows[i]?.map (paddedLine (columnWidths result)) := by
  have hlt : i < (result.rows.map (paddedLine (columnWidths result))).length := by
    rwa [List.length_map]
  simp only [tableLines, List.cons_append, List.append_assoc,
    List.getElem?_cons_succ]
  rw [List.getElem?_append_left hlt, List.getElem?_map]

theorem aligned_tableLines {result : QueryResult}
    (hrect : result.Rectangular) :
    Aligned result (tableLines result ++ [[]]) where
  length_eq := by simp [tableLines]
  line_length := by
    intro i hi line hline
    match i with
    | 0 =>
        obtain rfl := Option.some.inj hline
        exact length_paddedLine List.mem_cons_self rfl
    | 1 =>
        obtain rfl := Option.some.inj hline
        exact length_dashLine result
    | i + 2 =>
        rw [getElem?_tableLines result (by omega)] at hline
        obtain ⟨row, hrow, rfl⟩ := Option.map_eq_some_iff.mp hline
        have hmem := List.mem_of_getElem? hrow
        exact length_paddedLine (List.mem_cons_of_mem _ hmem) (hrect row hmem)
  row_slice := by
    intro i row line hrow hline c cell hcell
    have hmem := List.mem_of_getElem? hrow
    obtain ⟨hi, -⟩ := List.getElem?_eq_some_iff.mp hrow
    rw [getElem?_tableLines result hi, hrow] at hline
    obtain rfl := Option.some.inj hline
    have hcells := List.mem_cons_of_mem result.columns hmem
    have hle := length_le_columnWidth hcells hcell
    rw [columnSlice_paddedLine hcells (hrect row hmem) hcell]
    exact ⟨⟨_, by omega, rfl⟩, rdropWhile_append_replicate cell ' ' _⟩

/-- The table of a rectangular result without newlines is aligned, and each cell
is read back from its line, up to the spaces at its end. -/
theorem table_aligned {result : QueryResult} (hrect : result.Rectangular)
    (hrows : result.rows ≠ [])
    (hclean : ∀ cells ∈ result.columns :: result.rows, ∀ cell ∈ cells,
      '\n' ∉ cell) (timeBuf sql : Text) (isFirstWrite : Bool) (file : Text) :
    ∃ table,
      appendQueryResultToFile timeBuf sql result isFirstWrite file =
        (if isFirstWrite then [] else file) ++
          (reportHead timeBuf sql result ++ table) ∧
      Aligned result (table.splitOn '\n') := by
  refine ⟨resultTable result, ?_, ?_⟩
  · cases isFirstWrite <;>
      simp [appendQueryResultToFile, queryReport, hrows]
  · rw [splitOn_resultTable hclean]
    exact aligned_tableLines hrect

/-- The width of the first column comes from its name, that of the second from a
cell. -/
def twoStudents : QueryResult where
  columns := ["id".toList, "name".toList]
  rows := [["7".toList, "Ann".toList], ["8".toList, "Robert".toList]]

theorem table_aligned_two : ∃ table,
    appendQueryResultToFile [] [] twoStudents true [] =
      [] ++ (reportHead [] [] twoStudents ++ table) ∧
    Aligned twoStudents (table.splitOn '\n') :=
  table_aligned (by decide) (by decide) (by decide) [] [] true []

end BufferSim
