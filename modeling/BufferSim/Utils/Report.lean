import BufferSim.Database.SQLiteManager

/-!
# The report on a query

`Helpers::appendQueryResultToFile` writes the report on one query to
`display.txt`: a head with the time, the SQL text and the record count, and
either a line for an empty result or a table with padded columns.

Every padded cell is followed by spaces, because the width of a column is the
largest length in it.  This tells the report on an empty result from every
other report by its end.
-/

namespace BufferSim

open Cxx

/-- Widen the columns to the cells of one more row. -/
def widenColumns : List ℕ → List Text → List ℕ
  | width :: widths, cell :: row =>
      max width cell.length :: widenColumns widths row
  | widths, _ => widths

/-- `widths`: the largest length of the name and the cells of each column. -/
def columnWidths (result : QueryResult) : List ℕ :=
  result.rows.foldl widenColumns (result.columns.map List.length)

/-- The names or cells of one line, padded to two more than the width. -/
def paddedLine (widths : List ℕ) (cells : List Text) : Text :=
  (List.zipWith (fun width cell => Text.setw (width + 2) cell)
    widths cells).flatten

def dashLine (widths : List ℕ) : Text :=
  (widths.map (fun width => List.replicate width '-' ++ "  ".toList)).flatten

/-- The table of a result with at least one row. -/
def resultTable (result : QueryResult) : Text :=
  let widths := columnWidths result
  paddedLine widths result.columns ++ "\n".toList ++
    dashLine widths ++ "\n".toList ++
    (result.rows.map
      (fun row => paddedLine widths row ++ "\n".toList)).flatten ++
    "\n".toList

def reportHead (timeBuf sql : Text) (result : QueryResult) : Text :=
  "========================================\n".toList ++
  "  Query executed at: ".toList ++ timeBuf ++ "\n".toList ++
  "  SQL: ".toList ++ sql ++ "\n".toList ++
  "  Records: ".toList ++ Text.ofInt result.recordCount ++ "\n".toList ++
  "========================================\n\n".toList

def queryReport (timeBuf sql : Text) (result : QueryResult) : Text :=
  reportHead timeBuf sql result ++
    if result.rows = [] then "(No results)\n\n".toList else resultTable result

/-- `Helpers::appendQueryResultToFile`, for a file that can be written. -/
def appendQueryResultToFile (timeBuf sql : Text) (result : QueryResult)
    (isFirstWrite : Bool) (file : Text) : Text :=
  if isFirstWrite then queryReport timeBuf sql result
  else file ++ queryReport timeBuf sql result

/-! ## Column widths -/

/-- No cell of the row is longer than its column is wide. -/
def FitsColumns : List ℕ → List Text → Prop
  | width :: widths, cell :: row =>
      cell.length ≤ width ∧ FitsColumns widths row
  | _, _ => True

@[simp] theorem fitsColumns_nil_left (row : List Text) :
    FitsColumns [] row := by
  simp [FitsColumns]

@[simp] theorem fitsColumns_nil_right (widths : List ℕ) :
    FitsColumns widths [] := by
  cases widths <;> simp [FitsColumns]

@[simp] theorem fitsColumns_cons {width : ℕ} {widths : List ℕ} {cell : Text}
    {row : List Text} :
    FitsColumns (width :: widths) (cell :: row) ↔
      cell.length ≤ width ∧ FitsColumns widths row :=
  Iff.rfl

/-- The row that widens the columns fits afterwards. -/
theorem fitsColumns_widen_self (widths : List ℕ) (row : List Text) :
    FitsColumns (widenColumns widths row) row := by
  induction widths generalizing row with
  | nil => cases row <;> simp [widenColumns]
  | cons width widths ih =>
      cases row with
      | nil => simp
      | cons cell row =>
          exact fitsColumns_cons.mpr ⟨Nat.le_max_right _ _, ih row⟩

/-- A row that fits still does after another row has widened the columns. -/
theorem FitsColumns.widen {widths : List ℕ} {row : List Text}
    (h : FitsColumns widths row) (other : List Text) :
    FitsColumns (widenColumns widths other) row := by
  induction widths generalizing row other with
  | nil => cases other <;> exact h
  | cons width widths ih =>
      cases other with
      | nil => exact h
      | cons cell' other =>
          cases row with
          | nil => simp
          | cons cell row =>
              obtain ⟨hhead, hrest⟩ := fitsColumns_cons.mp h
              exact fitsColumns_cons.mpr
                ⟨hhead.trans (Nat.le_max_left _ _), ih hrest other⟩

theorem FitsColumns.foldl_widen {widths : List ℕ} {row : List Text}
    (h : FitsColumns widths row) (rows : List (List Text)) :
    FitsColumns (rows.foldl widenColumns widths) row := by
  induction rows generalizing widths with
  | nil => exact h
  | cons other rows ih => exact ih (h.widen other)

/-- Every row of a result fits into its columns. -/
theorem fitsColumns_of_mem {result : QueryResult} {row : List Text}
    (hrow : row ∈ result.rows) : FitsColumns (columnWidths result) row := by
  obtain ⟨before, after, hrows⟩ := List.append_of_mem hrow
  rw [columnWidths, hrows, List.foldl_append, List.foldl_cons]
  exact (fitsColumns_widen_self _ row).foldl_widen after

/-! ## The end of a report -/

/-- A cell that fits is followed by at least two spaces. -/
theorem setw_eq_append_spaces {width : ℕ} {cell : Text}
    (h : cell.length ≤ width) :
    ∃ text, Text.setw (width + 2) cell = text ++ [' '] := by
  refine ⟨cell ++ List.replicate (width + 1 - cell.length) ' ', ?_⟩
  have hpad : width + 2 - cell.length = width + 1 - cell.length + 1 := by
    omega
  rw [Text.setw, List.rightpad, hpad, List.replicate_succ', List.append_assoc]

/-- A line of cells that fit is empty or ends with a space. -/
theorem paddedLine_end {widths : List ℕ} {row : List Text}
    (h : FitsColumns widths row) :
    paddedLine widths row = [] ∨
      ∃ text, paddedLine widths row = text ++ [' '] := by
  induction widths generalizing row with
  | nil => exact Or.inl rfl
  | cons width widths ih =>
      cases row with
      | nil => exact Or.inl rfl
      | cons cell row =>
          obtain ⟨hcell, hrest⟩ := fitsColumns_cons.mp h
          obtain ⟨text, htext⟩ := setw_eq_append_spaces hcell
          have hline : paddedLine (width :: widths) (cell :: row) =
              text ++ [' '] ++ paddedLine widths row := by
            simp [paddedLine, htext]
          right
          rcases ih hrest with hnil | ⟨rest, heq⟩
          · exact ⟨text, by rw [hline, hnil, List.append_nil]⟩
          · exact ⟨text ++ [' '] ++ rest, by simp [hline, heq]⟩

/-- Lines that follow a newline end with one. -/
theorem newline_lines_end (lines : List Text) :
    ∃ text, "\n".toList ++
      (lines.map (fun line => line ++ "\n".toList)).flatten =
        text ++ ['\n'] := by
  rcases List.eq_nil_or_concat lines with rfl | ⟨init, last, rfl⟩
  · exact ⟨[], rfl⟩
  · exact ⟨"\n".toList ++
      ((init.map (fun line => line ++ "\n".toList)).flatten ++ last), by simp⟩

/-- The character before the blank line that ends a table. -/
theorem resultTable_end {result : QueryResult} (hrows : result.rows ≠ []) :
    ∃ text c, (c = ' ' ∨ c = '\n') ∧
      resultTable result = text ++ [c] ++ "\n\n".toList := by
  obtain ⟨init, row, hsplit⟩ :=
    (List.eq_nil_or_concat result.rows).resolve_left hrows
  have hmem : row ∈ result.rows := by simp [hsplit]
  have hfits := fitsColumns_of_mem hmem
  set widths := columnWidths result with hwidths
  obtain ⟨lines, hlines⟩ := newline_lines_end (init.map (paddedLine widths))
  have htable : resultTable result =
      paddedLine widths result.columns ++ "\n".toList ++ dashLine widths ++
        lines ++ ['\n'] ++ paddedLine widths row ++ "\n\n".toList := by
    have hrest := congrArg (fun t => paddedLine widths result.columns ++
      "\n".toList ++ dashLine widths ++ t ++ paddedLine widths row ++
        "\n\n".toList) hlines
    simpa [resultTable, hsplit, ← hwidths, Function.comp_def] using hrest
  rcases paddedLine_end hfits with hnil | ⟨text, heq⟩
  · rw [hnil, List.append_nil] at htable
    exact ⟨_, '\n', Or.inr rfl, htable⟩
  · rw [heq, ← List.append_assoc] at htable
    exact ⟨_, ' ', Or.inl rfl, htable⟩

/-- The report on an empty result differs from every report with rows, whatever
their heads are. -/
theorem queryReport_ne {timeBuf timeBuf' sql sql' : Text}
    {result result' : QueryResult} (hempty : result.rows = [])
    (hrows : result'.rows ≠ []) :
    queryReport timeBuf sql result ≠ queryReport timeBuf' sql' result' := by
  obtain ⟨text, c, hc, htable⟩ := resultTable_end hrows
  intro heq
  rw [queryReport, queryReport, if_pos hempty, if_neg hrows, htable] at heq
  have hthird := congrArg (fun t : Text => t.reverse[2]?) heq
  rcases hc with rfl | rfl
  · simp at hthird
  · simp at hthird

theorem queryReport_ne_nil (timeBuf sql : Text) {result : QueryResult}
    (hempty : result.rows = []) : queryReport timeBuf sql result ≠ [] := by
  rw [queryReport, if_pos hempty]
  exact List.append_ne_nil_of_right_ne_nil _ (by decide)

end BufferSim
