import BufferSim.Utils.TableLayout
import Mathlib.Data.List.Forall2

/-!
# Statements with different columns

`executeQueryWithResults` takes the column names from the first row that is
delivered, and the table has as many columns.  When a later statement of the
text has more, the cells beyond them are not written.
-/

namespace BufferSim

open Cxx Layout

/-- The rows that one statement delivers. -/
structure StatementRows where
  colNames : List (Option Text)
  rows : List (List (Option Text))
  length_eq : ∀ row ∈ rows, colNames.length = row.length

/-- The callbacks for the rows of one statement. -/
def StatementRows.callbacks (statement : StatementRows) : List CallbackRow :=
  statement.rows.attach.map (fun row =>
    { argv := row.1
      colNames := statement.colNames
      length_eq := statement.length_eq row.1 row.2 })

/-- The response to a text of several statements. -/
def execStatements (statements : List StatementRows) (rc : Int) :
    ExecResponse where
  rows := statements.flatMap StatementRows.callbacks
  rc := rc

/-- The line consists of the cells, each followed by spaces. -/
def ShowsRow (line : Text) (cells : List Text) : Prop :=
  ∃ fields : List Text, line = fields.flatten ∧
    List.Forall₂
      (fun field cell => ∃ n, field = cell ++ List.replicate n ' ')
      fields cells

/-- The text contains a line for every row, in order. -/
def ShowsRows (text : Text) (rows : List (List Text)) : Prop :=
  ∃ head lines tail,
    text = head ++ ((lines.map (fun line => line ++ ['\n'])).flatten ++ tail) ∧
    List.Forall₂ ShowsRow lines rows

/-- The result is rectangular, and every delivered cell is written. -/
def NoCellLost (db : SQLiteManager) (response : ExecResponse) : Prop :=
  (db.executeQueryWithResults response).Rectangular ∧
  ∀ timeBuf sql isFirstWrite file,
    ShowsRows
      (appendQueryResultToFile timeBuf sql
        (db.executeQueryWithResults response) isFirstWrite file)
      (response.rows.map CallbackRow.cells)

/-! ## Rectangular results are written completely -/

theorem showsRow_paddedLine {widths : List ℕ} {cells : List Text}
    (hlength : cells.length = widths.length) :
    ShowsRow (paddedLine widths cells) cells := by
  refine ⟨_, rfl, ?_⟩
  induction widths generalizing cells with
  | nil =>
      obtain rfl := List.length_eq_zero_iff.mp hlength
      exact List.Forall₂.nil
  | cons width widths ih =>
      obtain ⟨cell, cells, rfl⟩ := List.exists_cons_of_length_eq_add_one hlength
      exact List.Forall₂.cons ⟨width + 2 - cell.length, rfl⟩
        (ih (Nat.succ.inj hlength))

/-- The report on a rectangular result has a line for every row. -/
theorem showsRows_of_rectangular {result : QueryResult}
    (hrect : result.Rectangular) (timeBuf sql : Text) (isFirstWrite : Bool)
    (file : Text) :
    ShowsRows (appendQueryResultToFile timeBuf sql result isFirstWrite file)
      result.rows := by
  have hlines : List.Forall₂ ShowsRow
      (result.rows.map (paddedLine (columnWidths result))) result.rows := by
    rw [List.forall₂_map_left_iff, List.forall₂_same]
    intro row hrow
    exact showsRow_paddedLine
      ((hrect row hrow).trans (length_columnWidths result).symm)
  by_cases hrows : result.rows = []
  · refine ⟨appendQueryResultToFile timeBuf sql result isFirstWrite file, [], [],
      by simp, ?_⟩
    rw [hrows]
    exact List.Forall₂.nil
  · refine ⟨(if isFirstWrite then [] else file) ++ reportHead timeBuf sql result ++
      paddedLine (columnWidths result) result.columns ++ "\n".toList ++
        dashLine (columnWidths result) ++ "\n".toList, _, "\n".toList, ?_, hlines⟩
    cases isFirstWrite <;>
      simp [appendQueryResultToFile, queryReport, hrows, resultTable,
        Function.comp_def]

/-! ## The columns of the first row -/

/-- The result is rectangular exactly when all rows have as many cells as the
first one. -/
theorem rectangular_iff {db : SQLiteManager} (hopen : db.isOpen = true)
    (response : ExecResponse) :
    (db.executeQueryWithResults response).Rectangular ↔
      ∀ a ∈ response.rows, ∀ b ∈ response.rows,
        a.argv.length = b.argv.length := by
  have hcells : ∀ row : CallbackRow, row.cells.length = row.argv.length :=
    fun row => List.length_map _
  rw [SQLiteManager.executeQueryWithResults_eq hopen, QueryResult.Rectangular]
  cases response.rows with
  | nil => simp
  | cons first rows =>
      simp only [List.head?_cons, Option.map_some, Option.getD_some,
        List.forall_mem_map, CallbackRow.length_names, hcells]
      constructor
      · intro h a ha b hb
        rw [h a ha, h b hb]
      · intro h row hrow
        exact h row hrow first List.mem_cons_self

theorem length_of_mem_callbacks {statement : StatementRows} {row : CallbackRow}
    (h : row ∈ statement.callbacks) :
    statement.rows ≠ [] ∧
      row.argv.length = statement.colNames.length := by
  obtain ⟨⟨cells, hcells⟩, -, rfl⟩ := List.mem_map.mp h
  exact ⟨List.ne_nil_of_mem hcells, (statement.length_eq cells hcells).symm⟩

theorem exists_mem_callbacks {statement : StatementRows}
    (h : statement.rows ≠ []) : ∃ row, row ∈ statement.callbacks := by
  obtain ⟨cells, hcells⟩ := List.exists_mem_of_ne_nil _ h
  exact ⟨_, List.mem_map_of_mem (List.mem_attach _ ⟨cells, hcells⟩)⟩

theorem uniform_callbacks_iff (statements : List StatementRows) :
    (∀ a ∈ statements.flatMap StatementRows.callbacks,
        ∀ b ∈ statements.flatMap StatementRows.callbacks,
          a.argv.length = b.argv.length) ↔
      ∀ s ∈ statements, ∀ t ∈ statements, s.rows ≠ [] → t.rows ≠ [] →
        s.colNames.length = t.colNames.length := by
  constructor
  · intro h s hs t ht hsrows htrows
    obtain ⟨a, ha⟩ := exists_mem_callbacks hsrows
    obtain ⟨b, hb⟩ := exists_mem_callbacks htrows
    have hlength := h a (List.mem_flatMap_of_mem hs ha) b
      (List.mem_flatMap_of_mem ht hb)
    rwa [(length_of_mem_callbacks ha).2, (length_of_mem_callbacks hb).2]
      at hlength
  · intro h a ha b hb
    obtain ⟨s, hs, ha⟩ := List.mem_flatMap.mp ha
    obtain ⟨t, ht, hb⟩ := List.mem_flatMap.mp hb
    obtain ⟨hsrows, hslength⟩ := length_of_mem_callbacks ha
    obtain ⟨htrows, htlength⟩ := length_of_mem_callbacks hb
    rw [hslength, htlength]
    exact h s hs t ht hsrows htrows

/-- No cell is lost exactly when all statements that deliver rows have the same
number of columns. -/
theorem no_cell_lost_iff {db : SQLiteManager} (hopen : db.isOpen = true)
    (statements : List StatementRows) (rc : Int) :
    NoCellLost db (execStatements statements rc) ↔
      ∀ s ∈ statements, ∀ t ∈ statements, s.rows ≠ [] → t.rows ≠ [] →
        s.colNames.length = t.colNames.length := by
  rw [← uniform_callbacks_iff]
  have hrows : (db.executeQueryWithResults
      (execStatements statements rc)).rows =
        (execStatements statements rc).rows.map CallbackRow.cells := by
    rw [SQLiteManager.executeQueryWithResults_eq hopen]
  constructor
  · rintro ⟨hrect, -⟩
    exact (rectangular_iff hopen _).mp hrect
  · intro h
    have hrect := (rectangular_iff hopen (execStatements statements rc)).mpr h
    refine ⟨hrect, ?_⟩
    rw [← hrows]
    exact showsRows_of_rectangular hrect

/-! ## A second statement with more columns -/

/-- The row of `SELECT id FROM students LIMIT 1;`. -/
def idRow : StatementRows where
  colNames := [some "id".toList]
  rows := [[some "1".toList]]
  length_eq := by decide

/-- The row of `SELECT id, name FROM students LIMIT 1;`. -/
def nameRow : StatementRows where
  colNames := [some "id".toList, some "name".toList]
  rows := [[some "1".toList, some "Ann".toList]]
  length_eq := by decide

/-- After a statement with one column the name of the student is not written. -/
theorem name_is_dropped :
    ¬ NoCellLost SQLiteManager.opened
      (execStatements [idRow, nameRow] SQLITE_OK) ∧
    (SQLiteManager.opened.executeQueryWithResults
      (execStatements [idRow, nameRow] SQLITE_OK)).rows =
        [["1".toList], ["1".toList, "Ann".toList]] ∧
    ¬ "Ann".toList <:+: resultTable
      (SQLiteManager.opened.executeQueryWithResults
        (execStatements [idRow, nameRow] SQLITE_OK)) := by
  refine ⟨?_, by decide, by decide⟩
  rintro ⟨hrect, -⟩
  exact absurd hrect (by decide)

theorem no_cell_lost_iff_nameRow :
    NoCellLost SQLiteManager.opened
      (execStatements [nameRow, nameRow] SQLITE_OK) :=
  (no_cell_lost_iff rfl [nameRow, nameRow] SQLITE_OK).mpr (by decide)

end BufferSim
