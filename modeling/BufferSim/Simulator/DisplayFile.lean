import BufferSim.Simulator.Display
import BufferSim.Utils.DisplayReader
import BufferSim.Utils.DroppedCells

/-!
# The display of a run as it is read

`display.txt` holds the report on the last query with records, and that report
can be read.  So the file gives back what the database has delivered for the
query: the names of its columns and all of its cells.
-/

namespace BufferSim

open Cxx

/-- The database delivers rows of equal length, and their cells and names can be
told from the layout of the table. -/
structure ExecResponse.Readable (response : ExecResponse) : Prop where
  uniform : ∀ a ∈ response.rows, ∀ b ∈ response.rows,
    a.argv.length = b.argv.length
  plain : ∀ row ∈ response.rows, ∀ cell ∈ row.names ++ row.cells, Plain cell

theorem ExecResponse.Readable.result {db : SQLiteManager}
    (hopen : db.isOpen = true) {response : ExecResponse}
    (h : response.Readable) :
    (db.executeQueryWithResults response).Readable := by
  refine ⟨(rectangular_iff hopen response).mpr h.uniform, ?_⟩
  rw [SQLiteManager.executeQueryWithResults_eq hopen]
  intro cells hcells cell hcell
  rcases List.mem_cons.mp hcells with rfl | hrow
  · cases hrows : response.rows with
    | nil => simp [hrows] at hcell
    | cons first rows =>
        simp only [hrows, List.head?_cons, Option.map_some,
          Option.getD_some] at hcell
        exact h.plain first (by simp [hrows]) cell
          (List.mem_append_left _ hcell)
  · obtain ⟨row, hmem, rfl⟩ := List.mem_map.mp hrow
    exact h.plain row hmem cell (List.mem_append_right _ hcell)

/-- After any run the display reads as the last query with records: its time,
its text, its record count, and the names and cells that the database has
delivered. -/
theorem display_reads_back (config : Config) {db : SQLiteManager}
    (hopen : db.isOpen = true) (before : List Submission) {q : Submission}
    {after : List Submission} (hq : q.HasRecords db)
    (hafter : ∀ q' ∈ after, ¬ q'.HasRecords db) (htime : Single q.timeBuf)
    (hsql : NoRecordsLine q.sql) (hreadable : q.response.Readable) :
    ∃ s, (Simulator.startUp config db).run config (before ++ q :: after) =
        some s ∧
      readReport s.display = some
        { time := q.timeBuf
          sql := q.sql
          recordCount := (q.result db).recordCount
          result :=
            { columns := (q.response.rows.head?.map CallbackRow.names).getD []
              rows := q.response.rows.map CallbackRow.cells } } := by
  obtain ⟨s, hrun, -, -, hdisplay⟩ :=
    Simulator.run_startUp config db (before ++ q :: after)
  have hlatest : latestReport db (before ++ q :: after) = q.report db := by
    have hnone : after.filter (fun q => decide (q.HasRecords db)) = [] := by
      rw [List.filter_eq_nil_iff]
      intro q' hq'
      simpa using hafter q' hq'
    rw [latestReport, List.filter_append, List.filter_cons_of_pos (by simpa),
      hnone, List.getLast?_concat]
  have hrows : (q.result db).rows ≠ [] := QueryResult.rows_ne_nil hq.2
  have hresult : (q.result db).Readable := hreadable.result hopen
  refine ⟨s, hrun, ?_⟩
  rw [hdisplay, hlatest, Submission.report,
    readReport_queryReport htime hsql hresult, shownResult, if_neg hrows,
    Submission.result, SQLiteManager.executeQueryWithResults_eq hopen]

/-- A query over two lines, and a query without records after it. -/
theorem display_reads_back_student :
    ∃ s, (Simulator.startUp Config.source SQLiteManager.opened).run
        Config.source [studentsQuery "SELECT name\nFROM students;" [studentRow],
          studentsQuery "SELECT name FROM students WHERE cgpa > 10;" []] =
            some s ∧
      readReport s.display = some
        { time := "2026-03-01 12:00:00".toList
          sql := "SELECT name\nFROM students;".toList
          recordCount := 1
          result := ⟨["name".toList], [["Asha".toList]]⟩ } := by
  have hreadable : ExecResponse.Readable
      (studentsQuery "SELECT name\nFROM students;" [studentRow]).response :=
    ⟨by decide, by decide⟩
  exact display_reads_back Config.source rfl [] (by decide) (by decide)
    (by decide) (by decide) hreadable

end BufferSim
