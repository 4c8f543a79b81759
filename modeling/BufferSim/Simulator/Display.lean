import BufferSim.Simulator.MainLoop

/-!
# What `display.txt` shows

The frontend presents the content of `display.txt` as the answer to the latest
query.  A query without records leaves the file as it was, so the file shows
the latest query exactly as long as queries deliver records.
-/

namespace BufferSim

open Cxx

/-- After each query `display.txt` holds the report on that query. -/
def DisplaysLatest (config : Config) (db : SQLiteManager)
    (queries : List Submission) : Prop :=
  ∀ before q after, queries = before ++ q :: after →
    ∃ s, (Simulator.startUp config db).run config (before ++ [q]) = some s ∧
      s.display = q.report db

/-- The report on the last query with records is never the report on an empty
result. -/
theorem latestReport_ne_of_rows_nil (db : SQLiteManager)
    (queries : List Submission) {q : Submission}
    (hempty : (q.result db).rows = []) :
    latestReport db queries ≠ q.report db := by
  rw [latestReport]
  cases hlast :
      (queries.filter (fun q => decide (q.HasRecords db))).getLast? with
  | none => exact (queryReport_ne_nil q.timeBuf q.sql hempty).symm
  | some last =>
      have hmem := List.mem_filter.mp (List.mem_of_getLast? hlast)
      have hrecords : last.HasRecords db := of_decide_eq_true hmem.2
      exact (queryReport_ne hempty (QueryResult.rows_ne_nil hrecords.2)).symm

/-- A query that delivers no rows leaves an older report in the file. -/
theorem not_displaysLatest_of_rows_nil (config : Config) (db : SQLiteManager)
    {queries : List Submission} {q : Submission} (hq : q ∈ queries)
    (hempty : (q.result db).rows = []) :
    ¬ DisplaysLatest config db queries := by
  intro h
  obtain ⟨before, after, hsplit⟩ := List.append_of_mem hq
  obtain ⟨s, hrun, hdisplay⟩ := h before q after hsplit
  obtain ⟨s', hrun', -, -, hlatest⟩ :=
    Simulator.run_startUp config db (before ++ [q])
  obtain rfl : s = s' := Option.some.inj (hrun.symm.trans hrun')
  have hskipped : ¬ q.HasRecords db := by
    rintro ⟨-, hcount⟩
    exact QueryResult.rows_ne_nil hcount hempty
  rw [latestReport_snoc, if_neg hskipped, hdisplay] at hlatest
  exact latestReport_ne_of_rows_nil db before hempty hlatest.symm

/-- As long as every query has records, the file shows each of them in turn.
Conversely, if it always shows the latest query then every query has records,
unless its rows exceed the range of the count. -/
theorem display_latest (config : Config) (db : SQLiteManager)
    {queries : List Submission} (hnonempty : ∀ q ∈ queries, q.sql ≠ []) :
    ((∀ q ∈ queries, 0 < (q.result db).recordCount) →
      DisplaysLatest config db queries) ∧
    (DisplaysLatest config db queries → ∀ q ∈ queries,
      (q.result db).rows.length < 2 ^ 31 → 0 < (q.result db).recordCount) := by
  constructor
  · rintro hcounts before q after rfl
    have hq : q ∈ before ++ q :: after :=
      List.mem_append_right _ List.mem_cons_self
    have hrecords : q.HasRecords db := ⟨hnonempty q hq, hcounts q hq⟩
    obtain ⟨s, hrun, -, -, hlatest⟩ :=
      Simulator.run_startUp config db (before ++ [q])
    refine ⟨s, hrun, ?_⟩
    rw [hlatest, latestReport_snoc, if_pos hrecords]
  · intro h q hq hlt
    have hrows : (q.result db).rows ≠ [] := fun hempty =>
      not_displaysLatest_of_rows_nil config db hq hempty h
    have hpos := List.length_pos_iff.mpr hrows
    rw [QueryResult.recordCount_eq hlt]
    omega

/-- A query on the table of students that delivers the given rows. -/
def studentsQuery (sql : String) (rows : List CallbackRow) : Submission where
  content := sql.toList
  timeBuf := "2026-03-01 12:00:00".toList
  response := { rows := rows, rc := SQLITE_OK }

/-- One student with a name. -/
def studentRow : CallbackRow where
  argv := [some "Asha".toList]
  colNames := [some "name".toList]
  length_eq := rfl

/-- The report on the second query replaces the one on the first. -/
theorem display_latest_students :
    DisplaysLatest Config.source SQLiteManager.opened
      [studentsQuery "SELECT name FROM students;\n" [studentRow],
        studentsQuery "SELECT name FROM students LIMIT 2;"
          [studentRow, studentRow]] := by
  have hnonempty : ∀ q ∈
      [studentsQuery "SELECT name FROM students;\n" [studentRow],
        studentsQuery "SELECT name FROM students LIMIT 2;"
          [studentRow, studentRow]], q.sql ≠ [] := by
    decide
  refine (display_latest Config.source SQLiteManager.opened hnonempty).1 ?_
  decide

/-- After a query with one record, a query without any leaves the report on the
first one. -/
theorem display_stale_after_no_rows :
    (∀ q ∈ [studentsQuery "SELECT name FROM students;" [studentRow],
        studentsQuery "SELECT name FROM students WHERE cgpa > 10;" []],
      q.sql ≠ []) ∧
    ¬ DisplaysLatest Config.source SQLiteManager.opened
      [studentsQuery "SELECT name FROM students;" [studentRow],
        studentsQuery "SELECT name FROM students WHERE cgpa > 10;" []] := by
  refine ⟨by decide, ?_⟩
  apply not_displaysLatest_of_rows_nil Config.source SQLiteManager.opened
    (q := studentsQuery "SELECT name FROM students WHERE cgpa > 10;" [])
  · simp
  · rfl

end BufferSim
