import BufferSim.Simulator.MainLoop

/-!
# Queries that end in an error

`sqlite3_exec` can deliver rows and fail afterwards: at a later statement of the
text, or at a later row.  `executeQuery` then reports no records.
`executeQueryWithResults`, which the main loop uses, returns the rows that it
has collected, and the loop simulates them.
-/

namespace BufferSim

open Cxx

/-- Both query paths report the same number of records. -/
def PathsAgree (db : SQLiteManager) (response : ExecResponse) : Prop :=
  (db.executeQueryWithResults response).recordCount = db.executeQuery response

/-- A failed query has no records, is not simulated and leaves the display as it
was. -/
def FailureIsSilent (db : SQLiteManager) (response : ExecResponse) : Prop :=
  response.rc ≠ SQLITE_OK →
    (db.executeQueryWithResults response).recordCount = 0 ∧
    db.executeQuery response = 0 ∧
    ∀ (config : Config) (s : Simulator) (q : Submission), s.db = db →
      q.response = response → s.processQuery config q = some s

theorem processQuery_of_recordCount_eq_zero (config : Config) {s : Simulator}
    {q : Submission} (hcount : (q.result s.db).recordCount = 0) :
    s.processQuery config q = some s := by
  simp [Simulator.processQuery, hcount]

/-- When the paths agree, a failed query has no effect. -/
theorem PathsAgree.failureIsSilent {db : SQLiteManager}
    {response : ExecResponse} (h : PathsAgree db response) :
    FailureIsSilent db response := by
  intro hfail
  have hquery : db.executeQuery response = 0 := by
    cases hopen : db.isOpen with
    | false => exact (SQLiteManager.recordCount_of_closed hopen response).2
    | true => rw [SQLiteManager.executeQuery_eq hopen, if_neg hfail]
  have hcount : (db.executeQueryWithResults response).recordCount = 0 :=
    h.trans hquery
  refine ⟨hcount, hquery, ?_⟩
  rintro config s q rfl rfl
  exact processQuery_of_recordCount_eq_zero config hcount

/-- The paths agree exactly when the query succeeded, or failed before it
delivered a row.  Apart from that, an `int` counts a multiple of its range as
zero. -/
theorem query_paths_agree_iff (db : SQLiteManager) (response : ExecResponse) :
    (PathsAgree db response ∧ FailureIsSilent db response) ↔
      db.isOpen = false ∨
      response.rc = SQLITE_OK ∨
      (response.rc ≠ SQLITE_OK ∧ 2 ^ 32 ∣ response.rows.length) := by
  rw [and_iff_left_of_imp PathsAgree.failureIsSilent, PathsAgree]
  cases hopen : db.isOpen with
  | false =>
      obtain ⟨hcount, hquery⟩ :=
        SQLiteManager.recordCount_of_closed hopen response
      simp [hcount, hquery]
  | true =>
      have hrows : (db.executeQueryWithResults response).rows.length =
          response.rows.length := by
        simp [SQLiteManager.executeQueryWithResults_eq hopen]
      rw [SQLiteManager.executeQuery_eq hopen, ← hrows]
      by_cases hok : response.rc = SQLITE_OK
      · simp [hok, QueryResult.recordCount]
      · simp [hok, QueryResult.recordCount_eq_zero_iff]

/-- The first statement delivers a row, the second one fails. -/
def failsMidway : Submission where
  content := "SELECT id FROM students LIMIT 1; SELECT nope FROM students;".toList
  timeBuf := "2026-03-01 12:00:00".toList
  response := { rows := [⟨[some "1".toList], [some "id".toList], rfl⟩], rc := 1 }

/-- The failed query counts as one record on one path and as none on the other,
and the main loop requests a page for it. -/
theorem failed_query_is_simulated :
    ¬ (PathsAgree SQLiteManager.opened failsMidway.response ∧
      FailureIsSilent SQLiteManager.opened failsMidway.response) ∧
    failsMidway.response.rc ≠ SQLITE_OK ∧
    (failsMidway.result SQLiteManager.opened).recordCount = 1 ∧
    SQLiteManager.opened.executeQuery failsMidway.response = 0 ∧
    ((Simulator.startUp Config.source SQLiteManager.opened).processQuery
      Config.source failsMidway).map
        (fun s => (s.lru.metrics.totalRequests, s.display.isEmpty)) =
          some (1, false) := by
  refine ⟨?_, by decide, by decide, by decide, by decide⟩
  rintro ⟨hagree, -⟩
  unfold PathsAgree at hagree
  exact absurd hagree (by decide)

end BufferSim
