import BufferSim.Cxx.Integer

/-!
# Queries on the database

`SQLiteManager.cpp` reads the database through `sqlite3_exec`, which calls back
for every row and ends with a return code.  Rows of earlier statements of a text
can already be delivered when a later one fails, so a response is any list of
rows with any return code.

The two query paths collect the rows in different ways and treat an error
differently.

With `PRAGMA empty_result_callbacks` a statement without rows has one callback
too, whose `argv` is a null pointer.  `executeQueryWithResults` dereferences
it, so a response that can be collected has no such callback.
-/

namespace BufferSim

open Cxx

/-- One call of the callback of `sqlite3_exec` for a row: its cells and the
names of its columns, with null pointers as `none`. -/
structure CallbackRow where
  argv : List (Option Text)
  colNames : List (Option Text)
  length_eq : colNames.length = argv.length

namespace CallbackRow

/-- The cells as strings; a null cell is shown as `NULL`. -/
def cells (row : CallbackRow) : List Text :=
  row.argv.map (fun cell => cell.getD "NULL".toList)

/-- The column names as strings. -/
def names (row : CallbackRow) : List Text :=
  row.colNames.map (fun name => name.getD [])

theorem length_names (row : CallbackRow) :
    row.names.length = row.cells.length := by
  simp [names, cells, row.length_eq]

end CallbackRow

/-- All that one call of `sqlite3_exec` delivers. -/
structure ExecResponse where
  rows : List CallbackRow
  rc : Int

def SQLITE_OK : Int := 0

/-- The database: the response of `sqlite3_exec` to every SQL text. -/
abbrev Sqlite := Text → ExecResponse

/-- A call of the callback as `sqlite3_exec` makes it: for a row, or with a null
pointer for `argv`. -/
inductive Callback where
  | row (r : CallbackRow)
  | noRow (colNames : List (Option Text))

/-- The row that the callback reads.  It reads `argv[i]` for every column, which
is undefined for a null pointer unless there is no column. -/
def Callback.row? : Callback → Option CallbackRow
  | .row r => some r
  | .noRow [] => some { argv := [], colNames := [], length_eq := rfl }
  | .noRow (_ :: _) => none

/-- The calls of the callback and the return code of one `sqlite3_exec`. -/
structure ExecCall where
  callbacks : List Callback
  rc : Int

namespace ExecCall

/-- What is delivered, if every call of the callback is defined. -/
def response (call : ExecCall) : Option ExecResponse := do
  let rows ← call.callbacks.mapM Callback.row?
  return { rows := rows, rc := call.rc }

/-- No callback gets a null pointer for the cells of a row: the program has not
run `PRAGMA empty_result_callbacks`. -/
def HasCells (call : ExecCall) : Prop :=
  ∀ colNames, .noRow colNames ∈ call.callbacks → colNames = []

theorem HasCells.exists_response {call : ExecCall} (h : call.HasCells) :
    ∃ response, call.response = some response := by
  have hrows : ∀ callbacks : List Callback,
      (∀ colNames, .noRow colNames ∈ callbacks → colNames = []) →
        ∃ rows, callbacks.mapM Callback.row? = some rows := by
    intro callbacks
    induction callbacks with
    | nil => exact fun _ => ⟨[], rfl⟩
    | cons callback callbacks ih =>
        intro hcells
        obtain ⟨rows, hrows⟩ := ih fun colNames hmem =>
          hcells colNames (List.mem_cons_of_mem _ hmem)
        obtain ⟨row, hrow⟩ : ∃ row, callback.row? = some row := by
          cases callback with
          | row r => exact ⟨r, rfl⟩
          | noRow colNames =>
              obtain rfl := hcells colNames List.mem_cons_self
              exact ⟨_, rfl⟩
        exact ⟨row :: rows, by simp [List.mapM_cons, hrow, hrows]⟩
  obtain ⟨rows, hdelivered⟩ := hrows call.callbacks h
  exact ⟨{ rows := rows, rc := call.rc }, by simp [response, hdelivered]⟩

end ExecCall

/-- A response whose callbacks are all for rows. -/
def ExecResponse.call (response : ExecResponse) : ExecCall where
  callbacks := response.rows.map .row
  rc := response.rc

theorem ExecResponse.hasCells_call (response : ExecResponse) :
    response.call.HasCells := by
  intro colNames hmem
  simp [ExecResponse.call] at hmem

structure QueryResult where
  columns : List Text
  rows : List (List Text)
  deriving DecidableEq, Repr

namespace QueryResult

def empty : QueryResult where
  columns := []
  rows := []

/-- `static_cast<int>(rows.size())`. -/
def recordCount (result : QueryResult) : Int :=
  int32 result.rows.length

theorem recordCount_of_rows_nil {result : QueryResult}
    (h : result.rows = []) : result.recordCount = 0 := by
  rw [recordCount, h]
  rfl

/-- Below the range of an `int` the count is the number of rows. -/
theorem recordCount_eq {result : QueryResult}
    (h : result.rows.length < 2 ^ 31) :
    result.recordCount = result.rows.length :=
  int32_of_nonneg (Int.natCast_nonneg _) (by exact_mod_cast h)

/-- The count wraps around to zero at the multiples of the range of an `int`. -/
theorem recordCount_eq_zero_iff (result : QueryResult) :
    result.recordCount = 0 ↔ 2 ^ 32 ∣ result.rows.length := by
  have hpow : (2 : ℕ) ^ 32 = 4294967296 := rfl
  simp only [recordCount, int32_eq_bmod, hpow, Int.bmod_def]
  omega

theorem rows_ne_nil {result : QueryResult} (h : 0 < result.recordCount) :
    result.rows ≠ [] := by
  intro hnil
  rw [recordCount_of_rows_nil hnil] at h
  exact Int.lt_irrefl 0 h

end QueryResult

/-- The state of `SQLiteManager`.  `tablePageOffsets_` is an `unordered_map`;
its entries are listed in the order of an iteration. -/
structure SQLiteManager where
  isOpen : Bool
  tablePageOffsets : List (Text × Int)
  deriving DecidableEq, Repr

/-- The callback of `executeQueryWithResults`: the first call also stores the
column names. -/
def collectRow (data : QueryResult × Bool) (row : CallbackRow) :
    QueryResult × Bool :=
  let (result, columnsSet) := data
  let columns :=
    if columnsSet then result.columns
    else result.columns ++ row.colNames.map (fun name => name.getD [])
  ({ columns := columns
     rows := result.rows ++
      [row.argv.map (fun cell => cell.getD "NULL".toList)] }, true)

namespace SQLiteManager

/-- The state after the constructor has opened the database. -/
def opened : SQLiteManager where
  isOpen := true
  tablePageOffsets := []

/-- `SQLiteManager::executeQueryWithResults`. -/
def executeQueryWithResults (db : SQLiteManager) (response : ExecResponse) :
    QueryResult :=
  if !db.isOpen then QueryResult.empty
  -- an error is only logged: the rows delivered before it are returned
  else (response.rows.foldl collectRow (QueryResult.empty, false)).1

/-- `SQLiteManager::executeQuery`. -/
def executeQuery (db : SQLiteManager) (response : ExecResponse) : Int :=
  if !db.isOpen then 0
  else if response.rc ≠ SQLITE_OK then 0
  else response.rows.foldl (fun recordCount _ => int32 (recordCount + 1)) 0

/-! ## What the callbacks have collected -/

theorem foldl_collectRow (rows : List CallbackRow) (result : QueryResult) :
    rows.foldl collectRow (result, true) =
      ({ columns := result.columns
         rows := result.rows ++ rows.map CallbackRow.cells }, true) := by
  induction rows generalizing result with
  | nil => simp
  | cons row rows ih => simp [collectRow, ih, CallbackRow.cells]

/-- The result has the column names of the first row and the cells of every
row, whatever the return code is. -/
theorem executeQueryWithResults_eq {db : SQLiteManager} (hopen : db.isOpen = true)
    (response : ExecResponse) :
    db.executeQueryWithResults response =
      { columns := (response.rows.head?.map CallbackRow.names).getD []
        rows := response.rows.map CallbackRow.cells } := by
  simp only [executeQueryWithResults, hopen, Bool.not_true,
    Bool.false_eq_true, if_false]
  cases response.rows with
  | nil => rfl
  | cons row rows =>
      simp [collectRow, foldl_collectRow, QueryResult.empty,
        CallbackRow.cells, CallbackRow.names]

/-- The other path counts the rows, in an `int` as well, if there was no
error. -/
theorem executeQuery_eq {db : SQLiteManager} (hopen : db.isOpen = true)
    (response : ExecResponse) :
    db.executeQuery response =
      if response.rc = SQLITE_OK then int32 response.rows.length else 0 := by
  have hcount : ∀ (rows : List CallbackRow) (n : Int),
      rows.foldl (fun recordCount _ => int32 (recordCount + 1)) (int32 n) =
        int32 (n + rows.length) := by
    intro rows
    induction rows with
    | nil => simp
    | cons row rows ih =>
        intro n
        rw [List.foldl_cons, int32_add_one, ih, List.length_cons]
        congr 1
        omega
  have hzero := hcount response.rows 0
  rw [int32_of_range (by decide) (by decide), Int.zero_add] at hzero
  simp only [executeQuery, hopen, hzero, Bool.not_true, Bool.false_eq_true,
    if_false, ite_not]

theorem recordCount_of_closed {db : SQLiteManager} (hclosed : db.isOpen = false)
    (response : ExecResponse) :
    (db.executeQueryWithResults response).recordCount = 0 ∧
      db.executeQuery response = 0 := by
  simp only [executeQueryWithResults, executeQuery, hclosed, Bool.not_false,
    if_true, and_true]
  rfl

end SQLiteManager
end BufferSim
