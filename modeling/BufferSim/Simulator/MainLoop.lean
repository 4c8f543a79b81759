import BufferSim.Buffer.PinnedBuffer
import BufferSim.Buffer.ClockBuffer
import BufferSim.Database.PageOffsets
import BufferSim.Utils.Report

/-!
# The main loop

`main.cpp` executes each new query, writes its report to `display.txt` and feeds
the page sequence of the query to all four managers.  Empty queries and queries
without records are skipped.

A run is total from the start-up on, and its final state is a closed form of the
submitted queries: the managers have been fed the concatenated page sequences,
and `display.txt` holds the report on the last query that had records.
-/

namespace BufferSim

open Cxx

/-- The constants of `config/Config.hpp`; the program divides by the second and
evicts from buffers of the first, so both are positive. -/
structure Config where
  bufferSize : ℕ
  pageSize : ℕ
  bufferSize_pos : 1 ≤ bufferSize
  pageSize_pos : 1 ≤ pageSize

/-- The values of the source. -/
def Config.source : Config where
  bufferSize := 10
  pageSize := 5
  bufferSize_pos := by decide
  pageSize_pos := by decide

/-- One change of `query.sql`: the content that is read, the time at which the
report is written, and what the database delivers for the query. -/
structure Submission where
  content : Text
  timeBuf : Text
  response : ExecResponse

/-- The loop that drops trailing newlines, carriage returns and spaces. -/
def querySql (content : Text) : Text :=
  content.rdropWhile (fun c => c == '\n' || c == '\r' || c == ' ')

theorem querySql_nil : querySql [] = [] := rfl

/-- The content holds a query; otherwise the loop skips it. -/
def nonblank (content : Text) : Bool :=
  querySql content ≠ []

theorem nonblank_iff {content : Text} :
    nonblank content = true ↔ querySql content ≠ [] :=
  decide_eq_true_iff

namespace Submission

def sql (q : Submission) : Text :=
  querySql q.content

def result (q : Submission) (db : SQLiteManager) : QueryResult :=
  db.executeQueryWithResults q.response

/-- The report on the query. -/
def report (q : Submission) (db : SQLiteManager) : Text :=
  queryReport q.timeBuf q.sql (q.result db)

end Submission

/-- The database, the four managers and the content of `display.txt`. -/
structure Simulator where
  db : SQLiteManager
  lru : ListBuffer
  mru : ListBuffer
  clock : ClockBuffer
  pinned : PinnedBuffer
  display : Text

namespace Simulator

/-- The state in which the loop starts: new managers and a truncated file. -/
def startUp (config : Config) (db : SQLiteManager) : Simulator where
  db := db
  lru := LRUBuffer.new config.bufferSize
  mru := MRUBuffer.new config.bufferSize
  clock := ClockBuffer.new config.bufferSize
  pinned := PinnedBuffer.new config.bufferSize
  display := []

/-- Feed a page sequence to each manager. -/
def feedManagers (s : Simulator) (pages : List Int) : Option Simulator := do
  let lru ← LRUBuffer.manager.run s.lru pages
  let mru ← MRUBuffer.manager.run s.mru pages
  let clock ← ClockBuffer.manager.run s.clock pages
  let pinned ← PinnedBuffer.manager.run s.pinned pages
  return { s with lru := lru, mru := mru, clock := clock, pinned := pinned }

/-- The body of the main loop for a changed `query.sql`. -/
def processQuery (config : Config) (s : Simulator) (q : Submission) :
    Option Simulator :=
  if q.sql = [] then some s
  else
    let result := q.result s.db
    if result.recordCount ≤ 0 then some s
    else do
      let display :=
        appendQueryResultToFile q.timeBuf q.sql result true s.display
      let pageSequence :=
        s.db.queryPages config.pageSize q.sql result.recordCount
      -- the log line calls `front()` and `back()`
      let _ ← pageSequence.head?
      let _ ← pageSequence.getLast?
      ({ s with display := display } : Simulator).feedManagers pageSequence

def run (config : Config) (s : Simulator) (queries : List Submission) :
    Option Simulator :=
  queries.foldlM (processQuery config) s

theorem run_snoc (config : Config) (s : Simulator) (queries : List Submission)
    (q : Submission) :
    s.run config (queries ++ [q]) =
      (s.run config queries).bind (fun s' => s'.processQuery config q) := by
  rw [run, List.foldlM_append]
  cases h : queries.foldlM (processQuery config) s with
  | none => simp [run, h]
  | some s' => simp [run, h]

/-! ## The managers after a run -/

/-- The managers of `s` have been fed `pages` since the start-up. -/
structure Fed (config : Config) (pages : List Int) (s : Simulator) : Prop where
  lru : LRUBuffer.manager.run (LRUBuffer.new config.bufferSize) pages =
    some s.lru
  mru : MRUBuffer.manager.run (MRUBuffer.new config.bufferSize) pages =
    some s.mru
  clock : ClockBuffer.manager.run (ClockBuffer.new config.bufferSize) pages =
    some s.clock
  pinned : PinnedBuffer.manager.run (PinnedBuffer.new config.bufferSize)
    pages = some s.pinned

theorem fed_startUp (config : Config) (db : SQLiteManager) :
    Fed config [] (startUp config db) where
  lru := rfl
  mru := rfl
  clock := rfl
  pinned := rfl

/-- Feeding more pages is defined and leaves database and display alone. -/
theorem Fed.feedManagers {config : Config} {pages : List Int} {s : Simulator}
    (h : Fed config pages s) (more : List Int) :
    ∃ s', s.feedManagers more = some s' ∧ Fed config (pages ++ more) s' ∧
      s'.db = s.db ∧ s'.display = s.display := by
  obtain ⟨lru, hlru, -⟩ :=
    LRUBuffer.run_new config.bufferSize_pos (pages ++ more)
  obtain ⟨mru, hmru, -⟩ :=
    MRUBuffer.run_new config.bufferSize_pos (pages ++ more)
  obtain ⟨clock, hclock, -⟩ :=
    ClockBuffer.run_new config.bufferSize_pos (pages ++ more)
  obtain ⟨pinned, hpinned, -⟩ :=
    PinnedBuffer.run_new config.bufferSize (pages ++ more)
  refine ⟨{ s with lru := lru, mru := mru, clock := clock, pinned := pinned },
    ?_, ⟨hlru, hmru, hclock, hpinned⟩, rfl, rfl⟩
  rw [BufferManager.run_append, h.lru] at hlru
  rw [BufferManager.run_append, h.mru] at hmru
  rw [BufferManager.run_append, h.clock] at hclock
  rw [BufferManager.run_append, h.pinned] at hpinned
  simp only [Option.bind_some] at hlru hmru hclock hpinned
  simp [Simulator.feedManagers, hlru, hmru, hclock, hpinned]

end Simulator

/-! ## The state after a run -/

namespace Submission

/-- The query is not empty and delivers records. -/
def HasRecords (db : SQLiteManager) (q : Submission) : Prop :=
  q.sql ≠ [] ∧ 0 < (q.result db).recordCount

instance (db : SQLiteManager) : DecidablePred (HasRecords db) :=
  fun q => inferInstanceAs
    (Decidable (q.sql ≠ [] ∧ 0 < (q.result db).recordCount))

/-- The pages that the query requests from each manager. -/
def pages (config : Config) (db : SQLiteManager) (q : Submission) : List Int :=
  if q.HasRecords db then
    db.queryPages config.pageSize q.sql (q.result db).recordCount
  else []

end Submission

/-- The report on the last query with records; an empty file before. -/
def latestReport (db : SQLiteManager) (queries : List Submission) : Text :=
  match (queries.filter (fun q => q.HasRecords db)).getLast? with
  | some q => q.report db
  | none => []

theorem latestReport_snoc (db : SQLiteManager) (queries : List Submission)
    (q : Submission) :
    latestReport db (queries ++ [q]) =
      if q.HasRecords db then q.report db else latestReport db queries := by
  by_cases hq : q.HasRecords db
  · simp [latestReport, hq]
  · simp [latestReport, hq]

namespace Simulator

theorem queryPages_ne_nil (config : Config) (db : SQLiteManager) (sql : Text)
    {recordCount : Int} (h : 0 < recordCount) :
    db.queryPages config.pageSize sql recordCount ≠ [] := by
  have hsize : (1 : Int) ≤ config.pageSize := by
    exact_mod_cast config.pageSize_pos
  have hpages := one_le_ceilDiv hsize h
  apply List.ne_nil_of_length_pos
  rw [SQLiteManager.queryPages, length_generatePageSequence hsize h]
  omega

/-- One query: it is fed and reported if it has records, and otherwise changes
nothing. -/
theorem Fed.processQuery {config : Config} {pages : List Int} {s : Simulator}
    (h : Fed config pages s) (q : Submission) :
    ∃ s', s.processQuery config q = some s' ∧
      Fed config (pages ++ q.pages config s.db) s' ∧ s'.db = s.db ∧
      s'.display =
        if q.HasRecords s.db then q.report s.db else s.display := by
  by_cases hsql : q.sql = []
  · refine ⟨s, by simp [Simulator.processQuery, hsql], ?_, rfl, ?_⟩
    · simpa [Submission.pages, Submission.HasRecords, hsql] using h
    · simp [Submission.HasRecords, hsql]
  · by_cases hcount : 0 < (q.result s.db).recordCount
    · have hrecords : q.HasRecords s.db := ⟨hsql, hcount⟩
      set sequence := s.db.queryPages config.pageSize q.sql
        (q.result s.db).recordCount with hsequence
      have hne : sequence ≠ [] := queryPages_ne_nil config s.db q.sql hcount
      have hshown : Fed config pages { s with display := q.report s.db } :=
        ⟨h.lru, h.mru, h.clock, h.pinned⟩
      obtain ⟨s', hfeed, hfed, hdb, hdisplay⟩ := hshown.feedManagers sequence
      refine ⟨s', ?_, ?_, hdb, ?_⟩
      · have hhead := List.head?_eq_some_head hne
        have hlast := List.getLast?_eq_some_getLast hne
        rw [Simulator.processQuery, if_neg hsql]
        simp only [← hsequence, if_neg (Int.not_le.mpr hcount), hhead, hlast]
        exact hfeed
      · rw [Submission.pages, if_pos hrecords]
        exact hfed
      · rw [hdisplay, if_pos hrecords]
    · have hnone : ¬ q.HasRecords s.db := fun hq => hcount hq.2
      refine ⟨s, ?_, ?_, rfl, by rw [if_neg hnone]⟩
      · simp [Simulator.processQuery, hsql, Int.not_lt.mp hcount]
      · rw [Submission.pages, if_neg hnone, List.append_nil]
        exact h

/-- The state after any run from the start-up. -/
theorem run_startUp (config : Config) (db : SQLiteManager)
    (queries : List Submission) :
    ∃ s, (startUp config db).run config queries = some s ∧
      Fed config (queries.flatMap (Submission.pages config db)) s ∧
      s.db = db ∧ s.display = latestReport db queries := by
  induction queries using List.reverseRecOn with
  | nil => exact ⟨startUp config db, rfl, fed_startUp config db, rfl, rfl⟩
  | append_singleton queries q ih =>
      obtain ⟨s, hrun, hfed, hdb, hdisplay⟩ := ih
      obtain ⟨s', hstep, hfed', hdb', hdisplay'⟩ := hfed.processQuery q
      refine ⟨s', ?_, ?_, hdb'.trans hdb, ?_⟩
      · rw [run_snoc, hrun]
        exact hstep
      · rw [List.flatMap_append, List.flatMap_singleton, ← hdb]
        rw [← hdb] at hfed'
        exact hfed'
      · rw [latestReport_snoc, hdisplay', hdisplay, hdb]

end Simulator
end BufferSim
