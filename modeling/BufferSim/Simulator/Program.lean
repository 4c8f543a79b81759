import BufferSim.Simulator.MetricsFile
import BufferSim.Simulator.Interleaving

/-!
# The whole program

`main` opens the database, reserves pages for its tables, truncates its files
and enters the main loop.  SIGINT and SIGTERM clear `g_running`, which the loop
tests before each look at `query.sql`; then the metrics are written and the
program returns.

Writes of `query.sql` and signals fall between the steps of `main` in any order,
and the database can answer differently in every step.  A callback that gets a
null pointer for the cells of a row kills the program.
-/

namespace BufferSim

open Cxx

/-- The constructor of `SQLiteManager`, for a return code of `sqlite3_open`. -/
def SQLiteManager.new (rc : Int) : SQLiteManager :=
  if rc ≠ SQLITE_OK then { isOpen := false, tablePageOffsets := [] }
  else SQLiteManager.opened

/-- What the system delivers during one step of `main`: the calls of the
database, the formatted time, and whether the metrics file can be opened. -/
structure World where
  sqlite : Text → ExecCall
  timeBuf : Text
  metricsOpen : Bool

namespace World

/-- Every callback of the database gets the cells of a row. -/
def HasCells (world : World) : Prop :=
  ∀ sql, (world.sqlite sql).HasCells

/-- The query has the time of this system and the answer of its database. -/
def Delivers (world : World) (q : Submission) : Prop :=
  q.timeBuf = world.timeBuf ∧ (world.sqlite q.sql).response = some q.response

end World

/-- Where `main` stands: at the head of its loop, at `readFile`, behind `return`,
or at a null pointer in the callback of a query. -/
inductive Phase where
  | watching
  | reading
  | exited (code : Int)
  | killed
  deriving DecidableEq, Repr

/-- A write of `query.sql`, a signal, or the next step of `main`. -/
inductive ProgramEvent where
  | write (content : Text) (time : Int)
  | signal
  | step (world : World)

/-- The process and its files; `executed` records the queries that the loop has
executed. -/
structure Program where
  phase : Phase
  running : Bool
  query : Option File
  metricsFile : Option Text
  watcher : FileWatcher
  simulator : Simulator
  executed : List Submission

namespace Program

/-- The state at the first test of `g_running`; `query.sql` was truncated at
`time`. -/
def watching (config : Config) (dbManager : SQLiteManager) (time : Int)
    (metricsFile : Option Text) : Program where
  phase := .watching
  running := true
  query := some { content := [], mtime := time }
  metricsFile := metricsFile
  watcher := {}
  simulator := Simulator.startUp config dbManager
  executed := []

/-- `main` up to its loop, or the exit code when the database does not open. -/
def start (config : Config) (rc : Int) (sqlite : Sqlite) (time : Int)
    (metricsFile : Option Text) : Except Int Program :=
  let dbManager := SQLiteManager.new rc
  if !dbManager.isOpen then .error 1
  else
    .ok (watching config (dbManager.initPageOffsets sqlite config.pageSize)
      time metricsFile)

/-- `sigintHandler`. -/
def sigintHandler (s : Program) : Program :=
  { s with running := false }

/-- The query that the loop reads, if the callback gets the cells of every
row. -/
def nextQuery (s : Program) (world : World) : Option Submission := do
  let content := FileWatcher.readFile s.query
  let response ← (world.sqlite (querySql content)).response
  return { content := content, timeBuf := world.timeBuf, response := response }

/-- The next step of `main`: a test of `g_running` and a look at the file, the
execution of a query unless the file is blank, or the end. -/
def next (config : Config) (s : Program) (world : World) : Option Program :=
  match s.phase with
  | .watching =>
      if s.running then
        let (changed, watcher) := s.watcher.hasChanged s.query
        some { s with watcher := watcher
                      phase := if changed then .reading else .watching }
      else
        some { s with
          phase := .exited 0
          metricsFile := dumpMetricsToFile world.metricsOpen world.timeBuf
            s.simulator.metrics s.metricsFile }
  | .reading =>
      if querySql (FileWatcher.readFile s.query) = [] then
        some { s with phase := .watching }
      else
        match s.nextQuery world with
        | none => some { s with phase := .killed }
        | some q =>
            (s.simulator.processQuery config q).map fun simulator =>
              { s with phase := .watching
                       simulator := simulator
                       executed := s.executed ++ [q] }
  | .exited _ => some s
  | .killed => some s

def step (config : Config) (s : Program) : ProgramEvent → Option Program
  | .write content time =>
      some { s with query := some { content, mtime := time } }
  | .signal => some s.sigintHandler
  | .step world => s.next config world

def run (config : Config) (s : Program) (events : List ProgramEvent) :
    Option Program :=
  events.foldlM (step config) s

variable {config : Config} {s s' : Program}

theorem run_append (s : Program) (xs ys : List ProgramEvent) :
    s.run config (xs ++ ys) =
      (s.run config xs).bind (fun s' => s'.run config ys) := by
  rw [run, List.foldlM_append]
  rfl

theorem run_snoc (s : Program) (events : List ProgramEvent)
    (e : ProgramEvent) :
    s.run config (events ++ [e]) =
      (s.run config events).bind (fun s' => s'.step config e) := by
  rw [run_append]
  congr 1
  funext s'
  simp [run]

/-! ## The steps of `main` -/

theorem next_of_running (hphase : s.phase = .watching)
    (hrunning : s.running = true) (world : World) :
    s.next config world = some
      { s with
        watcher := (s.watcher.hasChanged s.query).2
        phase := if (s.watcher.hasChanged s.query).1 then .reading
          else .watching } := by
  simp only [next, hphase, hrunning, if_true]

theorem next_of_stopped (hphase : s.phase = .watching)
    (hstopped : s.running = false) (world : World) :
    s.next config world = some
      { s with
        phase := .exited 0
        metricsFile := dumpMetricsToFile world.metricsOpen world.timeBuf
          s.simulator.metrics s.metricsFile } := by
  simp only [next, hphase, hstopped, Bool.false_eq_true, if_false]

theorem next_of_blank (hphase : s.phase = .reading)
    (hblank : querySql (FileWatcher.readFile s.query) = []) (world : World) :
    s.next config world = some { s with phase := .watching } := by
  simp only [next, hphase, if_pos hblank]

theorem next_of_none (hphase : s.phase = .reading)
    (hquery : querySql (FileWatcher.readFile s.query) ≠ []) {world : World}
    (hnone : s.nextQuery world = none) :
    s.next config world = some { s with phase := .killed } := by
  simp only [next, hphase, if_neg hquery, hnone]

theorem next_of_query (hphase : s.phase = .reading)
    (hquery : querySql (FileWatcher.readFile s.query) ≠ []) {world : World}
    {q : Submission} (hq : s.nextQuery world = some q) :
    s.next config world =
      (s.simulator.processQuery config q).map fun simulator =>
        { s with phase := .watching
                 simulator := simulator
                 executed := s.executed ++ [q] } := by
  simp only [next, hphase, if_neg hquery, hq]

theorem next_of_exited {code : Int} (hphase : s.phase = .exited code)
    (world : World) : s.next config world = some s := by
  simp only [next, hphase]

theorem next_of_killed (hphase : s.phase = .killed) (world : World) :
    s.next config world = some s := by
  simp only [next, hphase]

theorem eq_of_nextQuery {world : World} {q : Submission}
    (h : s.nextQuery world = some q) :
    q.content = FileWatcher.readFile s.query ∧ world.Delivers q := by
  obtain ⟨response, hresponse, hq⟩ := Option.bind_eq_some_iff.mp h
  obtain rfl := Option.some.inj hq
  exact ⟨rfl, rfl, hresponse⟩

theorem exists_nextQuery (s : Program) {world : World}
    (hcells : world.HasCells) : ∃ q, s.nextQuery world = some q := by
  obtain ⟨response, hresponse⟩ := (hcells
    (querySql (FileWatcher.readFile s.query))).exists_response
  exact ⟨_, by rw [nextQuery, hresponse]; rfl⟩

/-- What a step of `main` does at `readFile`: it skips a blank file, is killed
in the callback, or executes the query. -/
theorem reading_cases (hphase : s.phase = .reading) {world : World}
    (h : s.next config world = some s') :
    (querySql (FileWatcher.readFile s.query) = [] ∧
      s' = { s with phase := .watching }) ∨
    (querySql (FileWatcher.readFile s.query) ≠ [] ∧ ¬ world.HasCells ∧
      s' = { s with phase := .killed }) ∨
    (querySql (FileWatcher.readFile s.query) ≠ [] ∧
      ∃ q simulator, q.content = FileWatcher.readFile s.query ∧
        world.Delivers q ∧
        s.simulator.processQuery config q = some simulator ∧
        s' = { s with phase := .watching
                      simulator := simulator
                      executed := s.executed ++ [q] }) := by
  by_cases hblank : querySql (FileWatcher.readFile s.query) = []
  · rw [next_of_blank hphase hblank] at h
    exact Or.inl ⟨hblank, (Option.some.inj h).symm⟩
  · refine Or.inr ?_
    cases hq : s.nextQuery world with
    | none =>
        rw [next_of_none hphase hblank hq] at h
        refine Or.inl ⟨hblank, fun hcells => ?_, (Option.some.inj h).symm⟩
        obtain ⟨q, hsome⟩ := s.exists_nextQuery hcells
        simp [hq] at hsome
    | some q =>
        rw [next_of_query hphase hblank hq] at h
        obtain ⟨simulator, hprocess, hs⟩ := Option.map_eq_some_iff.mp h
        obtain ⟨hcontent, hdelivers⟩ := eq_of_nextQuery hq
        exact Or.inr ⟨hblank, q, simulator, hcontent, hdelivers, hprocess,
          hs.symm⟩

/-- A step of `main` leaves the query file, and executes what it holds or
nothing. -/
theorem next_cases {world : World} (h : s.next config world = some s') :
    s'.query = s.query ∧
      ((s'.executed = s.executed ∧ s'.simulator = s.simulator) ∨
        ∃ q, q.content = FileWatcher.readFile s.query ∧ q.sql ≠ [] ∧
          world.Delivers q ∧ s'.executed = s.executed ++ [q]) := by
  cases hphase : s.phase with
  | watching =>
      cases hrunning : s.running with
      | true =>
          rw [next_of_running hphase hrunning] at h
          obtain rfl := Option.some.inj h
          exact ⟨rfl, Or.inl ⟨rfl, rfl⟩⟩
      | false =>
          rw [next_of_stopped hphase hrunning] at h
          obtain rfl := Option.some.inj h
          exact ⟨rfl, Or.inl ⟨rfl, rfl⟩⟩
  | reading =>
      rcases reading_cases hphase h with ⟨-, rfl⟩ | ⟨-, -, rfl⟩ |
        ⟨hquery, q, simulator, hcontent, hdelivers, -, rfl⟩
      · exact ⟨rfl, Or.inl ⟨rfl, rfl⟩⟩
      · exact ⟨rfl, Or.inl ⟨rfl, rfl⟩⟩
      · have hsql : q.sql ≠ [] := by
          rw [Submission.sql, hcontent]
          exact hquery
        exact ⟨rfl, Or.inr ⟨q, hcontent, hsql, hdelivers, rfl⟩⟩
  | exited code =>
      rw [next_of_exited hphase] at h
      obtain rfl := Option.some.inj h
      exact ⟨rfl, Or.inl ⟨rfl, rfl⟩⟩
  | killed =>
      rw [next_of_killed hphase] at h
      obtain rfl := Option.some.inj h
      exact ⟨rfl, Or.inl ⟨rfl, rfl⟩⟩

/-- The steps of `main` execute queries with the answers of their databases. -/
theorem executed_steps {worlds : List World}
    (h : s.run config (worlds.map .step) = some s') :
    s'.query = s.query ∧ ∃ new, s'.executed = s.executed ++ new ∧
      (∀ q ∈ new, ∃ world ∈ worlds, world.Delivers q) ∧
      (querySql (FileWatcher.readFile s.query) = [] →
        new = [] ∧ s'.simulator = s.simulator) := by
  induction worlds generalizing s with
  | nil =>
      obtain rfl := Option.some.inj h
      exact ⟨rfl, [], (List.append_nil _).symm, by simp, fun _ => ⟨rfl, rfl⟩⟩
  | cons world worlds ih =>
      rw [List.map_cons, run, List.foldlM_cons] at h
      obtain ⟨s₁, hstep, hrest⟩ := Option.bind_eq_some_iff.mp h
      obtain ⟨hquery, hcases⟩ := next_cases hstep
      obtain ⟨hquery', new, hnew, hworlds, hblank⟩ := ih hrest
      rw [hquery] at hquery' hblank
      have hlater : ∀ q ∈ new, ∃ w ∈ world :: worlds, w.Delivers q := by
        intro q hq
        obtain ⟨w, hw, hdelivers⟩ := hworlds q hq
        exact ⟨w, List.mem_cons_of_mem _ hw, hdelivers⟩
      refine ⟨hquery', ?_⟩
      rcases hcases with ⟨hsame, hsimulator⟩ | ⟨q, hcontent, hsql, hq, hadded⟩
      · refine ⟨new, hsame ▸ hnew, hlater, fun hnil => ?_⟩
        exact ⟨(hblank hnil).1, (hblank hnil).2.trans hsimulator⟩
      · refine ⟨q :: new, ?_, ?_, fun hnil => ?_⟩
        · rw [hnew, hadded, List.append_assoc, List.singleton_append]
        · intro q' hq'
          rcases List.mem_cons.mp hq' with rfl | hq'
          · exact ⟨world, List.mem_cons_self, hq⟩
          · exact hlater q' hq'
        · rw [Submission.sql, hcontent] at hsql
          exact absurd hnil hsql

/-! ## The invariant of a run -/

/-- What holds after `events` since the start: the managers have been fed the
pages of the executed queries, the display shows the latest of them with
records, and the metrics file is not written before the end. -/
structure Invariant (config : Config) (db : SQLiteManager)
    (metricsFile : Option Text) (events : List ProgramEvent) (s : Program) :
    Prop where
  fed : Simulator.Fed config
    (s.executed.flatMap (Submission.pages config db)) s.simulator
  db_eq : s.simulator.db = db
  display_eq : s.simulator.display = latestReport db s.executed
  answered : ∀ q ∈ s.executed, q.sql ≠ [] ∧
    ∃ world, .step world ∈ events ∧ world.Delivers q
  metricsFile_eq : (∀ code, s.phase ≠ .exited code) →
    s.metricsFile = metricsFile
  exited : ∀ code, s.phase = .exited code → code = 0
  killed : s.phase = .killed →
    ∃ world, .step world ∈ events ∧ ¬ world.HasCells

namespace Invariant

variable {db : SQLiteManager} {metricsFile : Option Text}
  {events : List ProgramEvent}

theorem mono (h : Invariant config db metricsFile events s)
    {events' : List ProgramEvent} (hsub : events ⊆ events') :
    Invariant config db metricsFile events' s where
  fed := h.fed
  db_eq := h.db_eq
  display_eq := h.display_eq
  answered q hq := by
    obtain ⟨hsql, world, hworld, hdelivers⟩ := h.answered q hq
    exact ⟨hsql, world, hsub hworld, hdelivers⟩
  metricsFile_eq := h.metricsFile_eq
  exited := h.exited
  killed hkilled := by
    obtain ⟨world, hworld, hcells⟩ := h.killed hkilled
    exact ⟨world, hsub hworld, hcells⟩

/-- A look at the file, or the skip of a blank one, changes neither the files
nor the managers. -/
theorem look (h : Invariant config db metricsFile events s)
    (halive : ∀ code, s.phase ≠ .exited code) (watcher : FileWatcher)
    (changed : Bool) :
    Invariant config db metricsFile events
      { s with watcher := watcher
               phase := if changed then .reading else .watching } where
  fed := h.fed
  db_eq := h.db_eq
  display_eq := h.display_eq
  answered := h.answered
  metricsFile_eq _ := h.metricsFile_eq halive
  exited code hcode := by
    cases changed <;> simp at hcode
  killed hkilled := by
    cases changed <;> simp at hkilled

/-- At the end the metrics are written. -/
theorem finish (h : Invariant config db metricsFile events s)
    (newFile : Option Text) :
    Invariant config db metricsFile events
      { s with phase := .exited 0
               metricsFile := newFile } where
  fed := h.fed
  db_eq := h.db_eq
  display_eq := h.display_eq
  answered := h.answered
  metricsFile_eq hrunning := absurd rfl (hrunning 0)
  exited code hcode := by simpa using hcode.symm
  killed hkilled := by simp at hkilled

/-- A null pointer in the callback leaves everything as it is. -/
theorem kill (h : Invariant config db metricsFile events s)
    (halive : ∀ code, s.phase ≠ .exited code) {world : World}
    (hworld : .step world ∈ events) (hcells : ¬ world.HasCells) :
    Invariant config db metricsFile events { s with phase := .killed } where
  fed := h.fed
  db_eq := h.db_eq
  display_eq := h.display_eq
  answered := h.answered
  metricsFile_eq _ := h.metricsFile_eq halive
  exited code hcode := by simp at hcode
  killed _ := ⟨world, hworld, hcells⟩

/-- The execution of a query. -/
theorem execute (h : Invariant config db metricsFile events s)
    (hreading : s.phase = .reading) {q : Submission}
    (hsql : q.sql ≠ []) {world : World} (hworld : .step world ∈ events)
    (hdelivers : world.Delivers q) :
    ∃ simulator, s.simulator.processQuery config q = some simulator ∧
      Invariant config db metricsFile events
        { s with phase := .watching
                 simulator := simulator
                 executed := s.executed ++ [q] } := by
  obtain ⟨simulator, hstep, hfed, hdb, hdisplay⟩ := h.fed.processQuery q
  rw [h.db_eq] at hfed hdb hdisplay
  refine ⟨simulator, hstep, ?_⟩
  constructor
  · rw [List.flatMap_append, List.flatMap_singleton]
    exact hfed
  · exact hdb
  · rw [latestReport_snoc, ← h.display_eq]
    exact hdisplay
  · intro q' hq'
    rcases List.mem_append.mp hq' with hold | hnew
    · exact h.answered q' hold
    · obtain rfl := List.mem_singleton.mp hnew
      exact ⟨hsql, world, hworld, hdelivers⟩
  · intro _
    exact h.metricsFile_eq (fun code => by simp [hreading])
  · intro code hcode
    simp at hcode
  · intro hkilled
    simp at hkilled

theorem next (h : Invariant config db metricsFile events s) {world : World}
    (hworld : .step world ∈ events) :
    ∃ s', s.next config world = some s' ∧
      Invariant config db metricsFile events s' := by
  cases hphase : s.phase with
  | watching =>
      cases hrunning : s.running with
      | true =>
          exact ⟨_, next_of_running hphase hrunning world,
            h.look (fun code => by simp [hphase]) _ _⟩
      | false =>
          exact ⟨_, next_of_stopped hphase hrunning world,
            h.finish _⟩
  | reading =>
      have halive : ∀ code, s.phase ≠ .exited code := by simp [hphase]
      by_cases hblank : querySql (FileWatcher.readFile s.query) = []
      · exact ⟨_, next_of_blank hphase hblank world,
          h.look halive s.watcher false⟩
      · cases hq : s.nextQuery world with
        | none =>
            have hcells : ¬ world.HasCells := by
              intro hcells
              obtain ⟨q, hsome⟩ := s.exists_nextQuery hcells
              simp [hq] at hsome
            exact ⟨_, next_of_none hphase hblank hq,
              h.kill halive hworld hcells⟩
        | some q =>
            obtain ⟨hcontent, hdelivers⟩ := eq_of_nextQuery hq
            have hsql : q.sql ≠ [] := by
              rw [Submission.sql, hcontent]
              exact hblank
            obtain ⟨simulator, hprocess, hinv⟩ :=
              h.execute hphase hsql hworld hdelivers
            refine ⟨_, ?_, hinv⟩
            rw [next_of_query hphase hblank hq, hprocess, Option.map_some]
  | exited code => exact ⟨s, next_of_exited hphase world, h⟩
  | killed => exact ⟨s, next_of_killed hphase world, h⟩

theorem step (h : Invariant config db metricsFile events s)
    (e : ProgramEvent) :
    ∃ s', s.step config e = some s' ∧
      Invariant config db metricsFile (events ++ [e]) s' := by
  have h' := h.mono (List.subset_append_left events [e])
  cases e with
  | write content time =>
      exact ⟨_, rfl, h'.fed, h'.db_eq, h'.display_eq, h'.answered,
        h'.metricsFile_eq, h'.exited, h'.killed⟩
  | signal =>
      exact ⟨_, rfl, h'.fed, h'.db_eq, h'.display_eq, h'.answered,
        h'.metricsFile_eq, h'.exited, h'.killed⟩
  | step world => exact h'.next (by simp)

theorem run (h : Invariant config db metricsFile events s)
    (more : List ProgramEvent) :
    ∃ s', s.run config more = some s' ∧
      Invariant config db metricsFile (events ++ more) s' := by
  induction more using List.reverseRecOn with
  | nil => exact ⟨s, rfl, by simpa using h⟩
  | append_singleton more e ih =>
      obtain ⟨s₁, hrun, hinv⟩ := ih
      obtain ⟨s', hstep, hinv'⟩ := hinv.step e
      rw [List.append_assoc] at hinv'
      exact ⟨s', by rw [run_snoc, hrun]; exact hstep, hinv'⟩

end Invariant

theorem invariant_watching (config : Config) (db : SQLiteManager) (time : Int)
    (metricsFile : Option Text) :
    Invariant config db metricsFile [] (watching config db time metricsFile) where
  fed := Simulator.fed_startUp config db
  db_eq := rfl
  display_eq := rfl
  answered := by simp [watching]
  metricsFile_eq _ := rfl
  exited code hcode := by simp [watching] at hcode
  killed hkilled := by simp [watching] at hkilled

/-- The database is open when the loop is entered. -/
theorem start_eq_ok {rc time : Int} {sqlite : Sqlite}
    {metricsFile : Option Text}
    (h : start config rc sqlite time metricsFile = .ok s) :
    s = watching config
      (SQLiteManager.opened.initPageOffsets sqlite config.pageSize) time
      metricsFile := by
  by_cases hrc : rc = SQLITE_OK
  · subst hrc
    exact (Except.ok.inj h).symm
  · simp [start, SQLiteManager.new, hrc] at h

/-- Every run is defined and keeps the invariant. -/
theorem run_watching (config : Config) (db : SQLiteManager) (time : Int)
    (metricsFile : Option Text) (events : List ProgramEvent) :
    ∃ s, (watching config db time metricsFile).run config events = some s ∧
      Invariant config db metricsFile events s := by
  simpa using (invariant_watching config db time metricsFile).run events

/-! ## A program with a database of one row -/

/-- A system whose database answers every query with one row. -/
def oneRowWorld : World where
  sqlite := fun sql => (QueryLoop.oneRow sql).call
  timeBuf := "2026-03-01 12:00:00".toList
  metricsOpen := true

theorem hasCells_oneRowWorld : oneRowWorld.HasCells :=
  fun sql => (QueryLoop.oneRow sql).hasCells_call

/-- The program that has been started with such a database in second 1000. -/
def oneRowProgram : Program :=
  watching Config.source
    (SQLiteManager.opened.initPageOffsets QueryLoop.oneRow
      Config.source.pageSize) 1000 none

theorem start_oneRow : start Config.source SQLITE_OK QueryLoop.oneRow 1000 none =
    .ok oneRowProgram := rfl

end Program
end BufferSim
