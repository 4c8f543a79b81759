import BufferSim.Database.Attribution
import BufferSim.Polling.SplitPoll
import BufferSim.Watcher.FileWatcher
import BufferSim.Simulator.MainLoop

/-!
# The main loop and concurrent writes

One iteration of the main loop asks for the modification time of `query.sql` in
`hasChanged` and reads the file in `readFile` afterwards.  The frontend can
replace the file in between.  The iteration then executes the new query, and as
`lastModified_` is still the time of the old one, the next iteration executes
the new query again.  Blank content is read, but not executed.

The times of the writes are strictly increasing here, so that the coarse clock
of `FileWatcher` plays no part.
-/

namespace BufferSim

open Cxx Polling

/-- A write of `query.sql`, or the next step of the main loop. -/
inductive LoopEvent where
  | write (content : Text) (time : Int)
  | loop
  deriving DecidableEq, Repr

/-- `query.sql`, its watcher, whether `hasChanged` has returned true and
`readFile` comes next, and the contents that the loop has executed, each with
the time of its write. -/
structure QueryLoop where
  file : Option File
  watcher : FileWatcher := {}
  reading : Bool := false
  executed : List File := []
  deriving DecidableEq, Repr

namespace QueryLoop

/-- The main loop truncates the file before its first iteration. -/
def startUp (time : Int) : QueryLoop where
  file := some { content := [], mtime := time }

/-- `watcher.hasChanged()`; after a false result the loop sleeps and comes back
to this step. -/
def stat (s : QueryLoop) : QueryLoop :=
  let (changed, watcher) := s.watcher.hasChanged s.file
  { s with watcher := watcher, reading := changed }

/-- `watcher.readFile()`, and the execution of what it returns unless it is
blank. -/
def readAndExecute (s : QueryLoop) : QueryLoop :=
  let content := FileWatcher.readFile s.file
  if querySql content = [] then { s with reading := false }
  else
    { s with
      reading := false
      executed := s.executed ++
        [{ content, mtime := FileWatcher.getModTime s.file }] }

def step (s : QueryLoop) : LoopEvent → QueryLoop
  | .write content time => { s with file := some { content, mtime := time } }
  | .loop => if s.reading then s.readAndExecute else s.stat

def run (s : QueryLoop) (events : List LoopEvent) : QueryLoop :=
  events.foldl step s

/-- Every write gives the file a larger modification time. -/
def FreshTimes : QueryLoop → List LoopEvent → Prop
  | _, [] => True
  | s, .write content time :: events =>
      FileWatcher.getModTime s.file < time ∧
        FreshTimes (s.step (.write content time)) events
  | s, .loop :: events => FreshTimes (s.step .loop) events

/-- The loop is about to read a file that has been replaced since `hasChanged`
returned true. -/
def Overtaken (s : QueryLoop) : Prop :=
  s.reading = true ∧ (s.watcher.hasChanged s.file).1 = true

/-- The loop reads a file that was replaced and holds a query, and the next
iteration is over before the file is replaced again. -/
def RepeatsQuery (s : QueryLoop) (events : List LoopEvent) : Prop :=
  ∃ before after, events = before ++ [.loop, .loop, .loop] ++ after ∧
    (s.run before).Overtaken ∧
    querySql (FileWatcher.readFile (s.run before).file) ≠ []

@[simp] theorem readAndExecute_file (s : QueryLoop) :
    s.readAndExecute.file = s.file := by
  rw [readAndExecute]
  split <;> rfl

end QueryLoop

/-! ## The loop as a reader of a stamped cell -/

namespace LoopEvent

def toTurn : LoopEvent → Turn Text Int
  | .write content time => .write { content, stamp := time }
  | .loop => .reader

theorem toTurn_injective : Function.Injective toTurn := by
  intro e e' heq
  cases e <;> cases e' <;> simp_all [toTurn]

end LoopEvent

theorem FileWatcher.hasChanged_iff (w : FileWatcher) (file : Option File) :
    (w.hasChanged file).1 = true ↔
      getModTime file ≠ w.lastModified ∧ getModTime file ≠ 0 := by
  rw [hasChanged]
  split
  · next h => exact ⟨fun _ => h, fun _ => rfl⟩
  · next h => exact ⟨fun hfalse => absurd hfalse (by simp), fun h' => absurd h' h⟩

theorem File.cell_injective : Function.Injective File.cell := by
  rintro ⟨content, mtime⟩ ⟨content', mtime'⟩ heq
  simpa [File.cell] using heq

namespace QueryLoop

/-- The reads that are executed. -/
def holdsQuery (c : Cell Text Int) : Bool :=
  nonblank c.content

/-- The file exists, and the loop holds what the reader holds; it has executed
the reads that were not blank. -/
structure Represents (s : QueryLoop) (c : Reader Text Int) : Prop where
  file_eq : ∃ file, s.file = some file ∧ file.cell = c.cell
  remembered_eq : s.watcher.lastModified = c.remembered
  reading_eq : s.reading = c.reading
  executed_eq : s.executed.map File.cell = c.reads.filter holdsQuery

variable {s : QueryLoop} {c : Reader Text Int}

theorem Represents.getModTime_eq (h : s.Represents c) :
    FileWatcher.getModTime s.file = c.cell.stamp := by
  obtain ⟨file, hfile, hcell⟩ := h.file_eq
  simp only [hfile, ← hcell]
  rfl

theorem Represents.readFile_eq (h : s.Represents c) :
    FileWatcher.readFile s.file = c.cell.content := by
  obtain ⟨file, hfile, hcell⟩ := h.file_eq
  simp only [hfile, ← hcell]
  rfl

theorem Represents.hasChanged_iff (h : s.Represents c) :
    (s.watcher.hasChanged s.file).1 = true ↔ c.Changed 0 := by
  rw [FileWatcher.hasChanged_iff, h.getModTime_eq, h.remembered_eq]
  rfl

theorem Represents.overtaken_iff (h : s.Represents c) :
    s.Overtaken ↔ c.Overtaken 0 := by
  rw [Overtaken, h.hasChanged_iff, h.reading_eq]
  rfl

theorem Represents.stat (h : s.Represents c) (hlooking : s.reading = false) :
    s.stat.Represents (c.look 0) := by
  have hmod := h.getModTime_eq
  have hchanged : (FileWatcher.getModTime s.file ≠ s.watcher.lastModified ∧
      FileWatcher.getModTime s.file ≠ 0) ↔ c.Changed 0 := by
    rw [hmod, h.remembered_eq]
    rfl
  by_cases hc : c.Changed 0
  · simp only [QueryLoop.stat, FileWatcher.hasChanged, Reader.look,
      if_pos hc, if_pos (hchanged.mpr hc)]
    exact ⟨h.file_eq, hmod, rfl, h.executed_eq⟩
  · simp only [QueryLoop.stat, FileWatcher.hasChanged, Reader.look,
      if_neg hc, if_neg (mt hchanged.mp hc)]
    exact ⟨h.file_eq, h.remembered_eq, hlooking ▸ h.reading_eq,
      h.executed_eq⟩

theorem Represents.readAndExecute (h : s.Represents c) :
    s.readAndExecute.Represents c.read := by
  have hcontent := h.readFile_eq
  have hreads : c.read.reads.filter holdsQuery =
      c.reads.filter holdsQuery ++ [c.cell].filter holdsQuery :=
    List.filter_append _ _
  by_cases hblank : querySql (FileWatcher.readFile s.file) = []
  · have hskip : holdsQuery c.cell = false := by
      simp [holdsQuery, nonblank, ← hcontent, hblank]
    rw [QueryLoop.readAndExecute, if_pos hblank]
    refine ⟨h.file_eq, h.remembered_eq, rfl, ?_⟩
    rw [hreads, List.filter_singleton, hskip, h.executed_eq]
    exact (List.append_nil _).symm
  · have hexecute : holdsQuery c.cell = true := by
      rw [holdsQuery, nonblank_iff, ← hcontent]
      exact hblank
    rw [QueryLoop.readAndExecute, if_neg hblank]
    refine ⟨h.file_eq, h.remembered_eq, rfl, ?_⟩
    rw [hreads, List.filter_singleton, hexecute, List.map_append,
      h.executed_eq, hcontent, h.getModTime_eq]
    rfl

theorem Represents.step (h : s.Represents c) (e : LoopEvent) :
    (s.step e).Represents (c.step 0 e.toTurn) := by
  cases e with
  | write content time =>
      exact ⟨⟨_, rfl, rfl⟩, h.remembered_eq, h.reading_eq, h.executed_eq⟩
  | loop =>
      simp only [QueryLoop.step, LoopEvent.toTurn, Reader.step,
        ← h.reading_eq]
      cases hreading : s.reading with
      | true => exact h.readAndExecute
      | false => exact h.stat hreading

theorem Represents.run (h : s.Represents c) (events : List LoopEvent) :
    (s.run events).Represents (c.run 0 (events.map LoopEvent.toTurn)) := by
  induction events generalizing s c with
  | nil => exact h
  | cons e events ih => exact ih (h.step e)

/-- The reader at the start-up of the main loop. -/
def startReader (time : Int) : Reader Text Int where
  cell := { content := [], stamp := time }
  remembered := 0
  reading := false
  reads := []

theorem represents_startUp (time : Int) :
    (startUp time).Represents (startReader time) where
  file_eq := ⟨_, rfl, rfl⟩
  remembered_eq := rfl
  reading_eq := rfl
  executed_eq := rfl

theorem FreshTimes.lt_of_write {before after : List LoopEvent}
    {content : Text} {time : Int}
    (h : s.FreshTimes (before ++ .write content time :: after)) :
    FileWatcher.getModTime (s.run before).file < time := by
  induction before generalizing s with
  | nil => exact h.1
  | cons e before ih =>
      cases e with
      | write content' time' => exact ih h.2
      | loop => exact ih h

theorem increasing_of_freshTimes {time : Int} {events : List LoopEvent}
    (hfresh : (startUp time).FreshTimes events) :
    (startReader time).Increasing 0 (events.map LoopEvent.toTurn) := by
  intro before new after hsplit
  obtain ⟨xs, zs, rfl, rfl, hzs⟩ := List.map_eq_append_iff.mp hsplit
  obtain ⟨e, ys, rfl, he, rfl⟩ := List.map_eq_cons_iff.mp hzs
  cases e with
  | write content time' =>
      obtain rfl : { content := content, stamp := time' } = new := by
        simpa [LoopEvent.toTurn] using he
      have hlt := hfresh.lt_of_write
      rwa [((represents_startUp time).run xs).getModTime_eq] at hlt
  | loop => simp [LoopEvent.toTurn] at he

theorem repeatsQuery_iff (time : Int) (events : List LoopEvent) :
    (startUp time).RepeatsQuery events ↔
      (startReader time).Repeats 0 holdsQuery
        (events.map LoopEvent.toTurn) := by
  have hoverlap : ∀ before, ((startUp time).run before).Overtaken ∧
      querySql (FileWatcher.readFile ((startUp time).run before).file) ≠ [] ↔
        ((startReader time).run 0 (before.map LoopEvent.toTurn)).Overtaken 0 ∧
          holdsQuery ((startReader time).run 0
            (before.map LoopEvent.toTurn)).cell = true := by
    intro before
    have hrep := (represents_startUp time).run before
    rw [hrep.overtaken_iff, hrep.readFile_eq, holdsQuery, nonblank_iff]
  constructor
  · rintro ⟨before, after, rfl, hover⟩
    refine ⟨before.map LoopEvent.toTurn, after.map LoopEvent.toTurn, ?_, ?_⟩
    · simp [LoopEvent.toTurn]
    · exact (hoverlap before).mp hover
  · rintro ⟨before, after, hsplit, hover⟩
    obtain ⟨xs, after', rfl, hxs, rfl⟩ := List.map_eq_append_iff.mp hsplit
    obtain ⟨before', polls, rfl, rfl, hpolls⟩ := List.map_eq_append_iff.mp hxs
    have hloops : polls = [.loop, .loop, .loop] :=
      List.map_injective_iff.mpr LoopEvent.toTurn_injective hpolls
    refine ⟨before', after', by rw [hloops], ?_⟩
    exact (hoverlap before').mpr hover

/-- No write is executed by two iterations exactly when no overtaken read of a
query is followed by a whole iteration that finds the same file. -/
theorem executed_nodup_iff {time : Int} {events : List LoopEvent}
    (hfresh : (startUp time).FreshTimes events) :
    ((startUp time).run events).executed.Nodup ↔
      ¬ (startUp time).RepeatsQuery events := by
  have hrep := (represents_startUp time).run events
  rw [repeatsQuery_iff, ← List.nodup_map_iff File.cell_injective,
    hrep.executed_eq]
  exact Reader.reads_nodup_iff rfl rfl (increasing_of_freshTimes hfresh)

theorem executed_nodup_iff_two_writes :
    ((startUp 1000).run [.write "SELECT 1;".toList 1001, .loop, .loop,
        .write "SELECT 2;".toList 1002, .loop, .loop]).executed.Nodup ↔
      ¬ (startUp 1000).RepeatsQuery
        [.write "SELECT 1;".toList 1001, .loop, .loop,
          .write "SELECT 2;".toList 1002, .loop, .loop] := by
  apply executed_nodup_iff
  simp [FreshTimes, step, startUp, stat, FileWatcher.hasChanged,
    FileWatcher.getModTime]

/-! ## A query that is executed twice -/

/-- What the loop has executed, as submissions to a database. -/
def submissions (sqlite : Sqlite) (timeBuf : Text) (s : QueryLoop) :
    List Submission :=
  s.executed.map (fun file =>
    { content := file.content
      timeBuf
      response := sqlite (querySql file.content) })

/-- The second query is written between `hasChanged` and `readFile`. -/
def overtakenEvents : List LoopEvent :=
  [.write "SELECT * FROM courses;".toList 1001, .loop,
    .write "SELECT * FROM students;".toList 1002, .loop, .loop, .loop]

/-- A database that answers every query with one row. -/
def oneRow : Sqlite := fun _ =>
  { rows := [singleCell "1".toList], rc := SQLITE_OK }

/-- The query on students, as it is executed. -/
def studentsSubmission : Submission where
  content := "SELECT * FROM students;".toList
  timeBuf := []
  response := oneRow []

theorem submissions_overtakenEvents :
    ((startUp 1000).run overtakenEvents).submissions oneRow [] =
      [studentsSubmission, studentsSubmission] := by
  have hexecuted : ((startUp 1000).run overtakenEvents).executed =
      [⟨"SELECT * FROM students;".toList, 1002⟩,
        ⟨"SELECT * FROM students;".toList, 1002⟩] := by decide
  rw [submissions, hexecuted]
  rfl

theorem pages_studentsSubmission :
    studentsSubmission.pages Config.source SQLiteManager.opened = [0] := by
  decide

/-- The query on students is executed twice, and its page hits in every manager
although it was submitted once. -/
theorem query_executed_twice :
    (startUp 1000).FreshTimes overtakenEvents ∧
    ¬ ((startUp 1000).run overtakenEvents).executed.Nodup ∧
    ∃ s, (Simulator.startUp Config.source SQLiteManager.opened).run
        Config.source (((startUp 1000).run overtakenEvents).submissions
          oneRow []) = some s ∧
      s.lru.metrics.bufferHits = 1 ∧ s.mru.metrics.bufferHits = 1 ∧
      s.clock.metrics.bufferHits = 1 ∧ s.pinned.metrics.bufferHits = 1 := by
  refine ⟨?_, by decide, ?_⟩
  · simp [overtakenEvents, FreshTimes, step, startUp, stat,
      FileWatcher.hasChanged, FileWatcher.getModTime]
  · obtain ⟨s, hrun, hfed, -, -⟩ := Simulator.run_startUp Config.source
      SQLiteManager.opened [studentsSubmission, studentsSubmission]
    have hpages : [studentsSubmission, studentsSubmission].flatMap
        (Submission.pages Config.source SQLiteManager.opened) = [0, 0] := by
      simp only [List.flatMap_cons, List.flatMap_nil, pages_studentsSubmission]
      rfl
    rw [hpages] at hfed
    have hlru : (LRUBuffer.manager.run (LRUBuffer.new
        Config.source.bufferSize) [0, 0]).map
          (fun b => b.metrics.bufferHits) = some 1 := by decide
    have hmru : (MRUBuffer.manager.run (MRUBuffer.new
        Config.source.bufferSize) [0, 0]).map
          (fun b => b.metrics.bufferHits) = some 1 := by decide
    have hclock : (ClockBuffer.manager.run (ClockBuffer.new
        Config.source.bufferSize) [0, 0]).map
          (fun b => b.metrics.bufferHits) = some 1 := by decide
    have hpinned : (PinnedBuffer.manager.run (PinnedBuffer.new
        Config.source.bufferSize) [0, 0]).map
          (fun b => b.metrics.bufferHits) = some 1 := by decide
    rw [hfed.lru] at hlru
    rw [hfed.mru] at hmru
    rw [hfed.clock] at hclock
    rw [hfed.pinned] at hpinned
    rw [submissions_overtakenEvents]
    exact ⟨s, hrun, Option.some.inj hlru, Option.some.inj hmru,
      Option.some.inj hclock, Option.some.inj hpinned⟩

end QueryLoop
end BufferSim
