import BufferSim.Simulator.Program
import BufferSim.Simulator.Settling

/-!
# The latest query

A running program follows the loop of `Interleaving`, in which only the file and
the executed contents are left.  What that loop settles on is what the program
shows: three steps after the last write it has executed the query in the file
last, and the display is the report on it, unless it has no records.  A blank
file is not executed and changes nothing.
-/

namespace BufferSim

open Cxx

/-- What the loop around `query.sql` sees of an event. -/
def ProgramEvent.toLoop : ProgramEvent → Option LoopEvent
  | .write content time => some (.write content time)
  | .signal => none
  | .step _ => some .loop

namespace Program

/-- The program has not ended. -/
def Alive (s : Program) : Prop :=
  s.phase = .watching ∨ s.phase = .reading

/-- The program holds what the loop around `query.sql` holds, and has executed
the same contents after the earlier ones. -/
structure Follows (earlier : List Text) (s : Program) (l : QueryLoop) :
    Prop where
  file_eq : l.file = s.query
  watcher_eq : l.watcher = s.watcher
  reading_iff : l.reading = true ↔ s.phase = .reading
  executed_eq : s.executed.map Submission.content =
    earlier ++ l.executed.map File.content

variable {config : Config} {earlier : List Text} {s s' : Program}
  {l : QueryLoop}

theorem follows_watching (config : Config) (db : SQLiteManager) (time : Int)
    (metricsFile : Option Text) :
    (watching config db time metricsFile).Follows []
      (QueryLoop.startUp time) where
  file_eq := rfl
  watcher_eq := rfl
  reading_iff := by simp [watching, QueryLoop.startUp]
  executed_eq := rfl

/-- A program that has ended stays so. -/
theorem Alive.of_step {e : ProgramEvent} (hstep : s.step config e = some s')
    (h : s'.Alive) : s.Alive := by
  cases e with
  | write content time =>
      obtain rfl := Option.some.inj hstep
      exact h
  | signal =>
      obtain rfl := Option.some.inj hstep
      exact h
  | step world =>
      have hended : s.next config world = some s → s.Alive := by
        intro hsame
        obtain rfl := Option.some.inj (hsame.symm.trans hstep)
        exact h
      cases hphase : s.phase with
      | watching => exact Or.inl hphase
      | reading => exact Or.inr hphase
      | exited code => exact hended (next_of_exited hphase world)
      | killed => exact hended (next_of_killed hphase world)

theorem Follows.next (h : s.Follows earlier l) {world : World}
    (hnext : s.next config world = some s') (halive : s'.Alive) :
    s'.Follows earlier (l.step .loop) := by
  cases hphase : s.phase with
  | watching =>
      cases hrunning : s.running with
      | true =>
          rw [next_of_running hphase hrunning] at hnext
          obtain rfl := Option.some.inj hnext
          have hlooking : l.reading = false := by
            simpa [hphase] using h.reading_iff
          have hstep : l.step .loop = l.stat := by
            rw [QueryLoop.step, if_neg (by simp [hlooking])]
          rw [hstep, QueryLoop.stat, h.watcher_eq, h.file_eq]
          refine ⟨rfl, rfl, ?_, h.executed_eq⟩
          show (s.watcher.hasChanged s.query).1 = true ↔
            (if (s.watcher.hasChanged s.query).1 then Phase.reading
              else Phase.watching) = Phase.reading
          cases (s.watcher.hasChanged s.query).1 <;> simp
      | false =>
          rw [next_of_stopped hphase hrunning] at hnext
          obtain rfl := Option.some.inj hnext
          simp [Alive] at halive
  | reading =>
      have hstep : l.step .loop = l.readAndExecute := by
        rw [QueryLoop.step, if_pos (h.reading_iff.mpr hphase)]
      rw [hstep, QueryLoop.readAndExecute, h.file_eq]
      rcases reading_cases hphase hnext with ⟨hblank, rfl⟩ | ⟨-, -, rfl⟩ |
        ⟨hquery, q, simulator, hcontent, -, -, rfl⟩
      · rw [if_pos hblank]
        exact ⟨rfl, h.watcher_eq, by simp, h.executed_eq⟩
      · simp [Alive] at halive
      · rw [if_neg hquery]
        refine ⟨rfl, h.watcher_eq, by simp, ?_⟩
        rw [List.map_append, List.map_append, h.executed_eq, List.append_assoc,
          List.map_singleton, List.map_singleton, hcontent]
  | exited code =>
      have hsame : s.next config world = some s := next_of_exited hphase world
      obtain rfl := Option.some.inj (hsame.symm.trans hnext)
      simp [Alive, hphase] at halive
  | killed =>
      have hsame : s.next config world = some s := next_of_killed hphase world
      obtain rfl := Option.some.inj (hsame.symm.trans hnext)
      simp [Alive, hphase] at halive

theorem Follows.step (h : s.Follows earlier l) {e : ProgramEvent}
    (hstep : s.step config e = some s') (halive : s'.Alive) :
    s'.Follows earlier (l.run e.toLoop.toList) := by
  cases e with
  | write content time =>
      obtain rfl := Option.some.inj hstep
      exact ⟨rfl, h.watcher_eq, h.reading_iff, h.executed_eq⟩
  | signal =>
      obtain rfl := Option.some.inj hstep
      exact ⟨h.file_eq, h.watcher_eq, h.reading_iff, h.executed_eq⟩
  | step world => exact h.next hstep halive

/-- Until it ends, the program follows the loop around `query.sql`. -/
theorem Follows.run (h : s.Follows earlier l) {events : List ProgramEvent}
    (hrun : s.run config events = some s') (halive : s'.Alive) :
    s'.Follows earlier (l.run (events.filterMap ProgramEvent.toLoop)) := by
  induction events using List.reverseRecOn generalizing s' with
  | nil =>
      obtain rfl := Option.some.inj hrun
      exact h
  | append_singleton events e ih =>
      rw [run_snoc] at hrun
      obtain ⟨s₁, hbefore, hstep⟩ := Option.bind_eq_some_iff.mp hrun
      have hfollows := (ih hbefore (halive.of_step hstep)).step hstep halive
      rw [List.filterMap_append, QueryLoop.run_append]
      cases e <;> exact hfollows

/-! ## Runs without a signal -/

theorem Alive.next (halive : s.Alive) (hrunning : s.running = true)
    {world : World} (hcells : world.HasCells)
    (hnext : s.next config world = some s') :
    s'.Alive ∧ s'.running = true := by
  rcases halive with hphase | hphase
  · rw [next_of_running hphase hrunning] at hnext
    obtain rfl := Option.some.inj hnext
    refine ⟨?_, hrunning⟩
    cases hchanged : (s.watcher.hasChanged s.query).1 <;> simp [Alive]
  · rcases reading_cases hphase hnext with ⟨-, rfl⟩ | ⟨-, hnull, -⟩ |
      ⟨-, q, simulator, -, -, -, rfl⟩
    · exact ⟨Or.inl rfl, hrunning⟩
    · exact absurd hcells hnull
    · exact ⟨Or.inl rfl, hrunning⟩

/-- Without a signal the program does not end, as long as the callbacks get the
cells of every row. -/
theorem Alive.run (halive : s.Alive) (hrunning : s.running = true)
    {events : List ProgramEvent} (hsignal : .signal ∉ events)
    (hcells : ∀ world, .step world ∈ events → world.HasCells)
    (hrun : s.run config events = some s') :
    s'.Alive ∧ s'.running = true := by
  induction events generalizing s with
  | nil =>
      obtain rfl := Option.some.inj hrun
      exact ⟨halive, hrunning⟩
  | cons e events ih =>
      rw [List.mem_cons, not_or] at hsignal
      have hcells' : ∀ world, .step world ∈ events → world.HasCells :=
        fun world hworld => hcells world (List.mem_cons_of_mem e hworld)
      rw [Program.run, List.foldlM_cons] at hrun
      obtain ⟨s₁, hstep, hrest⟩ := Option.bind_eq_some_iff.mp hrun
      cases e with
      | write content time =>
          obtain rfl := Option.some.inj hstep
          exact ih (s := { s with query := some ⟨content, time⟩ })
            halive hrunning hsignal.2 hcells' hrest
      | signal => exact absurd rfl hsignal.1
      | step world =>
          obtain ⟨halive', hrunning'⟩ := halive.next hrunning
            (hcells world List.mem_cons_self) hstep
          exact ih halive' hrunning' hsignal.2 hcells' hrest

theorem filterMap_toLoop_steps (worlds : List World) :
    (worlds.map ProgramEvent.step).filterMap ProgramEvent.toLoop =
      List.replicate worlds.length .loop := by
  induction worlds with
  | nil => rfl
  | cons world worlds ih =>
      rw [List.map_cons, List.length_cons, List.replicate_succ, ← ih]
      rfl

/-- A program that follows an idle loop stays as it is. -/
theorem Follows.next_of_idle (h : s.Follows earlier l) (halive : s.Alive)
    (hrunning : s.running = true) (hlooking : l.reading = false)
    (hidle : l.step .loop = l) (world : World) :
    s.next config world = some s := by
  have hphase : s.phase = .watching := by
    refine halive.resolve_right fun hreading => ?_
    exact absurd (h.reading_iff.mpr hreading) (by simp [hlooking])
  have hstat : l.stat = l := by
    rw [QueryLoop.step, if_neg (by simp [hlooking])] at hidle
    exact hidle
  have hchanged : (l.watcher.hasChanged l.file).1 = false :=
    (congrArg QueryLoop.reading hstat).trans hlooking
  have hwatcher : (l.watcher.hasChanged l.file).2 = l.watcher :=
    congrArg QueryLoop.watcher hstat
  rw [h.watcher_eq, h.file_eq] at hchanged hwatcher
  rw [next_of_running hphase hrunning, hchanged, hwatcher]
  simp [← hphase]

theorem Follows.run_of_idle (h : s.Follows earlier l) (halive : s.Alive)
    (hrunning : s.running = true) (hlooking : l.reading = false)
    (hidle : l.step .loop = l) (worlds : List World) :
    s.run config (worlds.map .step) = some s := by
  induction worlds with
  | nil => rfl
  | cons world worlds ih =>
      rw [List.map_cons, Program.run, List.foldlM_cons, Program.step,
        h.next_of_idle halive hrunning hlooking hidle]
      exact ih

/-- What a program has executed last, when the loop that it follows has executed
the file last. -/
theorem Follows.getLast?_executed (h : s.Follows earlier l) {file : File}
    (hlast : l.executed.getLast? = some file) :
    ∃ q, s.executed.getLast? = some q ∧ q.content = file.content := by
  have hcontent := congrArg List.getLast? h.executed_eq
  rw [List.getLast?_append, List.getLast?_map, List.getLast?_map, hlast,
    Option.map_some, Option.some_or] at hcontent
  exact Option.map_eq_some_iff.mp hcontent

/-- The display after the last query. -/
theorem Invariant.display_getLast? {db : SQLiteManager}
    {metricsFile : Option Text} {events : List ProgramEvent}
    (hinv : Invariant config db metricsFile events s) {q : Submission}
    (hq : s.executed.getLast? = some q) :
    s.simulator.display =
      if q.HasRecords db then q.report db
      else latestReport db s.executed.dropLast := by
  have hdisplay := hinv.display_eq
  rwa [← List.dropLast_append_getLast? q hq, latestReport_snoc] at hdisplay

/-- Three steps after the last write the program is idle.  If `query.sql` is
blank, nothing has been executed in these steps.  Otherwise its content has been
executed last, and the display is the report on that query if it has records,
and else shows what it showed before. -/
theorem shows_latest_query {rc time : Int} {sqlite : Sqlite}
    {metricsFile : Option Text} {s₀ : Program}
    (hstart : start config rc sqlite time metricsFile = .ok s₀)
    (htime : 0 < time) {events : List ProgramEvent}
    (hsignal : .signal ∉ events)
    (hfresh : (QueryLoop.startUp time).FreshTimes
      (events.filterMap ProgramEvent.toLoop))
    {worlds : List World} (hsteps : 3 ≤ worlds.length)
    (hcells : ∀ world, .step world ∈ events ++ worlds.map .step →
      world.HasCells) :
    ∃ s s', s₀.run config events = some s ∧
      s.run config (worlds.map .step) = some s' ∧
      s'.query = s.query ∧
      (querySql (FileWatcher.readFile s.query) = [] →
        s'.executed = s.executed ∧ s'.simulator = s.simulator) ∧
      (querySql (FileWatcher.readFile s.query) ≠ [] →
        ∃ q, s'.executed.getLast? = some q ∧
          q.content = FileWatcher.readFile s.query ∧
          (∃ world, .step world ∈ events ++ worlds.map .step ∧
            world.Delivers q) ∧
          s'.simulator.display =
            if q.HasRecords s₀.simulator.db then q.report s₀.simulator.db
            else latestReport s₀.simulator.db s'.executed.dropLast) ∧
      ∀ more : List World, s'.run config (more.map .step) = some s' := by
  obtain rfl := start_eq_ok hstart
  set db := SQLiteManager.opened.initPageOffsets sqlite config.pageSize
  set s₀ := watching config db time metricsFile
  set loops := events.filterMap ProgramEvent.toLoop
  obtain ⟨s', hrun, hinv⟩ := run_watching config db time metricsFile
    (events ++ worlds.map .step)
  have hparts := hrun
  rw [run_append] at hparts
  obtain ⟨s, hbefore, hafter⟩ := Option.bind_eq_some_iff.mp hparts
  have hnever : .signal ∉ events ++ worlds.map ProgramEvent.step := by
    simpa using hsignal
  have hstarted : s₀.Alive := Or.inl rfl
  obtain ⟨halive, hrunning⟩ := hstarted.run rfl hnever hcells hrun
  obtain ⟨halive₁, -⟩ := hstarted.run rfl hsignal
    (fun world hworld => hcells world (List.mem_append_left _ hworld)) hbefore
  -- the loop around the file settles
  obtain ⟨l, hl, hfile, hlast, hlooking, hidle⟩ :=
    QueryLoop.settles htime hfresh hsteps
  have hfollows := (follows_watching config db time metricsFile).run hrun halive
  rw [List.filterMap_append, filterMap_toLoop_steps, hl] at hfollows
  have hfollows₁ :=
    (follows_watching config db time metricsFile).run hbefore halive₁
  have hquery : ((QueryLoop.startUp time).run loops).file = s.query :=
    hfollows₁.file_eq
  obtain ⟨hkept, new, hnew, -, hblank⟩ := executed_steps hafter
  refine ⟨s, s', hbefore, hafter, hkept, ?_, ?_,
    hfollows.run_of_idle halive hrunning hlooking (hidle 1)⟩
  · intro hnil
    obtain ⟨rfl, hsimulator⟩ := hblank hnil
    exact ⟨hnew.trans (List.append_nil _), hsimulator⟩
  · intro hne
    rw [hquery] at hlast
    obtain ⟨file, hsome, -⟩ :=
      ((QueryLoop.represents_startUp time).run loops).file_eq
    have hread : s.query = some file := hquery.symm.trans hsome
    obtain ⟨q, hq, hcontent⟩ :=
      hfollows.getLast?_executed ((hlast hne).trans hread)
    refine ⟨q, hq, ?_, (hinv.answered q (List.mem_of_getLast? hq)).2,
      hinv.display_getLast? hq⟩
    rw [hcontent, hread, FileWatcher.readFile]

/-- The query is written after the first look at the empty file. -/
theorem shows_latest_query_one_row :
    ∃ s s' q, start Config.source SQLITE_OK QueryLoop.oneRow 1000 none =
        .ok oneRowProgram ∧
      oneRowProgram.run Config.source [.step oneRowWorld,
        .write "SELECT * FROM students;".toList 1001] = some s ∧
      s.run Config.source ((List.replicate 3 oneRowWorld).map .step) =
        some s' ∧
      s'.executed.getLast? = some q ∧
      q.content = "SELECT * FROM students;".toList := by
  have hfresh : (QueryLoop.startUp 1000).FreshTimes
      ([.step oneRowWorld, .write "SELECT * FROM students;".toList 1001].filterMap
        ProgramEvent.toLoop) := by
    simp [ProgramEvent.toLoop, QueryLoop.FreshTimes, QueryLoop.step,
      QueryLoop.startUp, QueryLoop.stat, FileWatcher.hasChanged,
      FileWatcher.getModTime]
  have hsteps : 3 ≤ (List.replicate 3 oneRowWorld).length := by decide
  have hworlds : ∀ world, ProgramEvent.step world ∈
      [.step oneRowWorld, .write "SELECT * FROM students;".toList 1001] ++
        (List.replicate 3 oneRowWorld).map .step → world.HasCells := by
    intro world hworld
    obtain rfl : world = oneRowWorld := by simpa using hworld
    exact hasCells_oneRowWorld
  obtain ⟨s, s', hrun, hrun', -, -, hquery, -⟩ :=
    shows_latest_query start_oneRow (by decide) (by simp) hfresh hsteps hworlds
  have hwritten : s.query = some ⟨"SELECT * FROM students;".toList, 1001⟩ := by
    have hevents := hrun
    rw [run, List.foldlM_cons] at hevents
    obtain ⟨s₁, -, hwrite⟩ := Option.bind_eq_some_iff.mp hevents
    obtain rfl := Option.some.inj hwrite
    rfl
  rw [hwritten, FileWatcher.readFile] at hquery
  obtain ⟨q, hlast, hcontent, -⟩ := hquery (by decide)
  exact ⟨s, s', q, start_oneRow, hrun, hrun', hlast, hcontent⟩

/-- The loop around the file of a program that may have run before. -/
def toQueryLoop (s : Program) : QueryLoop where
  file := s.query
  watcher := s.watcher
  reading := s.phase = .reading

theorem follows_toQueryLoop (s : Program) :
    s.Follows (s.executed.map Submission.content) s.toQueryLoop where
  file_eq := rfl
  watcher_eq := rfl
  reading_iff := by simp [toQueryLoop]
  executed_eq := (List.append_nil _).symm

/-- Three steps are enough to execute any query that `hasChanged` reports. -/
theorem Invariant.shows_changed {db : SQLiteManager}
    {metricsFile : Option Text} {events : List ProgramEvent}
    (hinv : Invariant config db metricsFile events s) (halive : s.Alive)
    (hrunning : s.running = true)
    (hchanged : (s.watcher.hasChanged s.query).1 = true)
    (hne : querySql (FileWatcher.readFile s.query) ≠ [])
    {worlds : List World} (hsteps : 3 ≤ worlds.length)
    (hcells : ∀ world ∈ worlds, world.HasCells) :
    ∃ s' q, s.run config (worlds.map .step) = some s' ∧
      s'.executed.getLast? = some q ∧
      q.content = FileWatcher.readFile s.query ∧
      (∃ world ∈ worlds, world.Delivers q) ∧
      s'.simulator.display =
        if q.HasRecords db then q.report db
        else latestReport db s'.executed.dropLast := by
  have hdefined : ∀ world, ProgramEvent.step world ∈ worlds.map .step →
      world.HasCells := by
    intro world hworld
    exact hcells world (by simpa using hworld)
  obtain ⟨s', hrun, hinv'⟩ := hinv.run (worlds.map .step)
  obtain ⟨halive', -⟩ := halive.run hrunning (by simp) hdefined hrun
  have hfollows := s.follows_toQueryLoop.run hrun halive'
  obtain ⟨l, hl, -, hlast, -⟩ := QueryLoop.settles_of_changed
    (s := s.toQueryLoop) (by simp [toQueryLoop]) hchanged hsteps
  rw [filterMap_toLoop_steps, hl] at hfollows
  cases hquery : s.query with
  | none =>
      simp [hquery, FileWatcher.hasChanged, FileWatcher.getModTime] at hchanged
  | some file =>
      have hfile : l.executed.getLast? = some file := (hlast hne).trans hquery
      obtain ⟨q, hq, hcontent⟩ := hfollows.getLast?_executed hfile
      refine ⟨s', q, hrun, hq, hcontent, ?_, hinv'.display_getLast? hq⟩
      -- the query is one that was executed in these steps
      obtain ⟨-, new, hnew, hworlds, -⟩ := executed_steps hrun
      have hcontents := hfollows.executed_eq
      rw [hnew, List.map_append] at hcontents
      have hadded : new ≠ [] := by
        rintro rfl
        have hnil : l.executed = [] := by simpa using hcontents
        simp [hnil] at hfile
      rw [hnew, List.getLast?_append_of_ne_nil _ hadded] at hq
      exact hworlds q (List.mem_of_getLast? hq)

end Program
end BufferSim
