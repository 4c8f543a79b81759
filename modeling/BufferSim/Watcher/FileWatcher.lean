import BufferSim.Cxx.Text
import BufferSim.Polling.StampedCell

/-!
# The watcher of `query.sql`

`FileWatcher.cpp` remembers the modification time of the file, in whole
seconds.  The main loop polls it and reads the file when the time has changed.

A file whose time is never zero behaves like a stamped cell, so the general
criterion of `Polling` decides which queries the watcher can lose.
-/

namespace BufferSim

open Cxx Polling

/-- A file as `stat` and `std::ifstream` see it. -/
structure File where
  content : Text
  mtime : Int
  deriving DecidableEq, Repr

structure FileWatcher where
  lastModified : Int := 0
  deriving DecidableEq, Repr

namespace FileWatcher

/-- `FileWatcher::getModTime`; `stat` fails when there is no file. -/
def getModTime : Option File → Int
  | none => 0
  | some file => file.mtime

/-- `FileWatcher::hasChanged`. -/
def hasChanged (w : FileWatcher) (file : Option File) : Bool × FileWatcher :=
  let currentMod := getModTime file
  if currentMod ≠ w.lastModified ∧ currentMod ≠ 0 then
    (true, { w with lastModified := currentMod })
  else (false, w)

/-- `FileWatcher::readFile`. -/
def readFile : Option File → Text
  | none => []
  | some file => file.content

end FileWatcher

/-- `query.sql`, its watcher, and the content that the main loop read last. -/
structure Watch where
  file : Option File
  watcher : FileWatcher := {}
  lastRead : Option Text := none
  deriving DecidableEq, Repr

/-- What happens to `query.sql`. -/
inductive FileEvent where
  | write (content : Text) (time : Int)
  | poll
  deriving DecidableEq, Repr

namespace Watch

/-- The main loop truncates the file before its first poll. -/
def startUp (time : Int) : Watch where
  file := some { content := [], mtime := time }

/-- `if (watcher.hasChanged()) sql = watcher.readFile();` -/
def poll (s : Watch) : Watch :=
  let (changed, watcher) := s.watcher.hasChanged s.file
  if changed then
    { s with watcher := watcher
             lastRead := some (FileWatcher.readFile s.file) }
  else { s with watcher := watcher }

def step (s : Watch) : FileEvent → Watch
  | .write content time => { s with file := some { content, mtime := time } }
  | .poll => s.poll

def run (s : Watch) (events : List FileEvent) : Watch :=
  events.foldl step s

/-- After every poll the content read last is the content of the file. -/
def UpToDate (s : Watch) (events : List FileEvent) : Prop :=
  ∀ before after, events = before ++ .poll :: after →
    (s.run (before ++ [.poll])).lastRead =
      some (FileWatcher.readFile (s.run (before ++ [.poll])).file)

end Watch

/-- The times of the writes never decrease and are never zero. -/
def ClockFrom : Int → List FileEvent → Prop
  | time, [] => time ≠ 0
  | time, .write _ time' :: events =>
      time ≠ 0 ∧ time ≤ time' ∧ ClockFrom time' events
  | time, .poll :: events => ClockFrom time events

/-! ## The file as a stamped cell -/

namespace File

def cell (file : File) : Cell Text Int where
  content := file.content
  stamp := file.mtime

end File

namespace FileEvent

def toPolling : FileEvent → Event Text Int
  | .write content time => .write { content, stamp := time }
  | .poll => .poll

end FileEvent

/-- The file exists and has a time other than zero, and the watch holds what
the reader of a stamped cell holds. -/
structure Watch.Represents (s : Watch) (c : State Text Int) : Prop where
  file_eq : ∃ file, s.file = some file ∧ file.cell = c.cell
  stamp_ne_zero : c.cell.stamp ≠ 0
  remembered_eq : s.watcher.lastModified = c.remembered
  lastRead_eq : s.lastRead = c.lastRead

namespace Watch.Represents

variable {s : Watch} {c : State Text Int}

theorem write (h : s.Represents c) (content : Text) {time : Int}
    (htime : time ≠ 0) :
    (s.step (.write content time)).Represents
      (c.step (FileEvent.write content time).toPolling) where
  file_eq := ⟨_, rfl, rfl⟩
  stamp_ne_zero := htime
  remembered_eq := h.remembered_eq
  lastRead_eq := h.lastRead_eq

theorem poll (h : s.Represents c) :
    (s.step .poll).Represents (c.step FileEvent.poll.toPolling) := by
  obtain ⟨file, hfile, hcell⟩ := h.file_eq
  have hmod : FileWatcher.getModTime s.file = c.cell.stamp := by
    rw [hfile, ← hcell]
    rfl
  have hread : FileWatcher.readFile s.file = c.cell.content := by
    rw [hfile, ← hcell]
    rfl
  by_cases hsame : c.cell.stamp = c.remembered
  · have hstep : s.step .poll = s := by
      simp [step, Watch.poll, FileWatcher.hasChanged, hmod, h.remembered_eq,
        hsame]
    have hcstep : c.step FileEvent.poll.toPolling = c := by
      simp [State.step, State.poll, FileEvent.toPolling, hsame]
    rw [hstep, hcstep]
    exact h
  · have hstep : s.step .poll =
        { s with watcher := { lastModified := c.cell.stamp }
                 lastRead := some c.cell.content } := by
      simp [step, Watch.poll, FileWatcher.hasChanged, hmod, hread,
        h.remembered_eq, hsame, h.stamp_ne_zero]
    have hcstep : c.step FileEvent.poll.toPolling =
        { c with remembered := c.cell.stamp
                 lastRead := some c.cell.content } := by
      simp [State.step, State.poll, FileEvent.toPolling, hsame]
    rw [hstep, hcstep]
    exact ⟨⟨file, hfile, hcell⟩, h.stamp_ne_zero, rfl, rfl⟩

/-- Along any run whose writes have non-zero times the watch simulates the
reader of a stamped cell. -/
theorem run (h : s.Represents c) {events : List FileEvent}
    (htimes : ∀ content time, .write content time ∈ events → time ≠ 0) :
    (s.run events).Represents (c.run (events.map FileEvent.toPolling)) := by
  induction events generalizing s c with
  | nil => exact h
  | cons e events ih =>
      have hrest : ∀ content time, .write content time ∈ events → time ≠ 0 :=
        fun content time hmem => htimes content time (List.mem_cons_of_mem e hmem)
      cases e with
      | write content time =>
          exact ih (h.write content (htimes content time List.mem_cons_self)) hrest
      | poll => exact ih h.poll hrest

end Watch.Represents

/-! ## Which queries are lost -/

theorem ClockFrom.start_ne_zero {time : Int} {events : List FileEvent}
    (h : ClockFrom time events) : time ≠ 0 := by
  induction events with
  | nil => exact h
  | cons e events ih =>
      cases e with
      | write content time' => exact h.1
      | poll => exact ih h

theorem ClockFrom.time_ne_zero {start : Int} {events : List FileEvent}
    (h : ClockFrom start events) {content : Text} {time : Int}
    (hmem : .write content time ∈ events) : time ≠ 0 := by
  induction events generalizing start with
  | nil => simp at hmem
  | cons e events ih =>
      cases e with
      | write content' time' =>
          rcases List.mem_cons.mp hmem with heq | hrest
          · obtain ⟨rfl, rfl⟩ : content = content' ∧ time = time' := by
              simpa using heq
            exact h.2.2.start_ne_zero
          · exact ih h.2.2 hrest
      | poll =>
          rcases List.mem_cons.mp hmem with heq | hrest
          · simp at heq
          · exact ih h hrest

/-- Whenever two consecutive polls see the same second, they see the same
content. -/
def SecondsDistinguish (time : Int) (events : List FileEvent) : Prop :=
  Distinguishes { content := [], stamp := time }
    (events.map FileEvent.toPolling)

/-- The reader of a stamped cell right after the start-up of the main loop. -/
def startCell (time : Int) : State Text Int where
  cell := { content := [], stamp := time }
  remembered := 0
  lastRead := none

theorem Watch.represents_startUp {time : Int} (htime : time ≠ 0) :
    (Watch.startUp time).Represents (startCell time) where
  file_eq := ⟨_, rfl, rfl⟩
  stamp_ne_zero := htime
  remembered_eq := rfl
  lastRead_eq := rfl

/-- After each poll the watch is up to date exactly when the reader of the cell
is. -/
theorem Watch.upToDate_iff_cell {time : Int} {events : List FileEvent}
    (hclock : ClockFrom time events) :
    (Watch.startUp time).UpToDate events ↔
      (startCell time).UpToDate (events.map FileEvent.toPolling) := by
  have hpoll : ∀ before after, events = before ++ .poll :: after →
      (((Watch.startUp time).run (before ++ [.poll])).lastRead =
          some (FileWatcher.readFile
            ((Watch.startUp time).run (before ++ [.poll])).file) ↔
        ((startCell time).run
            (before.map FileEvent.toPolling ++ [.poll])).lastRead =
          some (cellAfter (startCell time).cell
            (before.map FileEvent.toPolling)).content) := by
    intro before after hsplit
    have htimes : ∀ content t,
        .write content t ∈ before ++ [FileEvent.poll] → t ≠ 0 := by
      intro content t hmem
      have hevents : .write content t ∈ events := by
        rw [hsplit]
        exact List.mem_append_left _ (by simpa using hmem)
      exact hclock.time_ne_zero hevents
    have hrep :=
      (Watch.represents_startUp hclock.start_ne_zero).run htimes
    obtain ⟨file, hfile, hcell⟩ := hrep.file_eq
    have hcontent : file.content = (cellAfter (startCell time).cell
        (before.map FileEvent.toPolling)).content := by
      have hafter : file.content = _ := congrArg Cell.content hcell
      rw [hafter, State.run_cell]
      simp [FileEvent.toPolling]
    rw [hrep.lastRead_eq, hfile, FileWatcher.readFile, hcontent]
    simp [FileEvent.toPolling]
  constructor
  · intro h before after hsplit
    obtain ⟨xs, zs, rfl, rfl, hzs⟩ := List.map_eq_append_iff.mp hsplit
    obtain ⟨e, ys, rfl, he, rfl⟩ := List.map_eq_cons_iff.mp hzs
    obtain rfl : e = .poll := by
      cases e with
      | write content t => simp [FileEvent.toPolling] at he
      | poll => rfl
    exact (hpoll xs ys rfl).mp (h xs ys rfl)
  · intro h before after hsplit
    exact (hpoll before after hsplit).mpr
      (h _ (after.map FileEvent.toPolling) (by simp [hsplit, FileEvent.toPolling]))

theorem cellAfter_stamp_ne_zero {start : Int} {events : List FileEvent}
    (hclock : ClockFrom start events) {before after : List (Event Text Int)}
    (hsplit : events.map FileEvent.toPolling = before ++ after) :
    (cellAfter { content := [], stamp := start } before).stamp ≠ 0 := by
  induction before using List.reverseRecOn generalizing after with
  | nil => exact hclock.start_ne_zero
  | append_singleton before e ih =>
      cases e with
      | poll =>
          have hshift : events.map FileEvent.toPolling =
              before ++ .poll :: after := by simpa using hsplit
          rw [cellAfter_snoc_poll]
          exact ih hshift
      | write new =>
          rw [cellAfter_snoc_write]
          have hmem : Event.write new ∈ events.map FileEvent.toPolling := by
            rw [hsplit]
            simp
          obtain ⟨e, he, heq⟩ := List.mem_map.mp hmem
          cases e with
          | write content time =>
              obtain rfl : { content := content, stamp := time } = new := by
                simpa [FileEvent.toPolling] using heq
              exact hclock.time_ne_zero he
          | poll => simp [FileEvent.toPolling] at heq

/-- The watcher loses no query exactly when no poll falls between two different
contents written in the same second. -/
theorem Watch.no_query_lost_iff {time : Int} {events : List FileEvent}
    (hclock : ClockFrom time events) :
    (Watch.startUp time).UpToDate events ↔ SecondsDistinguish time events := by
  rw [Watch.upToDate_iff_cell hclock]
  exact State.upToDate_iff (startCell time) _
    (fun before after hsplit => cellAfter_stamp_ne_zero hclock hsplit)

theorem Watch.no_query_lost_iff_two_seconds :
    (Watch.startUp 1).UpToDate
        [.poll, .write "SELECT 1;".toList 1, .write "SELECT 2;".toList 2,
          .poll] ↔
      SecondsDistinguish 1
        [.poll, .write "SELECT 1;".toList 1, .write "SELECT 2;".toList 2,
          .poll] :=
  Watch.no_query_lost_iff (by simp [ClockFrom])

/-- A query that replaces another one within the second of a poll is never
read. -/
theorem Watch.query_lost_within_second :
    ClockFrom 1000
        [.write "SELECT * FROM students;".toList 1001, .poll,
          .write "SELECT * FROM courses;".toList 1001, .poll] ∧
      ¬ (Watch.startUp 1000).UpToDate
        [.write "SELECT * FROM students;".toList 1001, .poll,
          .write "SELECT * FROM courses;".toList 1001, .poll] := by
  refine ⟨by simp [ClockFrom], ?_⟩
  intro h
  have hlast := h [.write "SELECT * FROM students;".toList 1001, .poll,
    .write "SELECT * FROM courses;".toList 1001] [] rfl
  exact absurd hlast (by decide)

end BufferSim
