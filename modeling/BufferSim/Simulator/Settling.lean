import BufferSim.Polling.Settling
import BufferSim.Simulator.Interleaving

/-!
# What the main loop makes of the writes

The times of the writes are strictly increasing here, and positive.  However the
writes fall between the steps of the main loop, the queries are executed in
their order and each at most twice.  Three steps after the last write the loop
is idle, and it has executed that write last unless it is blank.  A query that
stays in place for two steps of an idle loop is executed exactly once.
-/

namespace BufferSim

open Cxx Polling

namespace QueryLoop

variable {s : QueryLoop} {c : Reader Text Int} {time : Int}
  {events : List LoopEvent}

theorem run_append (s : QueryLoop) (xs ys : List LoopEvent) :
    s.run (xs ++ ys) = (s.run xs).run ys :=
  List.foldl_append

/-- The loop only reads the file. -/
@[simp] theorem step_loop_file (s : QueryLoop) :
    (s.step .loop).file = s.file := by
  rw [step]
  split
  · exact s.readAndExecute_file
  · rfl

/-- A loop that represents a settled reader is idle. -/
theorem Represents.step_loop (h : s.Represents c) (hsettled : c.Settled) :
    s.step .loop = s := by
  have hlooking : s.reading = false := h.reading_eq.trans hsettled.1
  have hsame : ¬ (FileWatcher.getModTime s.file ≠ s.watcher.lastModified ∧
      FileWatcher.getModTime s.file ≠ 0) := by
    rw [h.getModTime_eq, h.remembered_eq]
    exact fun hchanged => hchanged.1 hsettled.2
  obtain ⟨file, watcher, reading, executed⟩ := s
  obtain rfl : reading = false := hlooking
  simp only [QueryLoop.step, QueryLoop.stat, FileWatcher.hasChanged,
    if_neg hsame, Bool.false_eq_true, if_false]

theorem Represents.run_loops (h : s.Represents c) (hsettled : c.Settled)
    (n : ℕ) : s.run (List.replicate n .loop) = s := by
  induction n with
  | zero => rfl
  | succ n ih =>
      rw [List.replicate_succ', run_append, ih]
      exact h.step_loop hsettled

theorem Represents.getLast?_executed (h : s.Represents c)
    (hlast : c.reads.getLast? = some c.cell)
    (hquery : querySql (FileWatcher.readFile s.file) ≠ []) :
    s.executed.getLast? = s.file := by
  have hholds : holdsQuery c.cell = true := by
    rw [holdsQuery, nonblank_iff, ← h.readFile_eq]
    exact hquery
  have hexecuted := h.executed_eq
  rw [← List.dropLast_append_getLast? c.cell hlast, List.filter_append,
    List.filter_singleton, hholds] at hexecuted
  have hlast' := congrArg List.getLast? hexecuted
  rw [cond_true, List.getLast?_concat, List.getLast?_map] at hlast'
  obtain ⟨last, hsome, heq⟩ := Option.map_eq_some_iff.mp hlast'
  obtain ⟨file, hfile, hcell⟩ := h.file_eq
  rw [hsome, hfile, File.cell_injective (heq.trans hcell.symm)]

/-- Once the reader has read the cell last, the loop has executed the file last,
unless it is blank, and is idle. -/
theorem Represents.run_settles (h : s.Represents c)
    (hpresent : c.cell.stamp ≠ 0)
    (hlast : (c.run 0 [.reader, .reader, .reader]).reads.getLast? =
      some c.cell) {n : ℕ} (hn : 3 ≤ n) :
    ∃ s', s.run (List.replicate n .loop) = s' ∧ s'.file = s.file ∧
      (querySql (FileWatcher.readFile s.file) ≠ [] →
        s'.executed.getLast? = s.file) ∧
      s'.reading = false ∧ ∀ m, s'.run (List.replicate m .loop) = s' := by
  obtain ⟨k, rfl⟩ := Nat.exists_eq_add_of_le hn
  have h' : (s.run [.loop, .loop, .loop]).Represents
      (c.run 0 [.reader, .reader, .reader]) := h.run [.loop, .loop, .loop]
  have hsettled := Reader.settled_run_three hpresent
  have hidle := h'.run_loops hsettled
  have hcell : (c.run 0 [.reader, .reader, .reader]).cell = c.cell := by
    simp [Reader.run]
  have hfile : (s.run [.loop, .loop, .loop]).file = s.file := by
    simp [QueryLoop.run]
  refine ⟨s.run [.loop, .loop, .loop], ?_, hfile, ?_, ?_, hidle⟩
  · rw [← List.replicate_append_replicate, run_append]
    exact hidle k
  · intro hquery
    rw [← hfile] at hquery ⊢
    exact h'.getLast?_executed (hcell ▸ hlast) hquery
  · exact h'.reading_eq.trans hsettled.1

/-- Whatever the loop has executed before, three steps are enough for a file
that `hasChanged` reports. -/
theorem settles_of_changed
    (hexecuted : ∀ file ∈ s.executed, querySql file.content ≠ [])
    (hchanged : (s.watcher.hasChanged s.file).1 = true) {n : ℕ} (hn : 3 ≤ n) :
    ∃ s', s.run (List.replicate n .loop) = s' ∧ s'.file = s.file ∧
      (querySql (FileWatcher.readFile s.file) ≠ [] →
        s'.executed.getLast? = s.file) ∧
      s'.reading = false ∧ ∀ m, s'.run (List.replicate m .loop) = s' := by
  cases hfile : s.file with
  | none => simp [hfile, FileWatcher.hasChanged, FileWatcher.getModTime] at hchanged
  | some file =>
      let c : Reader Text Int :=
        { cell := file.cell
          remembered := s.watcher.lastModified
          reading := s.reading
          reads := s.executed.map File.cell }
      have hreads : s.executed.map File.cell = c.reads.filter holdsQuery := by
        refine (List.filter_eq_self.mpr fun cell hcell => ?_).symm
        obtain ⟨f, hf, rfl⟩ := List.mem_map.mp hcell
        exact nonblank_iff.mpr (hexecuted f hf)
      have hrep : s.Represents c := ⟨⟨file, hfile, rfl⟩, rfl, rfl, hreads⟩
      have hnew : c.Changed 0 := hrep.hasChanged_iff.mp hchanged
      rw [← hfile]
      exact hrep.run_settles hnew.2 (Reader.getLast?_reads_of_changed hnew) hn

theorem startReader_stamp_pos (htime : 0 < time)
    (hfresh : (startUp time).FreshTimes events) :
    0 < ((startReader time).run 0 (events.map LoopEvent.toTurn)).cell.stamp :=
  lt_of_lt_of_le htime (increasing_of_freshTimes hfresh).stamp_le

/-- The executed queries are in the order of their times, each of them was
written and is not blank, and none is executed more than twice. -/
theorem executed_in_order (htime : 0 < time)
    (hfresh : (startUp time).FreshTimes events) :
    ((startUp time).run events).executed.Pairwise
        (fun f g => f.mtime ≤ g.mtime) ∧
      (∀ file ∈ ((startUp time).run events).executed,
        querySql file.content ≠ [] ∧
          .write file.content file.mtime ∈ events) ∧
      ∀ file, ((startUp time).run events).executed.count file ≤ 2 := by
  have hrep := (represents_startUp time).run events
  -- at the start the reader has read nothing and finds a new stamp
  have hstart : (startReader time).InOrder :=
    Reader.inOrder_of_fresh rfl rfl htime
  have horder := hstart.run (increasing_of_freshTimes hfresh)
  have hsorted := horder.sorted.filter holdsQuery
  rw [← hrep.executed_eq, List.pairwise_map] at hsorted
  refine ⟨hsorted, fun file hfile => ?_, fun file => ?_⟩
  · have hmem := List.mem_map_of_mem (f := File.cell) hfile
    rw [hrep.executed_eq] at hmem
    obtain ⟨hread, hholds⟩ := List.mem_filter.mp hmem
    have hquery : querySql file.content ≠ [] := nonblank_iff.mp hholds
    have hreads : ∀ c ∈ (startReader time).reads, c = (startReader time).cell :=
      fun c hc => absurd hc (by simp [startReader])
    refine ⟨hquery, ?_⟩
    rcases Reader.mem_reads_run hreads _ _ (Or.inl hread) with hstart | hwritten
    · -- the file is empty at the start
      have hnil : file.content = [] := congrArg Cell.content hstart
      exact absurd (hnil ▸ querySql_nil) hquery
    · obtain ⟨e, he, heq⟩ := List.mem_map.mp hwritten
      obtain rfl : e = .write file.content file.mtime :=
        LoopEvent.toTurn_injective heq
      exact he
  · have hcount := horder.count_le file.cell.stamp
    have hsub : ((((startUp time).run events).executed.map File.cell).map
        Cell.stamp).Sublist
        (((startReader time).run 0 (events.map LoopEvent.toTurn)).reads.map
          Cell.stamp) := by
      rw [hrep.executed_eq]
      exact List.filter_sublist.map Cell.stamp
    have hfilter := hsub.count_le file.cell.stamp
    have hle := List.count_le_count_map
      (l := ((startUp time).run events).executed.map File.cell)
      (f := Cell.stamp) (x := file.cell)
    rw [List.count_map_of_injective _ _ File.cell_injective] at hle
    exact hle.trans (hfilter.trans hcount)

theorem executed_in_order_overtaken :
    ((startUp 1000).run overtakenEvents).executed.Pairwise
        (fun f g => f.mtime ≤ g.mtime) ∧
      ∀ file, ((startUp 1000).run overtakenEvents).executed.count file ≤ 2 := by
  have hfresh : (startUp 1000).FreshTimes overtakenEvents := by
    simp [overtakenEvents, FreshTimes, step, startUp, stat,
      FileWatcher.hasChanged, FileWatcher.getModTime]
  obtain ⟨hsorted, -, hcount⟩ := executed_in_order (by decide) hfresh
  exact ⟨hsorted, hcount⟩

/-- Three or more steps after the last write the loop has executed the file
last, unless it is blank, and it stays idle. -/
theorem settles (htime : 0 < time) (hfresh : (startUp time).FreshTimes events)
    {n : ℕ} (hn : 3 ≤ n) :
    ∃ s, (startUp time).run (events ++ List.replicate n .loop) = s ∧
      s.file = ((startUp time).run events).file ∧
      (querySql (FileWatcher.readFile ((startUp time).run events).file) ≠ [] →
        s.executed.getLast? = ((startUp time).run events).file) ∧
      s.reading = false ∧
      ∀ m, s.run (List.replicate m .loop) = s := by
  set c := (startReader time).run 0 (events.map LoopEvent.toTurn)
  have hrep : ((startUp time).run events).Represents c :=
    (represents_startUp time).run events
  have hstart : (startReader time).InOrder :=
    Reader.inOrder_of_fresh rfl rfl htime
  have horder : c.InOrder := hstart.run (increasing_of_freshTimes hfresh)
  have hpresent : c.cell.stamp ≠ 0 := (startReader_stamp_pos htime hfresh).ne'
  have horder' : (c.run 0 [.reader, .reader, .reader]).InOrder :=
    horder.step_reader.step_reader.step_reader
  have hlast := horder'.last_read (Reader.settled_run_three hpresent)
  have hcell : (c.run 0 [.reader, .reader, .reader]).cell = c.cell := by
    simp [Reader.run]
  rw [run_append]
  exact hrep.run_settles hpresent (hcell ▸ hlast) hn

/-! ## Writes that wait for the loop -/

/-- Writes, each with a number of steps of the loop after it. -/
def rounds (writes : List (File × ℕ)) : List LoopEvent :=
  writes.flatMap (fun w =>
    .write w.1.content w.1.mtime :: List.replicate w.2 .loop)

theorem map_toTurn_rounds (writes : List (File × ℕ)) :
    (rounds writes).map LoopEvent.toTurn =
      Reader.rounds (writes.map (fun w => (w.1.cell, w.2))) := by
  induction writes with
  | nil => rfl
  | cons w writes ih =>
      rw [rounds, List.flatMap_cons, List.map_append, ← rounds, ih]
      simp [Reader.rounds, LoopEvent.toTurn, File.cell]

/-- The content at the start-up is the first that is read. -/
theorem run_startReader (htime : 0 < time) {n : ℕ} (hn : 2 ≤ n) :
    (startReader time).run 0 (List.replicate n .reader) =
      { cell := { content := [], stamp := time }
        remembered := time
        reading := false
        reads := [{ content := [], stamp := time }] } := by
  have hpresent : (startReader time).cell.stamp ≠ 0 := htime.ne'
  have hnew : (startReader time).cell.stamp ≠ (startReader time).remembered :=
    htime.ne'
  rw [Reader.run_readers_of_looking rfl hpresent hn,
    Reader.run_two_of_looking rfl hpresent, if_neg hnew]
  rfl

/-- If the loop takes at least two steps after the start-up and after each
write, every write that is not blank is executed exactly once, in the order of
the writes, and nothing else is executed. -/
theorem executed_exactly_once (htime : 0 < time) {n : ℕ} (hn : 2 ≤ n)
    {writes : List (File × ℕ)} (hsteps : ∀ w ∈ writes, 2 ≤ w.2)
    (hincreasing : ({ content := [], mtime := time } :: writes.map Prod.fst :
      List File).IsChain (fun f g => f.mtime < g.mtime)) :
    ((startUp time).run (List.replicate n .loop ++ rounds writes)).executed =
      (writes.map Prod.fst).filter (fun file => nonblank file.content) := by
  set cells := writes.map (fun w => (w.1.cell, w.2))
  have hfirst : cells.map Prod.fst = (writes.map Prod.fst).map File.cell := by
    simp [cells]
  have hstart := run_startReader htime hn
  have hsettled :
      ((startReader time).run 0 (List.replicate n .reader)).Settled := by
    rw [hstart]
    exact ⟨rfl, rfl⟩
  have hafter := hincreasing.pairwise
  have hpresent : ∀ w ∈ cells, w.1.stamp ≠ 0 := by
    intro w hw
    obtain ⟨v, hv, rfl⟩ := List.mem_map.mp hw
    have hlt := (List.pairwise_cons.mp hafter).1 v.1 (List.mem_map_of_mem hv)
    exact (htime.trans hlt).ne'
  have hchain : (((startReader time).run 0
      (List.replicate n .reader)).cell :: cells.map Prod.fst).IsChain
        (fun c d => c.stamp < d.stamp) := by
    have hcells : (({ content := [], mtime := time } :: writes.map Prod.fst :
        List File).map File.cell).IsChain (fun c d => c.stamp < d.stamp) :=
      (List.isChain_map File.cell).mpr hincreasing
    rw [hstart, hfirst]
    exact hcells
  have hsteps' : ∀ w ∈ cells, 2 ≤ w.2 := by
    intro w hw
    obtain ⟨v, hv, rfl⟩ := List.mem_map.mp hw
    exact hsteps v hv
  have hreads := (hsettled.reads_rounds hsteps' hpresent hchain).2
  have hrep := (represents_startUp time).run
    (List.replicate n .loop ++ rounds writes)
  have hexecuted := hrep.executed_eq
  rw [List.map_append, List.map_replicate, map_toTurn_rounds,
    Reader.run_append] at hexecuted
  have hfiltered := hexecuted.trans (congrArg (List.filter holdsQuery) hreads)
  rw [hstart, hfirst] at hfiltered
  refine List.map_injective_iff.mpr File.cell_injective ?_
  rw [hfiltered, List.singleton_append, List.filter_cons_of_neg (by simp [
    holdsQuery, nonblank, querySql_nil]), List.filter_map]
  rfl

theorem executed_exactly_once_three_writes :
    ((startUp 1000).run (List.replicate 2 .loop ++
        rounds [(⟨"SELECT 1;".toList, 1001⟩, 3), (⟨" \n".toList, 1002⟩, 2),
          (⟨"SELECT 2;".toList, 1003⟩, 2)])).executed =
      [⟨"SELECT 1;".toList, 1001⟩, ⟨"SELECT 2;".toList, 1003⟩] := by
  have hsteps : ∀ w ∈ [((⟨"SELECT 1;".toList, 1001⟩ : File), 3),
      (⟨" \n".toList, 1002⟩, 2), (⟨"SELECT 2;".toList, 1003⟩, 2)], 2 ≤ w.2 := by
    simp
  exact (executed_exactly_once (by decide) le_rfl hsteps (by simp)).trans
    (by decide)

end QueryLoop
end BufferSim
