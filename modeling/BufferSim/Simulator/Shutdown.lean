import BufferSim.Simulator.Program

/-!
# The end of the program

A signal clears `g_running`, which the loop tests before each look at
`query.sql`.  A query that has been detected is still executed; then the metrics
are written and the program returns.
-/

namespace BufferSim

open Cxx

namespace Program

variable {config : Config} {s s' : Program}

/-- The steps that a stopped program still takes. -/
def stepsLeft : Phase → ℕ
  | .watching => 1
  | .reading => 2
  | .exited _ => 0
  | .killed => 0

/-- The number of steps of `main`. -/
def mainSteps : List ProgramEvent → ℕ
  | [] => 0
  | .step _ :: events => mainSteps events + 1
  | _ :: events => mainSteps events

/-- What a stopped program does: it takes the steps that are left or is killed
before, and executes a query at most if it was about to read it. -/
structure Stops (steps : ℕ) (s s' : Program) : Prop where
  stopped : s'.running = false
  stepsLeft_le : stepsLeft s'.phase ≤ stepsLeft s.phase - steps
  executed_kept : s.executed <+: s'.executed
  executed_le : s'.executed.length + (stepsLeft s'.phase - 1) ≤
    s.executed.length + (stepsLeft s.phase - 1)

theorem Stops.trans {m n : ℕ} {s'' : Program} (h : Stops m s s')
    (h' : Stops n s' s'') : Stops (m + n) s s'' where
  stopped := h'.stopped
  stepsLeft_le := by
    have hle := h.stepsLeft_le
    have hle' := h'.stepsLeft_le
    omega
  executed_kept := h.executed_kept.trans h'.executed_kept
  executed_le := h'.executed_le.trans h.executed_le

theorem stops_next (hstopped : s.running = false) {world : World}
    (hnext : s.next config world = some s') : Stops 1 s s' := by
  cases hphase : s.phase with
  | watching =>
      rw [next_of_stopped hphase hstopped] at hnext
      obtain rfl := Option.some.inj hnext
      exact ⟨hstopped, by simp [hphase, stepsLeft], List.prefix_rfl,
        by simp [hphase, stepsLeft]⟩
  | reading =>
      rcases reading_cases hphase hnext with ⟨-, rfl⟩ | ⟨-, -, rfl⟩ |
        ⟨-, q, simulator, -, -, -, rfl⟩
      · exact ⟨hstopped, by simp [hphase, stepsLeft], List.prefix_rfl,
          by simp [hphase, stepsLeft]⟩
      · exact ⟨hstopped, by simp [stepsLeft], List.prefix_rfl,
          by simp [stepsLeft]⟩
      · exact ⟨hstopped, by simp [hphase, stepsLeft], List.prefix_append _ _,
          by simp [hphase, stepsLeft]⟩
  | exited code =>
      rw [next_of_exited hphase] at hnext
      obtain rfl := Option.some.inj hnext
      exact ⟨hstopped, by simp [hphase, stepsLeft], List.prefix_rfl, le_rfl⟩
  | killed =>
      rw [next_of_killed hphase] at hnext
      obtain rfl := Option.some.inj hnext
      exact ⟨hstopped, by simp [hphase, stepsLeft], List.prefix_rfl, le_rfl⟩

theorem stops_run (hstopped : s.running = false) {events : List ProgramEvent}
    (hrun : s.run config events = some s') : Stops (mainSteps events) s s' := by
  induction events generalizing s with
  | nil =>
      obtain rfl := Option.some.inj hrun
      exact ⟨hstopped, le_rfl, List.prefix_rfl, le_rfl⟩
  | cons e events ih =>
      rw [run, List.foldlM_cons] at hrun
      obtain ⟨s₁, hstep, hrest⟩ := Option.bind_eq_some_iff.mp hrun
      cases e with
      | write content time =>
          obtain rfl := Option.some.inj hstep
          have h := ih (s := { s with query := some ⟨content, time⟩ })
            hstopped hrest
          exact ⟨h.stopped, h.stepsLeft_le, h.executed_kept, h.executed_le⟩
      | signal =>
          obtain rfl := Option.some.inj hstep
          have h := ih (s := s.sigintHandler) rfl hrest
          exact ⟨h.stopped, h.stepsLeft_le, h.executed_kept, h.executed_le⟩
      | step world =>
          have hnext := stops_next hstopped hstep
          rw [mainSteps, Nat.add_comm]
          exact hnext.trans (ih hnext.stopped hrest)

/-- The last step of `main` in a run from `s₀`: the system is `world` in it, and
`s` is the state that it finds. -/
def LastStep (config : Config) (s₀ : Program) (events : List ProgramEvent)
    (world : World) (s : Program) : Prop :=
  ∃ earlier later, events = earlier ++ .step world :: later ∧
    s₀.run config earlier = some s ∧ s.phase = .watching ∧ s.running = false

theorem LastStep.append {s₀ : Program} {events : List ProgramEvent}
    {world : World} (h : LastStep config s₀ events world s)
    (more : List ProgramEvent) :
    LastStep config s₀ (events ++ more) world s := by
  obtain ⟨earlier, later, rfl, hrun, hphase, hstopped⟩ := h
  exact ⟨earlier, later ++ more, by simp, hrun, hphase, hstopped⟩

/-- After the end nothing changes but `query.sql`. -/
theorem step_of_exited {code : Int} (hphase : s.phase = .exited code)
    {e : ProgramEvent} (hstep : s.step config e = some s') :
    s'.phase = .exited code ∧ s'.metricsFile = s.metricsFile ∧
      s'.simulator = s.simulator := by
  cases e with
  | write content time =>
      obtain rfl := Option.some.inj hstep
      exact ⟨hphase, rfl, rfl⟩
  | signal =>
      obtain rfl := Option.some.inj hstep
      exact ⟨hphase, rfl, rfl⟩
  | step world =>
      have hsame : s.next config world = some s := next_of_exited hphase world
      obtain rfl := Option.some.inj (hsame.symm.trans hstep)
      exact ⟨hphase, rfl, rfl⟩

/-- A step that ends the program finds `g_running` cleared and writes the
metrics. -/
theorem step_to_exited (hbefore : ∀ code, s.phase ≠ .exited code)
    {e : ProgramEvent} (hstep : s.step config e = some s') {code : Int}
    (hexit : s'.phase = .exited code) :
    ∃ world, e = .step world ∧ s.phase = .watching ∧ s.running = false ∧
      s'.metricsFile = dumpMetricsToFile world.metricsOpen world.timeBuf
        s.simulator.metrics s.metricsFile ∧
      s'.simulator = s.simulator := by
  cases e with
  | write content time =>
      obtain rfl := Option.some.inj hstep
      exact absurd hexit (hbefore code)
  | signal =>
      obtain rfl := Option.some.inj hstep
      exact absurd hexit (hbefore code)
  | step world =>
      have hnext : s.next config world = some s' := hstep
      refine ⟨world, rfl, ?_⟩
      cases hphase : s.phase with
      | watching =>
          cases hrunning : s.running with
          | true =>
              rw [next_of_running hphase hrunning] at hnext
              obtain rfl := Option.some.inj hnext
              cases hchanged : (s.watcher.hasChanged s.query).1 <;>
                simp [hchanged] at hexit
          | false =>
              rw [next_of_stopped hphase hrunning] at hnext
              obtain rfl := Option.some.inj hnext
              exact ⟨rfl, rfl, rfl, rfl⟩
      | reading =>
          rcases reading_cases hphase hnext with ⟨-, rfl⟩ | ⟨-, -, rfl⟩ |
            ⟨-, q, simulator, -, -, -, rfl⟩
          · simp at hexit
          · simp at hexit
          · simp at hexit
      | exited code' => exact absurd hphase (hbefore code')
      | killed =>
          rw [next_of_killed hphase] at hnext
          obtain rfl := Option.some.inj hnext
          simp [hphase] at hexit

/-- A run that has ended has a last step, which writes the metrics. -/
theorem exists_lastStep {s₀ : Program}
    (hstarted : ∀ code, s₀.phase ≠ .exited code)
    {events : List ProgramEvent} (hrun : s₀.run config events = some s')
    {code : Int} (hexit : s'.phase = .exited code) :
    ∃ world s, LastStep config s₀ events world s ∧
      s'.metricsFile = dumpMetricsToFile world.metricsOpen world.timeBuf
        s.simulator.metrics s.metricsFile ∧
      s'.simulator = s.simulator := by
  induction events using List.reverseRecOn generalizing s' with
  | nil =>
      obtain rfl := Option.some.inj hrun
      exact absurd hexit (hstarted code)
  | append_singleton events e ih =>
      rw [run_snoc] at hrun
      obtain ⟨s₁, hbefore, hstep⟩ := Option.bind_eq_some_iff.mp hrun
      by_cases hended : ∃ code', s₁.phase = .exited code'
      · obtain ⟨code', hcode⟩ := hended
        obtain ⟨hphase, hfile, hsimulator⟩ := step_of_exited hcode hstep
        obtain rfl : code' = code := by simpa [hphase] using hexit
        obtain ⟨world, s, hlast, hdump, hsame⟩ := ih hbefore hcode
        exact ⟨world, s, hlast.append [e], hfile.trans hdump,
          hsimulator.trans hsame⟩
      · obtain ⟨world, rfl, hphase, hstopped, hdump, hsame⟩ :=
          step_to_exited (not_exists.mp hended) hstep hexit
        exact ⟨world, s₁, ⟨events, [], rfl, hbefore, hphase, hstopped⟩, hdump,
          hsame⟩

/-- Whenever a signal arrives, the program ends within two steps of `main`, and
executes at most one more query.  The exit code is 0 unless the callback of a
query gets a null pointer.  If the metrics file can be opened in the last step,
it reads as four balanced entries for the pages of all queries that the program
has executed; otherwise it is left as it was. -/
theorem signal_ends_run {rc time : Int} {sqlite : Sqlite}
    {metricsFile : Option Text} {s₀ : Program}
    (hstart : start config rc sqlite time metricsFile = .ok s₀)
    {before after : List ProgramEvent} (hsteps : 2 ≤ mainSteps after) :
    ∃ s s',
      s₀.run config before = some s ∧
      s₀.run config (before ++ .signal :: after) = some s' ∧
      s.executed <+: s'.executed ∧
      s'.executed.length ≤ s.executed.length + 1 ∧
      (s'.phase = .exited 0 ∨ s'.phase = .killed) ∧
      ((∀ world, .step world ∈ before ++ .signal :: after → world.HasCells) →
        s'.phase = .exited 0) ∧
      (s'.phase = .exited 0 →
        ∃ world s₁,
          LastStep config s₀ (before ++ .signal :: after) world s₁ ∧
          (world.metricsOpen = false → s'.metricsFile = metricsFile) ∧
          (world.metricsOpen = true → Single world.timeBuf →
            ∃ text, s'.metricsFile = some text ∧
              readMetrics text = s'.simulator.metrics.map Metrics.entry ∧
              (readMetrics text).map MetricsEntry.strategyName =
                ["LRU".toList, "MRU".toList, "CLOCK".toList,
                  "PINNED".toList] ∧
              ∀ e ∈ readMetrics text, e.Balanced
                (totalPages config s₀.simulator.db s'.executed))) := by
  obtain rfl := start_eq_ok hstart
  obtain ⟨s, hbefore, -⟩ := run_watching config
    (SQLiteManager.opened.initPageOffsets sqlite config.pageSize) time
    metricsFile before
  obtain ⟨s', hrun, hinv⟩ := run_watching config
    (SQLiteManager.opened.initPageOffsets sqlite config.pageSize) time
    metricsFile (before ++ .signal :: after)
  have hafter : s.sigintHandler.run config after = some s' := by
    rw [run_append, hbefore] at hrun
    exact hrun
  have hstops := stops_run rfl hafter
  have hbound : stepsLeft s.phase ≤ 2 := by
    cases s.phase <;> simp [stepsLeft]
  have hleft : stepsLeft s'.phase = 0 := by
    have hle : stepsLeft s'.phase ≤ stepsLeft s.phase - mainSteps after :=
      hstops.stepsLeft_le
    omega
  have hended : s'.phase = .exited 0 ∨ s'.phase = .killed := by
    cases hphase : s'.phase with
    | watching => simp [hphase, stepsLeft] at hleft
    | reading => simp [hphase, stepsLeft] at hleft
    | exited code =>
        obtain rfl := hinv.exited code hphase
        exact Or.inl rfl
    | killed => exact Or.inr rfl
  refine ⟨s, s', hbefore, hrun, hstops.executed_kept, ?_, hended, ?_, ?_⟩
  · have hle : s'.executed.length + (stepsLeft s'.phase - 1) ≤
        s.executed.length + (stepsLeft s.phase - 1) := hstops.executed_le
    omega
  · intro hcells
    refine hended.resolve_right fun hkilled => ?_
    obtain ⟨world, hworld, hnull⟩ := hinv.killed hkilled
    exact hnull (hcells world hworld)
  · intro hexit
    obtain ⟨world, s₁, hlast, hdump, hsimulator⟩ :=
      exists_lastStep (by simp [watching]) hrun hexit
    refine ⟨world, s₁, hlast, ?_, ?_⟩
    · intro hclosed
      -- the file has not been written before
      obtain ⟨earlier, later, -, hearlier, hwatching, -⟩ := hlast
      obtain ⟨s₂, hrun₂, hinv₂⟩ := run_watching config
        (SQLiteManager.opened.initPageOffsets sqlite config.pageSize) time
        metricsFile earlier
      obtain rfl : s₂ = s₁ := Option.some.inj (hrun₂.symm.trans hearlier)
      rw [hdump, dumpMetricsToFile, if_neg (by simp [hclosed])]
      exact hinv₂.metricsFile_eq (by simp [hwatching])
    · intro hopen htime
      obtain ⟨hread, hnames, hbalanced⟩ := hinv.fed.readMetrics_report htime
      rw [length_flatMap_pages] at hbalanced
      refine ⟨s'.simulator.metricsReport world.timeBuf, ?_, hread, ?_, ?_⟩
      · rw [hdump, dumpMetricsToFile, if_pos hopen, ← hsimulator]
        rfl
      · rw [hread]
        exact hnames
      · rw [hread]
        exact hbalanced

/-- The signal arrives between `hasChanged` and `readFile`. -/
theorem signal_ends_run_one_row :
    ∃ s' text, start Config.source SQLITE_OK QueryLoop.oneRow 1000 none =
        .ok oneRowProgram ∧
      oneRowProgram.run Config.source ([.write "SELECT 1;".toList 1001,
        .step oneRowWorld] ++ .signal ::
          [.step oneRowWorld, .step oneRowWorld]) = some s' ∧
      s'.phase = .exited 0 ∧
      s'.metricsFile = some text ∧
      (readMetrics text).length = 4 := by
  have hworlds : ∀ world, ProgramEvent.step world ∈
      [.write "SELECT 1;".toList 1001, .step oneRowWorld] ++
        .signal :: [.step oneRowWorld, .step oneRowWorld] →
      world = oneRowWorld := by
    intro world hworld
    simpa using hworld
  obtain ⟨-, s', -, hrun, -, -, -, hcode, hdump⟩ :=
    @signal_ends_run Config.source SQLITE_OK 1000 QueryLoop.oneRow none _
      start_oneRow [.write "SELECT 1;".toList 1001, .step oneRowWorld]
      [.step oneRowWorld, .step oneRowWorld] (by decide)
  have hexit := hcode fun world hworld =>
    hworlds world hworld ▸ hasCells_oneRowWorld
  obtain ⟨world, s₁, ⟨earlier, later, hsplit, -⟩, -, hopen⟩ := hdump hexit
  obtain rfl := hworlds world (hsplit ▸ by simp)
  obtain ⟨text, hfile, -, hnames, -⟩ := hopen rfl (by decide)
  refine ⟨s', text, start_oneRow, hrun, hexit, hfile, ?_⟩
  rw [← List.length_map (f := MetricsEntry.strategyName), hnames]
  rfl

end Program
end BufferSim
