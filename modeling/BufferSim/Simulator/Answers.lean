import BufferSim.Simulator.Session

/-!
# Questions that are answered

When the chat has asked, `text_to_sql.py` has run, and the backend has taken
three steps before the chat looks, the answer is the report on the query of the
reply.  If that query has no records, the answer is the same as before.
-/

namespace BufferSim

open Cxx Python TextToSql

namespace Session

variable {codec : Codec} {config : Config} {s : Session}

/-- Steps of the backend change the backend only. -/
theorem run_backends (codec : Codec) (s : Session) {worlds : List World}
    {program : Program}
    (h : s.program.run config (worlds.map .step) = some program) :
    s.run codec config (worlds.map .backend) =
      some { s with program := program } := by
  induction worlds generalizing s with
  | nil =>
      obtain rfl := Option.some.inj h
      rfl
  | cons world worlds ih =>
      rw [List.map_cons, Program.run, List.foldlM_cons] at h
      obtain ⟨program', hstep, hrest⟩ := Option.bind_eq_some_iff.mp h
      rw [List.map_cons, run_cons, step, hstep, Option.map_some,
        Option.bind_some]
      exact ih { s with program := program' } hrest

/-- Only the backend changes what its watcher remembers. -/
theorem watcher_step {e : SessionEvent} (he : ∀ world, e ≠ .backend world)
    {s' : Session} (h : s.step codec config e = some s') :
    s'.program.watcher = s.program.watcher := by
  cases e with
  | backend world => exact absurd rfl (he world)
  | ask prompt opens =>
      obtain rfl := Option.some.inj h
      rfl
  | translate ollama =>
      simp only [step] at h
      split at h
      · split at h
        · obtain rfl := Option.some.inj h
          rfl
        · obtain rfl := Option.some.inj h
          rfl
      · obtain rfl := Option.some.inj h
        rfl
  | truncate time =>
      simp only [step] at h
      split at h
      · obtain rfl := Option.some.inj h
        rfl
      · obtain rfl := Option.some.inj h
        rfl
  | flush time =>
      simp only [step] at h
      split at h
      · obtain rfl := Option.some.inj h
        rfl
      · obtain rfl := Option.some.inj h
        rfl
  | stop =>
      obtain rfl := Option.some.inj h
      rfl
  | signal =>
      obtain rfl := Option.some.inj h
      rfl
  | answer openError =>
      obtain rfl := Option.some.inj h
      rfl

theorem watcher_run {events : List SessionEvent}
    (hevents : ∀ world, .backend world ∉ events) {s' : Session}
    (h : s.run codec config events = some s') :
    s'.program.watcher = s.program.watcher := by
  induction events generalizing s with
  | nil =>
      obtain rfl := Option.some.inj h
      rfl
  | cons e events ih =>
      rw [run_cons] at h
      obtain ⟨s₁, hstep, hrest⟩ := Option.bind_eq_some_iff.mp h
      have he : ∀ world, e ≠ .backend world := fun world heq =>
        hevents world (heq ▸ List.mem_cons_self)
      have hrest' := ih (fun world hmem =>
        hevents world (List.mem_cons_of_mem e hmem)) hrest
      exact hrest'.trans (watcher_step he hstep)

/-- The script finds the prompt that the chat has written. -/
theorem translation_eq {prompt reply : Str} {bytes : Text}
    (hbytes : codec.encode prompt = some bytes)
    {ollama : OllamaRequest → Option OllamaResult}
    (hreply : Answered (some (Str.universalNewlines prompt)) ollama reply)
    (hne : reply ≠ []) :
    translation codec (some bytes) ollama =
      some (cleanSql reply ++ "\n".toList) := by
  have hread : codec.read bytes = .ok (Str.universalNewlines prompt) := by
    rw [Codec.read, codec.decode_encode prompt bytes hbytes]
    rfl
  simp only [translation, hread]
  exact main_of_answered hreply hne

/-- A question, and the steps up to the one that writes the query. -/
def asking (prompt : Str) (ollama : OllamaRequest → Option OllamaResult)
    (time : Int) (as bs cs : List World) : List SessionEvent :=
  .ask prompt true :: (as.map .backend ++ .translate ollama ::
    (bs.map .backend ++ .truncate time :: cs.map .backend))

variable {db : SQLiteManager} {metricsFile : Option Text}
  {programEvents : List ProgramEvent}

/-- A running program goes on running through steps of the backend. -/
theorem run_alive (codec : Codec) (s : Session)
    (hinv : Program.Invariant config db metricsFile programEvents s.program)
    (halive : s.program.Alive) (hrunning : s.program.running = true)
    {worlds : List World} (hcells : ∀ world ∈ worlds, world.HasCells) :
    ∃ program programEvents',
      s.run codec config (worlds.map .backend) =
        some { s with program := program } ∧
      Program.Invariant config db metricsFile programEvents' program ∧
      program.Alive ∧ program.running = true := by
  obtain ⟨program, hrun, hinv'⟩ := hinv.run (worlds.map .step)
  obtain ⟨halive', hrunning'⟩ := halive.run hrunning (by simp)
    (by simpa using hcells) hrun
  exact ⟨program, _, run_backends codec s hrun, hinv', halive', hrunning'⟩

/-- Before the query is written, the chat waits and the backend runs. -/
theorem run_asking
    (hinv : Program.Invariant config db metricsFile programEvents s.program)
    (halive : s.program.Alive) (hrunning : s.program.running = true)
    (hidle : s.script = .idle) {prompt reply : Str} (hprompt : prompt ≠ [])
    {bytes : Text} (hbytes : codec.encode prompt = some bytes)
    {ollama : OllamaRequest → Option OllamaResult}
    (hreply : Answered (some (Str.universalNewlines prompt)) ollama reply)
    (hne : reply ≠ []) {content : Text}
    (hcontent : codec.encode (cleanSql reply ++ "\n".toList) = some content)
    (time : Int) {as bs cs : List World}
    (hcells : ∀ world ∈ as ++ bs ++ cs, world.HasCells) :
    ∃ program programEvents',
      s.run codec config (asking prompt ollama time as bs cs) = some
        { chat :=
            { messages := s.chat.messages ++
                [{ role := .user, content := prompt }]
              waiting := true
              userPrompt := some bytes }
          script := .opened content
          program := program } ∧
      Program.Invariant config db metricsFile programEvents' program ∧
      program.Alive ∧ program.running = true := by
  have has : ∀ world ∈ as, world.HasCells := fun world hw =>
    hcells world (by simp [hw])
  have hbs : ∀ world ∈ bs, world.HasCells := fun world hw =>
    hcells world (by simp [hw])
  have hcs : ∀ world ∈ cs, world.HasCells := fun world hw =>
    hcells world (by simp [hw])
  let asked : Session :=
    { s with
      chat :=
        { messages := s.chat.messages ++ [{ role := .user, content := prompt }]
          waiting := true
          userPrompt := some bytes } }
  have hask : s.step codec config (.ask prompt true) = some asked := by
    simp only [step, Chat.ask, if_neg hprompt, Chat.writePrompt, if_true,
      hbytes, Option.getD_some, asked]
  obtain ⟨p₁, _, hfirst, hinv₁, halive₁, hrunning₁⟩ :=
    run_alive codec asked hinv halive hrunning has
  let replied : Session :=
    { asked with script := .replied (cleanSql reply ++ "\n".toList)
                 program := p₁ }
  have hidle₁ : ({ asked with program := p₁ } : Session).script = .idle := hidle
  have htranslate : ({ asked with program := p₁ } : Session).step codec config
      (.translate ollama) = some replied :=
    step_translate config hidle₁ (translation_eq hbytes hreply hne)
  obtain ⟨p₂, _, hsecond, hinv₂, halive₂, hrunning₂⟩ :=
    run_alive codec replied hinv₁ halive₁ hrunning₁ hbs
  obtain ⟨p₃, hwrite, hinv₃⟩ := hinv₂.step (.write [] time)
  obtain rfl := Option.some.inj hwrite
  let opened : Session :=
    { asked with script := .opened content
                 program := { p₂ with query := some ⟨[], time⟩ } }
  have htruncate : ({ replied with program := p₂ } : Session).step codec config
      (.truncate time) = some opened := by
    rw [step_truncate rfl, hcontent]
    rfl
  have halive₃ : opened.program.Alive := halive₂
  obtain ⟨p₄, _, hthird, hinv₄, halive₄, hrunning₄⟩ :=
    run_alive codec opened hinv₃ halive₃ hrunning₂ hcs
  refine ⟨p₄, _, ?_, hinv₄, halive₄, hrunning₄⟩
  rw [asking, run_cons, hask, Option.bind_some, run_append, hfirst,
    Option.bind_some, run_cons, htranslate, Option.bind_some, run_append,
    hsecond, Option.bind_some, run_cons, htruncate, Option.bind_some]
  exact hthird

/-- The backend executes the query of the reply, with the answer of the database
in one of its last steps, and the chat shows the report on it, or what the
display has shown before when the query has no records.  The time of the write
must not be the one that the watcher remembers. -/
theorem answers_question {rc time : Int} {sqlite : Sqlite}
    {program : Program}
    (hstart : Program.start config rc sqlite time metricsFile = .ok program)
    {initial : Option Text} {events : List SessionEvent}
    (hrun : (start initial program).run codec config events = some s)
    (halive : s.program.Alive) (hrunning : s.program.running = true)
    (hidle : s.script = .idle) {prompt reply : Str} (hprompt : prompt ≠ [])
    {bytes : Text} (hbytes : codec.encode prompt = some bytes)
    {ollama : OllamaRequest → Option OllamaResult}
    (hreply : Answered (some (Str.universalNewlines prompt)) ollama reply)
    (hsql : cleanSql reply ≠ []) {content : Text}
    (hcontent : codec.encode (cleanSql reply ++ "\n".toList) = some content)
    {t₁ t₂ : Int} {as bs cs ds : List World} (hsteps : 3 ≤ ds.length)
    (hcells : ∀ world ∈ as ++ bs ++ cs ++ ds, world.HasCells)
    (hpresent : t₂ ≠ 0)
    (hnew : ∀ s₁, s.run codec config (asking prompt ollama t₁ as bs cs) =
      some s₁ → t₂ ≠ s₁.program.watcher.lastModified) :
    ∃ s' q, s.run codec config (asking prompt ollama t₁ as bs cs ++
        .flush t₂ :: (ds.map .backend ++ [.answer none])) = some s' ∧
      s'.program.executed.getLast? = some q ∧
      codec.encode (cleanSql reply) = some q.sql ∧
      (∃ world ∈ ds, world.Delivers q) ∧
      s'.chat.messages = s.chat.messages ++
        [{ role := .user, content := prompt },
          { role := .assistant
            content := Chat.responseText codec none (some
              (if q.HasRecords program.simulator.db then
                q.report program.simulator.db
              else latestReport program.simulator.db
                s'.program.executed.dropLast)) }] := by
  obtain rfl := Program.start_eq_ok hstart
  obtain ⟨s₀, hrun₀, hinv₀⟩ :=
    (invariant_start codec time metricsFile initial).run events
  obtain rfl : s₀ = s := Option.some.inj (hrun₀.symm.trans hrun)
  obtain ⟨programEvents, hinv, -⟩ := hinv₀.program
  have hne : reply ≠ [] := by
    rintro rfl
    exact hsql rfl
  obtain ⟨p₁, events₁, hasking, hinv₁, halive₁, hrunning₁⟩ := run_asking hinv
    halive hrunning hidle hprompt hbytes hreply hne hcontent t₁
    (fun world hw => hcells world (List.mem_append_left ds hw))
  -- the file is not blank
  have hquery : codec.encode (cleanSql reply) = some (querySql content) :=
    Codec.rdropWhile_encode_strip hcontent
  have hblank : querySql content ≠ [] := by
    intro hnil
    rw [hnil] at hquery
    exact hsql (Codec.eq_nil_of_encode hquery)
  -- the write is one that the watcher reports
  obtain ⟨p₂, hwrite, hinv₂⟩ := hinv₁.step (.write content t₂)
  obtain rfl := Option.some.inj hwrite
  have halive₂ : Program.Alive { p₁ with query := some ⟨content, t₂⟩ } :=
    halive₁
  have hchanged : (p₁.watcher.hasChanged (some ⟨content, t₂⟩)).1 = true := by
    rw [FileWatcher.hasChanged_iff]
    exact ⟨hnew _ hasking, hpresent⟩
  obtain ⟨p₃, q, hp₃, hlast, hqcontent, hworld, hdisplay⟩ :=
    hinv₂.shows_changed halive₂ hrunning₁ hchanged hblank hsteps
      (fun world hw => hcells world (List.mem_append_right _ hw))
  let written : Session :=
    { chat :=
        { messages := s₀.chat.messages ++
            [{ role := .user, content := prompt }]
          waiting := true
          userPrompt := some bytes }
      script := .idle
      program := { p₁ with query := some ⟨content, t₂⟩ } }
  have hbackends := run_backends codec written hp₃
  have hanswer : ({ written with program := p₃ } : Session).step codec config
      (.answer none) = some
        { written with
          chat := written.chat.answer codec none
            (some p₃.simulator.display)
          program := p₃ } := rfl
  refine ⟨{ written with
    chat := written.chat.answer codec none (some p₃.simulator.display)
    program := p₃ }, q, ?_, hlast, ?_, hworld, ?_⟩
  · rw [run_append, hasking, Option.bind_some, run_cons,
      step_flush rfl t₂, Option.bind_some, run_append, hbackends,
      Option.bind_some, run_cons, hanswer]
    rfl
  · rw [hquery, Submission.sql, hqcontent]
    rfl
  · have hmessages : (written.chat.answer codec none
        (some p₃.simulator.display)).messages = s₀.chat.messages ++
          [{ role := .user, content := prompt },
            { role := .assistant
              content := Chat.responseText codec none
                (some p₃.simulator.display) }] := by
      simp [Chat.answer, written]
    refine hmessages.trans ?_
    rw [hdisplay]
    rfl

theorem answers_question_students :
    ∃ s' q, Program.start Config.source SQLITE_OK QueryLoop.oneRow 1000 none =
        .ok Program.oneRowProgram ∧
      (start none Program.oneRowProgram).run asciiCodec Config.source
        (asking "List all students".toList
            (constantModel "SELECT * FROM students;".toList) 1001 [] [] [] ++
          .flush 1001 :: ((List.replicate 3 Program.oneRowWorld).map .backend ++
            [.answer none])) = some s' ∧
      s'.program.executed.getLast? = some q ∧
      q.sql = "SELECT * FROM students;".toList ∧
      q.response.rows = [singleCell "1".toList] := by
  have hreply : Answered
      (some (Str.universalNewlines "List all students".toList))
      (constantModel "SELECT * FROM students;".toList)
      "SELECT * FROM students;".toList :=
    ⟨"List all students".toList, by decide, by decide, by decide⟩
  have hcontent : asciiCodec.encode
      (cleanSql "SELECT * FROM students;".toList ++ "\n".toList) =
        some "SELECT * FROM students;\n".toList := by
    decide
  have hsteps : 3 ≤ (List.replicate 3 Program.oneRowWorld).length := by decide
  have hworlds : ∀ world ∈ List.replicate 3 Program.oneRowWorld,
      world = Program.oneRowWorld := fun _ => List.eq_of_mem_replicate
  have hcells : ∀ world ∈ [] ++ [] ++ [] ++
      List.replicate 3 Program.oneRowWorld, world.HasCells := by
    intro world hworld
    rw [hworlds world (by simpa using hworld)]
    exact Program.hasCells_oneRowWorld
  -- the backend has not looked at the file yet
  have hnew : ∀ s₁, (start none Program.oneRowProgram).run asciiCodec
      Config.source (asking "List all students".toList
        (constantModel "SELECT * FROM students;".toList) 1001 [] [] []) =
          some s₁ → (1001 : Int) ≠ s₁.program.watcher.lastModified := by
    intro s₁ h
    rw [watcher_run (by simp [asking]) h]
    exact (by decide : (1001 : Int) ≠ 0)
  obtain ⟨s', q, hrun, hlast, hsql, ⟨world, hworld, -, hresponse⟩, -⟩ :=
    answers_question Program.start_oneRow
      (rfl : (start none Program.oneRowProgram).run asciiCodec Config.source
        [] = some _) (Or.inl rfl) rfl rfl (by decide)
      (rfl : asciiCodec.encode "List all students".toList = _) hreply
      (by decide) hcontent hsteps hcells (by decide) hnew
  have hstudents : q.sql = "SELECT * FROM students;".toList :=
    Option.some.inj (hsql.symm.trans (by decide))
  rw [hworlds world hworld] at hresponse
  refine ⟨s', q, Program.start_oneRow, hrun, hlast, hstudents, ?_⟩
  exact (congrArg ExecResponse.rows (Option.some.inj hresponse)).symm

end Session
end BufferSim
