import BufferSim.Frontend.App
import BufferSim.Frontend.TextToSql
import BufferSim.Simulator.Freshness

/-!
# A session of all programs

The chat, `text_to_sql.py` and the backend share three files.  The chat writes
`user_prompt.txt`; `text_to_sql.py` reads it, waits for the language model,
truncates `query.sql` and then writes the query; the backend executes the query
and writes `display.txt`, which the chat reads.

The steps of the programs fall between each other in any order.  In all orders
an answer of the chat goes back to a question that was asked before it.  It is
the answer to the latest question if every program has had its turn.
-/

namespace BufferSim

open Cxx Python TextToSql

/-- Where `text_to_sql.py` stands: it does not run, it is about to open
`query.sql`, or it is about to close the file. -/
inductive Script where
  | idle
  | replied (sqlText : Str)
  | opened (content : Text)
  deriving DecidableEq, Repr

structure Session where
  chat : Chat
  script : Script
  program : Program

inductive SessionEvent where
  | ask (prompt : Str) (opens : Bool)
  | translate (ollama : OllamaRequest → Option OllamaResult)
  | truncate (time : Int)
  | flush (time : Int)
  | stop
  | backend (world : World)
  | signal
  | answer (openError : Option Str)

/-- What `text_to_sql.py` makes of the prompt file, if it does not end before it
opens `query.sql`. -/
def translation (codec : Codec) (userPrompt : Option Text)
    (ollama : OllamaRequest → Option OllamaResult) : Option Str :=
  match userPrompt with
  | none => TextToSql.main none ollama
  | some bytes =>
      match codec.read bytes with
      | .ok text => TextToSql.main (some text) ollama
      | .error _ => none

namespace Session

/-- A step of one of the programs.  `open(output_file, "w")` truncates the file;
the text is written when the file is closed.  A script that raises an exception
or is killed stops. -/
def step (codec : Codec) (config : Config) (s : Session) :
    SessionEvent → Option Session
  | .ask prompt opens => some { s with chat := s.chat.ask codec opens prompt }
  | .translate ollama =>
      match s.script with
      | .idle =>
          match translation codec s.chat.userPrompt ollama with
          | none => some s
          | some sqlText => some { s with script := .replied sqlText }
      -- the script runs once at a time
      | _ => some s
  | .truncate time =>
      match s.script with
      | .replied sqlText =>
          (s.program.step config (.write [] time)).map fun program =>
            { s with script := (codec.encode sqlText).elim .idle .opened
                     program := program }
      | _ => some s
  | .flush time =>
      match s.script with
      | .opened content =>
          (s.program.step config (.write content time)).map fun program =>
            { s with script := .idle, program := program }
      | _ => some s
  | .stop => some { s with script := .idle }
  | .backend world =>
      (s.program.step config (.step world)).map fun program =>
        { s with program := program }
  | .signal =>
      (s.program.step config .signal).map fun program =>
        { s with program := program }
  | .answer openError =>
      some { s with
        chat := s.chat.answer codec openError
          (some s.program.simulator.display) }

def run (codec : Codec) (config : Config) (s : Session)
    (events : List SessionEvent) : Option Session :=
  events.foldlM (step codec config) s

/-- The backend has just been started; `user_prompt.txt` may be an old one. -/
def start (userPrompt : Option Text) (program : Program) : Session where
  chat := { messages := [], waiting := false, userPrompt := userPrompt }
  script := .idle
  program := program

variable {codec : Codec} {config : Config} {s s' : Session}

theorem run_append (s : Session) (xs ys : List SessionEvent) :
    s.run codec config (xs ++ ys) =
      (s.run codec config xs).bind (fun s' => s'.run codec config ys) := by
  rw [run, List.foldlM_append]
  rfl

theorem run_cons (s : Session) (e : SessionEvent) (events : List SessionEvent) :
    s.run codec config (e :: events) =
      (s.step codec config e).bind (fun s' => s'.run codec config events) := by
  rw [run, List.foldlM_cons]
  rfl

theorem run_snoc (s : Session) (events : List SessionEvent)
    (e : SessionEvent) :
    s.run codec config (events ++ [e]) =
      (s.run codec config events).bind (fun s' => s'.step codec config e) := by
  rw [run_append]
  congr 1
  funext s'
  simp [run]

theorem step_translate (config : Config) (hidle : s.script = .idle)
    {ollama : OllamaRequest → Option OllamaResult} {sqlText : Str}
    (h : translation codec s.chat.userPrompt ollama = some sqlText) :
    s.step codec config (.translate ollama) =
      some { s with script := .replied sqlText } := by
  simp only [step, hidle, h]

theorem step_truncate {sqlText : Str} (hreplied : s.script = .replied sqlText)
    (time : Int) :
    s.step codec config (.truncate time) = some
      { s with
        script := (codec.encode sqlText).elim .idle .opened
        program := { s.program with query := some ⟨[], time⟩ } } := by
  simp only [step, hreplied, Program.step, Option.map_some]

theorem step_flush {content : Text} (hopened : s.script = .opened content)
    (time : Int) :
    s.step codec config (.flush time) = some
      { s with
        script := .idle
        program := { s.program with query := some ⟨content, time⟩ } } := by
  simp only [step, hopened, Program.step, Option.map_some]

end Session

/-! ## Where an answer comes from -/

/-- The content of `user_prompt.txt` is the initial one, or was written for a
question. -/
def Asked (codec : Codec) (initial : Option Text) (messages : List Message)
    (bytes : Text) : Prop :=
  initial = some bytes ∨ ∃ prompt,
    { role := .user, content := prompt } ∈ messages ∧
      (codec.encode prompt).getD [] = bytes

/-- The language model has given the reply to a question. -/
def Replied (codec : Codec) (initial : Option Text)
    (events : List SessionEvent) (messages : List Message) (reply : Str) :
    Prop :=
  ∃ bytes text ollama, Asked codec initial messages bytes ∧
    codec.read bytes = .ok text ∧ .translate ollama ∈ events ∧
    Answered (some text) ollama reply

/-- What `text_to_sql.py` writes for such a reply. -/
def Translated (codec : Codec) (initial : Option Text)
    (events : List SessionEvent) (messages : List Message) (content : Text) :
    Prop :=
  ∃ reply, Replied codec initial events messages reply ∧
    codec.encode (cleanSql reply ++ "\n".toList) = some content

/-- What `text_to_sql.py` is about to write is made of such a reply. -/
def Script.Translates (codec : Codec) (initial : Option Text)
    (events : List SessionEvent) (messages : List Message) : Script → Prop
  | .idle => True
  | .replied sqlText => ∃ reply, Replied codec initial events messages reply ∧
      sqlText = cleanSql reply ++ "\n".toList
  | .opened content => Translated codec initial events messages content

/-- The display is empty, or it is the report on a query that was made of the
reply to a question and answered by the database in a step of the backend. -/
def DisplaysQuery (codec : Codec) (db : SQLiteManager) (initial : Option Text)
    (events : List SessionEvent) (messages : List Message) (display : Text) :
    Prop :=
  display = [] ∨ ∃ (q : Submission) (reply : Str) (world : World),
    q.HasRecords db ∧ display = q.report db ∧
    .backend world ∈ events ∧ world.Delivers q ∧
    Replied codec initial events messages reply ∧
    codec.encode (cleanSql reply) = some q.sql

/-- An answer of the chat is what it makes of the display, or of the exception
that `open` has raised in its step; all that the display goes back to has
happened before that step. -/
def AnswersQuestion (codec : Codec) (db : SQLiteManager)
    (initial : Option Text) (events : List SessionEvent)
    (before : List Message) (content : Str) : Prop :=
  ∃ earlier openError display,
    earlier ++ [.answer openError] <+: events ∧
    content = Chat.responseText codec openError (some display) ∧
    DisplaysQuery codec db initial earlier before display

section Mono

variable {codec : Codec} {initial : Option Text}
  {events events' : List SessionEvent} {messages messages' : List Message}

theorem Asked.mono {bytes : Text} (h : Asked codec initial messages bytes)
    (hsub : messages ⊆ messages') : Asked codec initial messages' bytes :=
  h.imp_right fun ⟨prompt, hmem, hbytes⟩ => ⟨prompt, hsub hmem, hbytes⟩

theorem Replied.mono {reply : Str}
    (h : Replied codec initial events messages reply) (hevents : events ⊆ events')
    (hsub : messages ⊆ messages') :
    Replied codec initial events' messages' reply := by
  obtain ⟨bytes, text, ollama, hasked, hread, hmem, hanswered⟩ := h
  exact ⟨bytes, text, ollama, hasked.mono hsub, hread, hevents hmem, hanswered⟩

theorem Translated.mono {content : Text}
    (h : Translated codec initial events messages content)
    (hevents : events ⊆ events') (hsub : messages ⊆ messages') :
    Translated codec initial events' messages' content := by
  obtain ⟨reply, hreplied, hcontent⟩ := h
  exact ⟨reply, hreplied.mono hevents hsub, hcontent⟩

theorem Script.Translates.mono {script : Script}
    (h : script.Translates codec initial events messages)
    (hevents : events ⊆ events') (hsub : messages ⊆ messages') :
    script.Translates codec initial events' messages' := by
  cases script with
  | idle => trivial
  | replied sqlText =>
      obtain ⟨reply, hreplied, htext⟩ := h
      exact ⟨reply, hreplied.mono hevents hsub, htext⟩
  | opened content => exact Translated.mono h hevents hsub

theorem AnswersQuestion.mono {db : SQLiteManager} {content : Str}
    (h : AnswersQuestion codec db initial events messages content)
    (hbegins : events <+: events') :
    AnswersQuestion codec db initial events' messages content := by
  obtain ⟨earlier, openError, display, hearlier, hanswer⟩ := h
  exact ⟨earlier, openError, display, hearlier.trans hbegins, hanswer⟩

end Mono

theorem exists_answered_of_main {userPrompt : Option Str}
    {ollama : OllamaRequest → Option OllamaResult} {sqlText : Str}
    (h : TextToSql.main userPrompt ollama = some sqlText) :
    ∃ reply, Answered userPrompt ollama reply ∧ reply ≠ [] ∧
      sqlText = cleanSql reply ++ "\n".toList := by
  rw [TextToSql.main] at h
  cases hprompt : readUserPrompt userPrompt with
  | none => simp [hprompt] at h
  | some englishQuery =>
      simp only [hprompt] at h
      split at h
      · simp at h
      · next hquery =>
          cases hreply :
              getSqlFromOllama ollama englishQuery "llama3".toList with
          | none => simp only [hreply, reduceCtorEq] at h
          | some reply =>
              simp only [hreply] at h
              split at h
              · simp at h
              · next hne =>
                  exact ⟨reply, ⟨englishQuery, hprompt, hquery, hreply⟩, hne,
                    (Option.some.inj h).symm⟩

/-- What is going to be written is made of a reply. -/
theorem translates_of_translation {codec : Codec} {initial : Option Text}
    {events : List SessionEvent} {messages : List Message}
    {userPrompt : Option Text} {ollama : OllamaRequest → Option OllamaResult}
    {sqlText : Str}
    (hprompt : ∀ bytes, userPrompt = some bytes →
      Asked codec initial messages bytes)
    (hevent : .translate ollama ∈ events)
    (h : translation codec userPrompt ollama = some sqlText) :
    (Script.replied sqlText).Translates codec initial events messages := by
  cases userPrompt with
  | none => simp [translation, TextToSql.main, readUserPrompt] at h
  | some bytes =>
      rw [translation] at h
      cases hread : codec.read bytes with
      | error e => simp [hread] at h
      | ok text =>
          simp only [hread] at h
          obtain ⟨reply, hanswered, -, rfl⟩ := exists_answered_of_main h
          exact ⟨reply, ⟨bytes, text, ollama, hprompt bytes rfl, hread, hevent,
            hanswered⟩, rfl⟩

/-- The text is encoded when the file is open. -/
theorem Script.Translates.opened {codec : Codec} {initial : Option Text}
    {events : List SessionEvent} {messages : List Message} {sqlText : Str}
    (h : (Script.replied sqlText).Translates codec initial events messages) :
    ((codec.encode sqlText).elim Script.idle Script.opened).Translates codec
      initial events messages := by
  obtain ⟨reply, hreplied, rfl⟩ := h
  cases hcontent : codec.encode (cleanSql reply ++ "\n".toList) with
  | none => trivial
  | some content => exact ⟨reply, hreplied, hcontent⟩

/-! ## The invariant -/

namespace Session

/-- What holds after `events` in a session that began with the program in state
`s₀`. -/
structure Invariant (codec : Codec) (config : Config) (db : SQLiteManager)
    (metricsFile initial : Option Text) (events : List SessionEvent)
    (s : Session) : Prop where
  program : ∃ programEvents,
    Program.Invariant config db metricsFile programEvents s.program ∧
    ∀ world, .step world ∈ programEvents → .backend world ∈ events
  userPrompt : ∀ bytes, s.chat.userPrompt = some bytes →
    Asked codec initial s.chat.messages bytes
  script : s.script.Translates codec initial events s.chat.messages
  query : FileWatcher.readFile s.program.query = [] ∨
    Translated codec initial events s.chat.messages
      (FileWatcher.readFile s.program.query)
  executed : ∀ q ∈ s.program.executed,
    Translated codec initial events s.chat.messages q.content
  answered : ∀ before message after,
    s.chat.messages = before ++ message :: after →
    message.role = .assistant →
      AnswersQuestion codec db initial events before message.content

namespace Invariant

variable {codec : Codec} {config : Config} {db : SQLiteManager}
  {metricsFile initial : Option Text} {events : List SessionEvent}
  {s : Session}

theorem mono (h : Invariant codec config db metricsFile initial events s)
    {events' : List SessionEvent} (hbegins : events <+: events') :
    Invariant codec config db metricsFile initial events' s where
  program := by
    obtain ⟨programEvents, hinv, hworlds⟩ := h.program
    exact ⟨programEvents, hinv, fun world hw =>
      hbegins.subset (hworlds world hw)⟩
  userPrompt := h.userPrompt
  script := h.script.mono hbegins.subset (List.Subset.refl _)
  query := h.query.imp_right fun ht =>
    ht.mono hbegins.subset (List.Subset.refl _)
  executed q hq := (h.executed q hq).mono hbegins.subset (List.Subset.refl _)
  answered before message after hsplit hrole :=
    (h.answered before message after hsplit hrole).mono hbegins

/-- A new message is the last one, or the split lies before it. -/
theorem split_concat {messages before after : List Message}
    {message last : Message}
    (h : messages ++ [last] = before ++ message :: after) :
    (before = messages ∧ message = last) ∨
      ∃ after', messages = before ++ message :: after' := by
  rcases List.eq_nil_or_concat' after with rfl | ⟨after', last', rfl⟩
  · obtain ⟨hbefore, hlast⟩ := List.append_inj' h rfl
    exact Or.inl ⟨hbefore.symm, (List.singleton_inj.mp hlast).symm⟩
  · rw [← List.cons_append, ← List.append_assoc] at h
    exact Or.inr ⟨after', (List.append_inj' h rfl).1⟩

/-- A question is not an answer, and does not change the earlier ones. -/
theorem ask (h : Invariant codec config db metricsFile initial events s)
    (prompt : Str) (opens : Bool) :
    Invariant codec config db metricsFile initial events
      { s with chat := s.chat.ask codec opens prompt } := by
  by_cases hprompt : prompt = []
  · simpa only [Chat.ask, if_pos hprompt] using h
  · have hsub : s.chat.messages ⊆
        s.chat.messages ++ [{ role := .user, content := prompt }] :=
      List.subset_append_left _ _
    simp only [Chat.ask, if_neg hprompt]
    refine ⟨h.program, ?_, ?_, ?_, ?_, ?_⟩
    · intro bytes hbytes
      simp only [Chat.writePrompt] at hbytes
      split at hbytes
      · exact Or.inr ⟨prompt, by simp, Option.some.inj hbytes⟩
      · exact (h.userPrompt bytes hbytes).mono hsub
    · exact h.script.mono (List.Subset.refl _) hsub
    · exact h.query.imp_right fun ht => ht.mono (List.Subset.refl _) hsub
    · exact fun q hq => (h.executed q hq).mono (List.Subset.refl _) hsub
    · intro before message after hsplit hrole
      rcases split_concat hsplit with ⟨-, rfl⟩ | ⟨after', hsplit'⟩
      · simp at hrole
      · exact h.answered before message after' hsplit' hrole

/-- The display is empty, or shows a query that goes back to a question. -/
theorem display (h : Invariant codec config db metricsFile initial events s) :
    DisplaysQuery codec db initial events s.chat.messages
      s.program.simulator.display := by
  obtain ⟨programEvents, hinv, hworlds⟩ := h.program
  rw [hinv.display_eq, latestReport]
  cases hlast : (s.program.executed.filter
      (fun q => decide (q.HasRecords db))).getLast? with
  | none => exact Or.inl rfl
  | some q =>
      obtain ⟨hmem, hdecide⟩ := List.mem_filter.mp (List.mem_of_getLast? hlast)
      have hq : q.HasRecords db := of_decide_eq_true hdecide
      obtain ⟨-, world, hworld, hdelivers⟩ := hinv.answered q hmem
      obtain ⟨reply, hreplied, hcontent⟩ := h.executed q hmem
      exact Or.inr ⟨q, reply, world, hq, rfl, hworlds world hworld, hdelivers,
        hreplied, Codec.rdropWhile_encode_strip hcontent⟩

/-- A new answer shows what the display holds. -/
theorem answer (h : Invariant codec config db metricsFile initial events s)
    (openError : Option Str) :
    Invariant codec config db metricsFile initial
      (events ++ [.answer openError])
      { s with
        chat := s.chat.answer codec openError
          (some s.program.simulator.display) } := by
  have h' := h.mono (List.prefix_append events [.answer openError])
  by_cases hwaiting : s.chat.waiting = true
  · have hsub := List.subset_append_left s.chat.messages
      [{ role := .assistant
         content := Chat.responseText codec openError
          (some s.program.simulator.display) }]
    simp only [Chat.answer, if_pos hwaiting]
    refine ⟨h'.program, ?_, ?_, ?_, ?_, ?_⟩
    · exact fun bytes hbytes => (h'.userPrompt bytes hbytes).mono hsub
    · exact h'.script.mono (List.Subset.refl _) hsub
    · exact h'.query.imp_right fun ht => ht.mono (List.Subset.refl _) hsub
    · exact fun q hq => (h'.executed q hq).mono (List.Subset.refl _) hsub
    · intro before message after hsplit hrole
      rcases split_concat hsplit with ⟨rfl, rfl⟩ | ⟨after', hsplit'⟩
      · exact ⟨events, openError, _, List.prefix_rfl, rfl, h.display⟩
      · exact h'.answered before message after' hsplit' hrole
  · simpa only [Chat.answer, if_neg hwaiting] using h'

/-- A step of `main` executes at most what `query.sql` holds. -/
theorem backend (h : Invariant codec config db metricsFile initial events s)
    {world : World} (hevent : .backend world ∈ events) :
    ∃ program, s.program.step config (.step world) = some program ∧
      Invariant codec config db metricsFile initial events
        { s with program := program } := by
  obtain ⟨programEvents, hinv, hworlds⟩ := h.program
  obtain ⟨program, hstep, hinv'⟩ := hinv.step (.step world)
  obtain ⟨hquery, hexecuted⟩ := Program.next_cases hstep
  refine ⟨program, hstep, ⟨_, hinv', ?_⟩, h.userPrompt, h.script, ?_, ?_,
    h.answered⟩
  · intro world' hworld'
    rcases List.mem_append.mp hworld' with hold | hnew
    · exact hworlds world' hold
    · obtain rfl : world' = world := by simpa using hnew
      exact hevent
  · simpa only [hquery] using h.query
  · intro q hq
    simp only at hq
    rcases hexecuted with ⟨hsame, -⟩ | ⟨q', hcontent, hsql, -, hadded⟩
    · exact h.executed q (hsame ▸ hq)
    · rw [hadded] at hq
      rcases List.mem_append.mp hq with hold | hnew
      · exact h.executed q hold
      · -- an empty file is not executed
        obtain rfl := List.mem_singleton.mp hnew
        rw [hcontent]
        refine h.query.resolve_left fun hnil => hsql ?_
        rw [Submission.sql, hcontent, hnil, querySql_nil]

/-- A write of `query.sql` or a signal, which `main` does not answer at once. -/
theorem outside (h : Invariant codec config db metricsFile initial events s)
    {e : ProgramEvent} (he : ∀ world, e ≠ .step world) {program : Program}
    (hstep : s.program.step config e = some program)
    (hexecuted : program.executed = s.program.executed)
    (hquery : FileWatcher.readFile program.query = [] ∨
      Translated codec initial events s.chat.messages
        (FileWatcher.readFile program.query))
    {script : Script}
    (hscript : script.Translates codec initial events s.chat.messages) :
    Invariant codec config db metricsFile initial events
      { s with script := script, program := program } := by
  obtain ⟨programEvents, hinv, hworlds⟩ := h.program
  obtain ⟨program', hstep', hinv'⟩ := hinv.step e
  obtain rfl : program' = program :=
    Option.some.inj (hstep'.symm.trans hstep)
  refine ⟨⟨_, hinv', ?_⟩, h.userPrompt, hscript, hquery, ?_, h.answered⟩
  · intro world hworld
    rcases List.mem_append.mp hworld with hold | hnew
    · exact hworlds world hold
    · exact absurd (List.mem_singleton.mp hnew).symm (he world)
  · intro q hq
    exact h.executed q (hexecuted ▸ hq)

theorem withScript (h : Invariant codec config db metricsFile initial events s)
    {script : Script}
    (hscript : script.Translates codec initial events s.chat.messages) :
    Invariant codec config db metricsFile initial events
      { s with script := script } where
  program := h.program
  userPrompt := h.userPrompt
  script := hscript
  query := h.query
  executed := h.executed
  answered := h.answered

theorem translate (h : Invariant codec config db metricsFile initial events s)
    {ollama : OllamaRequest → Option OllamaResult}
    (hevent : .translate ollama ∈ events) :
    ∃ s', s.step codec config (.translate ollama) = some s' ∧
      Invariant codec config db metricsFile initial events s' := by
  cases hscript : s.script with
  | idle =>
      cases htranslation : translation codec s.chat.userPrompt ollama with
      | none => exact ⟨s, by simp only [Session.step, hscript, htranslation], h⟩
      | some sqlText =>
          exact ⟨_, step_translate config hscript htranslation,
            h.withScript (translates_of_translation h.userPrompt hevent
              htranslation)⟩
  | replied sqlText => exact ⟨s, by simp only [Session.step, hscript], h⟩
  | opened content => exact ⟨s, by simp only [Session.step, hscript], h⟩

theorem truncate (h : Invariant codec config db metricsFile initial events s)
    (time : Int) :
    ∃ s', s.step codec config (.truncate time) = some s' ∧
      Invariant codec config db metricsFile initial events s' := by
  cases hscript : s.script with
  | idle => exact ⟨s, by simp only [Session.step, hscript], h⟩
  | replied sqlText =>
      have htranslates := h.script
      rw [hscript] at htranslates
      exact ⟨_, step_truncate hscript time,
        h.outside (e := .write [] time) (fun world => by simp) rfl rfl
          (Or.inl rfl) htranslates.opened⟩
  | opened content => exact ⟨s, by simp only [Session.step, hscript], h⟩

theorem flush (h : Invariant codec config db metricsFile initial events s)
    (time : Int) :
    ∃ s', s.step codec config (.flush time) = some s' ∧
      Invariant codec config db metricsFile initial events s' := by
  cases hscript : s.script with
  | idle => exact ⟨s, by simp only [Session.step, hscript], h⟩
  | replied sqlText => exact ⟨s, by simp only [Session.step, hscript], h⟩
  | opened content =>
      have htranslates := h.script
      rw [hscript] at htranslates
      exact ⟨_, step_flush hscript time,
        h.outside (e := .write content time) (fun world => by simp) rfl rfl
          (Or.inr htranslates) trivial⟩

theorem step (h : Invariant codec config db metricsFile initial events s)
    (e : SessionEvent) :
    ∃ s', s.step codec config e = some s' ∧
      Invariant codec config db metricsFile initial (events ++ [e]) s' := by
  have h' := h.mono (List.prefix_append events [e])
  cases e with
  | ask prompt opens => exact ⟨_, rfl, h'.ask prompt opens⟩
  | translate ollama => exact h'.translate (by simp)
  | truncate time => exact h'.truncate time
  | flush time => exact h'.flush time
  | stop => exact ⟨_, rfl, h'.withScript trivial⟩
  | backend world =>
      have hevent : .backend world ∈ events ++ [SessionEvent.backend world] := by
        simp
      obtain ⟨program, hstep, hinv⟩ := h'.backend hevent
      exact ⟨_, by rw [Session.step, hstep, Option.map_some], hinv⟩
  | signal =>
      exact ⟨_, rfl, h'.outside (e := .signal) (fun world => by simp) rfl rfl
        h'.query h'.script⟩
  | answer openError => exact ⟨_, rfl, h.answer openError⟩

theorem run (h : Invariant codec config db metricsFile initial events s)
    (more : List SessionEvent) :
    ∃ s', s.run codec config more = some s' ∧
      Invariant codec config db metricsFile initial (events ++ more) s' := by
  induction more using List.reverseRecOn with
  | nil => exact ⟨s, rfl, by simpa using h⟩
  | append_singleton more e ih =>
      obtain ⟨s₁, hrun, hinv⟩ := ih
      obtain ⟨s', hstep, hinv'⟩ := hinv.step e
      rw [List.append_assoc] at hinv'
      exact ⟨s', by rw [run_snoc, hrun]; exact hstep, hinv'⟩

end Invariant

theorem invariant_start (codec : Codec) {config : Config} {db : SQLiteManager}
    (time : Int) (metricsFile initial : Option Text) :
    Invariant codec config db metricsFile initial []
      (start initial (Program.watching config db time metricsFile)) where
  program := ⟨[], Program.invariant_watching config db time metricsFile,
    by simp⟩
  userPrompt bytes hbytes := Or.inl hbytes
  script := trivial
  query := Or.inl rfl
  executed q hq := by simp [start, Program.watching] at hq
  answered before message after hsplit := by simp [start] at hsplit

/-- In every order of the steps, each answer of the chat shows an empty display
or the report on a query that was made of the reply to a question and answered
by the database.  The question stands before the answer unless it was in the
prompt file from the start.  The exception is an answer for which the display
could not be opened. -/
theorem answers_trace_back (codec : Codec) {config : Config} {rc time : Int}
    {sqlite : Sqlite} {metricsFile : Option Text} {program : Program}
    (hstart : Program.start config rc sqlite time metricsFile = .ok program)
    (initial : Option Text) (events : List SessionEvent) :
    ∃ s, (start initial program).run codec config events = some s ∧
      ∀ before message after,
        s.chat.messages = before ++ message :: after →
        message.role = .assistant →
          AnswersQuestion codec program.simulator.db initial events before
            message.content := by
  obtain rfl := Program.start_eq_ok hstart
  obtain ⟨s, hrun, hinv⟩ := (invariant_start codec time metricsFile
    initial).run events
  exact ⟨s, hrun, hinv.answered⟩

/-- A language model that always gives the same reply. -/
def constantModel (reply : Str) : OllamaRequest → Option OllamaResult :=
  fun _ => some { response := some reply }

/-- The steps of a session in which the chat looks before `text_to_sql.py` has
written its query. -/
def earlyAnswer : List SessionEvent :=
  [.ask "List all students".toList true, .backend Program.oneRowWorld,
    .translate (constantModel "SELECT * FROM students;".toList),
    .truncate 1001, .backend Program.oneRowWorld, .answer none, .flush 1001]

/-- The display is still empty, and so is the answer. -/
theorem answers_trace_back_early :
    ∃ s, Program.start Config.source SQLITE_OK QueryLoop.oneRow 1000 none =
        .ok Program.oneRowProgram ∧
      (start none Program.oneRowProgram).run asciiCodec Config.source
        earlyAnswer = some s ∧
      s.chat.messages =
        [{ role := .user, content := "List all students".toList },
          { role := .assistant, content := [] }] ∧
      AnswersQuestion asciiCodec Program.oneRowProgram.simulator.db none
        earlyAnswer [{ role := .user, content := "List all students".toList }]
        [] := by
  obtain ⟨s, hrun, hanswers⟩ := answers_trace_back asciiCodec
    Program.start_oneRow none earlyAnswer
  have hmessages : s.chat.messages =
      [{ role := .user, content := "List all students".toList },
        { role := .assistant, content := [] }] := by
    have heval : ((start none Program.oneRowProgram).run asciiCodec
        Config.source earlyAnswer).map (fun s => s.chat.messages) =
          some [{ role := .user, content := "List all students".toList },
            { role := .assistant, content := [] }] := by
      decide
    rw [hrun] at heval
    exact Option.some.inj heval
  refine ⟨s, Program.start_oneRow, hrun, hmessages, ?_⟩
  exact hanswers _ { role := .assistant, content := [] } [] hmessages rfl

end Session
end BufferSim
