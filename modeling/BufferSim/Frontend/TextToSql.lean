import BufferSim.Python.Str

/-!
# From an English question to `query.sql`

`text_to_sql.py` asks a language model for a query and writes the answer to the
`query.sql` that the backend polls.  The answer may stand in a markdown fence,
which `clean_sql` takes off.

The service behind the request is a parameter: any function from requests to
results.
-/

namespace BufferSim

open Python

/-- The body of the POST request, before it is encoded as JSON. -/
structure OllamaRequest where
  model : Str
  prompt : Str
  stream : Bool
  deriving DecidableEq, Repr

/-- The decoded answer, with its `response` field when it has one. -/
structure OllamaResult where
  response : Option Str
  deriving DecidableEq, Repr

namespace TextToSql

/-- `read_user_prompt`, on the text of the file or on no file. -/
def readUserPrompt (file : Option Str) : Option Str :=
  file.map Str.strip

def schema : Str :=
  "\n    Tables:\n".toList ++
  "    students(id, name, roll_no, department, semester, cgpa, ".toList ++
  "email, phone)\n".toList ++
  "    courses(id, code, title, department, credits, instructor, ".toList ++
  "semester, max_seats)\n".toList ++
  "    enrollments(id, student_id, course_id, grade, year, marks, ".toList ++
  "attendance_pct)\n".toList ++
  "    library_books(id, isbn, title, author, genre, published_year, ".toList ++
  "available_copies, total_copies)\n    ".toList

def prompt (englishQuery : Str) : Str :=
  "You are an expert SQL developer. ".toList ++
  "Convert the following English text into an SQL query. ".toList ++
  "Return ONLY the SQL query. ".toList ++
  "Do not include markdown formatting, backticks, or any explanations.\n\n".toList ++
  "Database Schema:\n".toList ++ schema ++ "\n\n".toList ++
  "English Text: ".toList ++ englishQuery ++ "\n\n".toList ++
  "SQL Query:".toList

/-- `get_sql_from_ollama`; a request that raises an exception has no result. -/
def getSqlFromOllama (ollama : OllamaRequest → Option OllamaResult)
    (englishQuery model : Str) : Option Str :=
  let data : OllamaRequest :=
    { model := model, prompt := prompt englishQuery, stream := false }
  (ollama data).map fun result => Str.strip (result.response.getD [])

def fence : Str := "```".toList

def sqlFence : Str := "```sql".toList

/-- `clean_sql`. -/
def cleanSql (sqlQuery : Str) : Str :=
  let opened :=
    if Str.startswith sqlQuery sqlFence then Str.sliceFrom sqlQuery 6
    else if Str.startswith sqlQuery fence then Str.sliceFrom sqlQuery 3
    else sqlQuery
  let closed :=
    if Str.endswith opened fence then Str.sliceToLast opened 3 else opened
  Str.strip closed

/-- `main`: what is written to `query.sql`, if anything is. -/
def main (userPrompt : Option Str)
    (ollama : OllamaRequest → Option OllamaResult) : Option Str :=
  match readUserPrompt userPrompt with
  | none => none
  | some englishQuery =>
      if englishQuery = [] then none
      else
        match getSqlFromOllama ollama englishQuery "llama3".toList with
        | none => none
        | some sqlQuery =>
            if sqlQuery = [] then none
            else some (cleanSql sqlQuery ++ "\n".toList)

end TextToSql

/-! ## What a language model answers -/

def backtick : Char := Char.ofNat 96

/-- A text in a markdown fence with a language tag. -/
def fenced (tag body : Str) : Str :=
  TextToSql.fence ++
    (tag ++ ("\n".toList ++ (body ++ ("\n".toList ++ TextToSql.fence))))

/-- A query as it stands, or a query in a fence with a language tag. -/
inductive Reply where
  | plain (text : Str) (unquoted : backtick ∉ text)
  | fenced (tag body : Str) (letters : ∀ c ∈ tag, c.isAlpha = true)
      (unquoted : backtick ∉ body)

namespace Reply

/-- The reply as the language model sends it. -/
def text : Reply → Str
  | plain text _ => text
  | fenced tag body _ _ => BufferSim.fenced tag body

/-- The query that the reply carries. -/
def sql : Reply → Str
  | plain text _ => Str.strip text
  | fenced _ body _ _ => Str.strip body

/-- The fences that `clean_sql` knows. -/
def KnownFence : Reply → Prop
  | plain _ _ => True
  | fenced tag _ _ _ => tag = [] ∨ tag = "sql".toList

instance : DecidablePred KnownFence
  | plain _ _ => inferInstanceAs (Decidable True)
  | fenced tag _ _ _ =>
      inferInstanceAs (Decidable (tag = [] ∨ tag = "sql".toList))

end Reply

/-! ## Taking off the fence -/

namespace TextToSql

theorem sqlFence_eq : sqlFence = fence ++ "sql".toList := by decide

/-- A text that starts with a fence has a backtick. -/
theorem not_prefix_of_unquoted {start s : Str} (hstart : backtick ∈ start)
    (hs : backtick ∉ s) : ¬ start <+: s :=
  fun h => hs (h.mem hstart)

theorem not_suffix_of_unquoted {ending s : Str} (hending : backtick ∈ ending)
    (hs : backtick ∉ s) : ¬ ending <:+ s :=
  fun h => hs (h.mem hending)

theorem cleanSql_of_unquoted {s : Str} (hs : backtick ∉ s) :
    cleanSql s = Str.strip s := by
  have hsql : ¬ sqlFence <+: s := not_prefix_of_unquoted (by decide) hs
  have hopen : ¬ fence <+: s := not_prefix_of_unquoted (by decide) hs
  have hclose : ¬ fence <:+ s := not_suffix_of_unquoted (by decide) hs
  simp [cleanSql, hsql, hopen, hclose]

/-- The closing fence is taken off. -/
theorem close_fence (s : Str) :
    (if Str.endswith (s ++ fence) fence = true then
      Str.sliceToLast (s ++ fence) 3 else s ++ fence) = s := by
  rw [if_pos (Str.endswith_iff.mpr (List.suffix_append s fence))]
  exact Str.sliceToLast_append_length s fence

theorem cleanSql_sqlFence (s : Str) :
    cleanSql (sqlFence ++ (s ++ fence)) = Str.strip s := by
  have hopen : Str.sliceFrom (sqlFence ++ (s ++ fence)) 6 = s ++ fence :=
    Str.sliceFrom_append_length sqlFence (s ++ fence)
  rw [cleanSql, if_pos (Str.startswith_iff.mpr (List.prefix_append _ _)), hopen]
  exact congrArg Str.strip (close_fence s)

theorem cleanSql_fence {s : Str} (hsql : ¬ sqlFence <+: fence ++ (s ++ fence)) :
    cleanSql (fence ++ (s ++ fence)) = Str.strip s := by
  have hopen : Str.sliceFrom (fence ++ (s ++ fence)) 3 = s ++ fence :=
    Str.sliceFrom_append_length fence (s ++ fence)
  rw [cleanSql, if_neg (fun h => hsql (Str.startswith_iff.mp h)),
    if_pos (Str.startswith_iff.mpr (List.prefix_append _ _)), hopen]
  exact congrArg Str.strip (close_fence s)

/-- What `clean_sql` leaves of a language tag. -/
def leftover (tag : Str) : Str :=
  if "sql".toList <+: tag then tag.drop 3 else tag

theorem leftover_eq_nil_iff {tag : Str} :
    leftover tag = [] ↔ tag = [] ∨ tag = "sql".toList := by
  rw [leftover]
  split
  · next hsql =>
      obtain ⟨rest, rfl⟩ := hsql
      have hdrop : ("sql".toList ++ rest).drop 3 = rest := rfl
      rw [hdrop]
      simp
  · next hsql =>
      constructor
      · exact Or.inl
      · rintro (hnil | rfl)
        · exact hnil
        · exact absurd List.prefix_rfl hsql

theorem isspace_newline : ∀ c ∈ "\n".toList, Str.isspace c = true :=
  List.all_eq_true.mp (by decide)

/-- The line break before the closing fence goes, and the rest of the tag stays
in front of the query. -/
theorem cleanSql_fenced (tag body : Str) :
    cleanSql (fenced tag body) =
      Str.strip (leftover tag ++ "\n".toList ++ body) := by
  rw [leftover]
  split
  · next hsql =>
      obtain ⟨rest, rfl⟩ := hsql
      have hopen : fenced ("sql".toList ++ rest) body =
          sqlFence ++ (rest ++ "\n".toList ++ body ++ "\n".toList ++ fence) := by
        rw [fenced, sqlFence_eq]
        simp only [List.append_assoc]
      have hdrop : ("sql".toList ++ rest).drop 3 = rest := rfl
      rw [hopen, cleanSql_sqlFence, Str.strip_append_right isspace_newline, hdrop]
  · next hsql =>
      have hopen : fenced tag body =
          fence ++ (tag ++ "\n".toList ++ body ++ "\n".toList ++ fence) := by
        rw [fenced]
        simp only [List.append_assoc]
      have hnot : ¬ sqlFence <+:
          fence ++ (tag ++ "\n".toList ++ body ++ "\n".toList ++ fence) := by
        rw [← hopen, fenced, sqlFence_eq, List.prefix_append_right_inj]
        intro h
        exact hsql (Str.prefix_of_prefix_append_cons (by decide) h)
      rw [hopen, cleanSql_fence hnot, Str.strip_append_right isspace_newline]

theorem mem_of_mem_leftover {tag : Str} {c : Char} (hc : c ∈ leftover tag) :
    c ∈ tag := by
  rw [leftover] at hc
  split at hc
  · exact List.mem_of_mem_drop hc
  · exact hc

/-- The query comes out alone exactly if nothing is left of the tag. -/
theorem cleanSql_fenced_eq_iff {tag body : Str}
    (hletters : ∀ c ∈ tag, c.isAlpha = true) :
    cleanSql (fenced tag body) = Str.strip body ↔
      tag = [] ∨ tag = "sql".toList := by
  rw [cleanSql_fenced, Str.strip_append_left_iff, ← leftover_eq_nil_iff]
  constructor
  · intro hspace
    refine List.eq_nil_iff_forall_not_mem.mpr ?_
    intro c hc
    have hletter := Str.isspace_of_isAlpha (hletters c (mem_of_mem_leftover hc))
    rw [hspace c (List.mem_append_left _ hc)] at hletter
    exact Bool.noConfusion hletter
  · intro hnil
    rw [hnil, List.nil_append]
    exact isspace_newline

/-! ## What reaches `query.sql` -/

/-- The service answers the question of the prompt file with the text. -/
def Answered (userPrompt : Option Str)
    (ollama : OllamaRequest → Option OllamaResult) (text : Str) : Prop :=
  ∃ englishQuery, readUserPrompt userPrompt = some englishQuery ∧
    englishQuery ≠ [] ∧
    getSqlFromOllama ollama englishQuery "llama3".toList = some text

theorem main_of_answered {userPrompt : Option Str}
    {ollama : OllamaRequest → Option OllamaResult} {text : Str}
    (h : Answered userPrompt ollama text) (hne : text ≠ []) :
    main userPrompt ollama = some (cleanSql text ++ "\n".toList) := by
  obtain ⟨englishQuery, hprompt, hquery, hreply⟩ := h
  simp only [main, hprompt, if_neg hquery, hreply, if_neg hne]

end TextToSql

open TextToSql

theorem Reply.cleanSql_text_iff (reply : Reply) :
    cleanSql reply.text = reply.sql ↔ reply.KnownFence := by
  cases reply with
  | plain text unquoted =>
      exact iff_of_true (cleanSql_of_unquoted unquoted) trivial
  | fenced tag body letters unquoted => exact cleanSql_fenced_eq_iff letters

/-- `clean_sql` finds the query of a reply, and `query.sql` gets that query
alone, exactly if the reply has no fence, a fence without a tag, or a fence with
the tag `sql`. -/
theorem clean_sql_iff (reply : Reply) :
    (cleanSql reply.text = reply.sql ↔ reply.KnownFence) ∧
      ∀ userPrompt ollama, Answered userPrompt ollama reply.text →
        reply.text ≠ [] →
          (main userPrompt ollama = some (reply.sql ++ "\n".toList) ↔
            reply.KnownFence) := by
  refine ⟨reply.cleanSql_text_iff, ?_⟩
  intro userPrompt ollama hanswered hne
  rw [main_of_answered hanswered hne, Option.some_inj,
    List.append_cancel_right_eq, reply.cleanSql_text_iff]

/-- A query in a fence with the tag. -/
def studentsReply (tag : Str) (letters : tag.all Char.isAlpha = true) : Reply :=
  .fenced tag "SELECT * FROM students;".toList (List.all_eq_true.mp letters)
    (by decide)

theorem clean_sql_iff_students :
    main (some "List all students\n".toList) (fun _ =>
        some { response := some "```sql\nSELECT * FROM students;\n```\n".toList }) =
      some "SELECT * FROM students;\n".toList :=
  ((clean_sql_iff (studentsReply "sql".toList (by decide))).2 _ _
    ⟨"List all students".toList, by decide, by decide, by decide⟩
    (by decide)).mpr (Or.inr rfl)

/-- With the tag in upper case the tag stays in front of the query. -/
theorem clean_sql_upper_case_tag :
    cleanSql "```SQL\nSELECT * FROM students;\n```".toList =
        "SQL\nSELECT * FROM students;".toList ∧
      main (some "List all students\n".toList) (fun _ =>
          some { response := some "```SQL\nSELECT * FROM students;\n```\n".toList }) =
        some "SQL\nSELECT * FROM students;\n".toList ∧
      ¬ ∀ reply : Reply, cleanSql reply.text = reply.sql := by
  refine ⟨by decide, by decide, ?_⟩
  intro h
  exact absurd (h (studentsReply "SQL".toList (by decide))) (by decide)

end BufferSim
