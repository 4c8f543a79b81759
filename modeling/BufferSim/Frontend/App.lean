import BufferSim.Python.TextFile

/-!
# The chat

`app.py` saves each question to `user_prompt.txt`, waits, and shows whatever
`display.txt` holds then as the answer.
-/

namespace BufferSim

open Cxx Python

inductive Role where
  | user
  | assistant
  deriving DecidableEq, Repr

structure Message where
  role : Role
  content : Str
  deriving DecidableEq, Repr

/-- `st.session_state.messages`, whether the script sleeps before it reads the
display, and `user_prompt.txt`. -/
structure Chat where
  messages : List Message
  waiting : Bool
  userPrompt : Option Text
  deriving DecidableEq, Repr

namespace Chat

def displayFile : Str := "../backend/output/display.txt".toList

/-- The prompt file after `open(PROMPT_FILE, "w")` and `f.write(prompt)`.  A
prompt that cannot be encoded leaves the file empty. -/
def writePrompt (codec : Codec) (opens : Bool) (prompt : Str)
    (file : Option Text) : Option Text :=
  if opens then some ((codec.encode prompt).getD []) else file

/-- The script up to `time.sleep`, for a prompt that was entered. -/
def ask (codec : Codec) (opens : Bool) (prompt : Str) (s : Chat) : Chat :=
  if prompt = [] then s
  else
    { messages := s.messages ++ [{ role := .user, content := prompt }]
      waiting := true
      userPrompt := writePrompt codec opens prompt s.userPrompt }

/-- `response_text`, where `open` can raise an exception. -/
def responseText (codec : Codec) (openError : Option Str)
    (display : Option Text) : Str :=
  match display with
  | none =>
      "Backend output file '".toList ++ displayFile ++ "' not found.".toList
  | some bytes =>
      match openError with
      | some e =>
          "Error reading ".toList ++ displayFile ++ ": ".toList ++ e
      | none =>
          match codec.read bytes with
          | .ok text => text
          | .error e =>
              "Error reading ".toList ++ displayFile ++ ": ".toList ++ e

/-- The script after `time.sleep`. -/
def answer (codec : Codec) (openError : Option Str) (display : Option Text)
    (s : Chat) : Chat :=
  if s.waiting then
    { s with
      messages := s.messages ++
        [{ role := .assistant
           content := responseText codec openError display }]
      waiting := false }
  else s

end Chat
end BufferSim
