import Vyraz.Prompt.Balance
import Vyraz.Prompt.Command
import Vyraz.Prompt.History
import Vyraz.Prompt.Settings
import Vyraz.Text.Backspace

/-!
This module contains the prompt as a process that is fed one line after the other. A session gathers
lines in its buffer until they balance; then the buffer is one input, which is recorded and carried
out, and the buffer is empty again. Backspaces take effect in the whole buffer after each line.
-/

namespace Vyraz.Prompt

structure Session where
  buffer : List Char
  history : History

inductive Next where
  | goesOn (session : Session)
  | ends (history : History)
  | crashes

structure Turn where
  transcript : Transcript
  next : Next

namespace Session

def start (history : History) : Session := ⟨[], history⟩

def banner : String :=
  "Mova REPL v0.1.0\nType 'exit' or press Ctrl-D to quit. "
    ++ "':tokens <src>' and ':ast <src>' inspect input.\n"

def noHistory : String := "No previous history.\n"

def isExit (input : List Char) : Bool :=
  sameUpToCase input ['e', 'x', 'i', 't']

def accept (history : History) (input : List Char) : Turn :=
  let history := history.add input
  let command := Text.trim input
  if command.isEmpty then
    ⟨.empty, .goesOn (start history)⟩
  else if isExit command then
    ⟨.empty, .ends history⟩
  else
    let transcript := execute (String.ofList command)
    ⟨transcript, if transcript.crashed then .crashes else .goesOn (start history)⟩

def judge (history : History) (buffer lineEnd : List Char) : Turn :=
  let balance := Balance.ofText (String.ofList buffer)
  match balance with
  | .complete => accept history buffer
  | .incomplete => ⟨.empty, .goesOn ⟨buffer ++ lineEnd, history⟩⟩
  | .unmatched _ => ⟨.ofErrors (balance.complaint?.getD ""), .goesOn ⟨buffer, history⟩⟩

def feedText (s : Session) (line : List Char) : Turn :=
  let (buffer, lineEnd) := Text.cutLineEnd (s.buffer ++ line)
  match Text.applyBackspaces? buffer with
  | some buffer => judge s.history buffer lineEnd
  | none => ⟨.empty, .crashes⟩

def undecodable : String :=
  "Readline Error: Io(Error \x7b kind: InvalidData, "
    ++ "message: \"stream did not contain valid UTF-8\" \x7d)\n"

def feed (s : Session) : Option (List Char) → Turn
  | some line => s.feedText line
  | none => ⟨.ofErrors undecodable, .ends s.history⟩

def close (s : Session) : Turn :=
  ⟨.ofOutput "\nExiting.\n", .ends s.history⟩

def question : String := "> "

def ask (s : Session) (plain : Bool) : Transcript :=
  if plain && s.buffer.isEmpty then .ofOutput question else .empty

def run (s : Session) (plain : Bool) (lines : List (Option (List Char))) :
    Transcript × Option History :=
  go s lines .empty
where
  go (s : Session) (lines : List (Option (List Char))) (soFar : Transcript) :
      Transcript × Option History :=
    let soFar := soFar ++ s.ask plain
    match lines with
    | [] => (soFar ++ s.close.transcript, some s.history)
    | line :: lines =>
      let turn := s.feed line
      match turn.next with
      | .goesOn s => go s lines (soFar ++ turn.transcript)
      | .ends history => (soFar ++ turn.transcript, some history)
      | .crashes => (soFar ++ turn.transcript, none)

end Session
end Vyraz.Prompt
