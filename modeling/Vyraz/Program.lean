import Vyraz.Prompt.Session

namespace Vyraz

inductive FileError where
  | notFound
  | isDirectory
  | notDirectory
  | nameTooLong
deriving DecidableEq, Repr

namespace FileError

def code : FileError → Nat
  | notFound => 2
  | isDirectory => 21
  | notDirectory => 20
  | nameTooLong => 36

def reason : FileError → String
  | notFound => "No such file or directory"
  | isDirectory => "Is a directory"
  | notDirectory => "Not a directory"
  | nameTooLong => "File name too long"

def kindName : FileError → String
  | notFound => "NotFound"
  | isDirectory => "IsADirectory"
  | notDirectory => "NotADirectory"
  | nameTooLong => "InvalidFilename"

end FileError

structure Surroundings where
  arguments : List String
  editMode : Option String
  historyFile : Option String
  terminal : Option String
  input : ByteArray
  read : String → Except FileError ByteArray
  refusal? : String → Option FileError

structure Outcome where
  exitCode : Nat
  output : String
  errors : String
  saved? : Option (String × String)
deriving DecidableEq, Repr

namespace Program

def crashCode : Nat := 101

def usage : Outcome :=
  ⟨64, "Usage: mova [script]\n", "", none⟩

def unreadable (path reason : String) : Outcome :=
  ⟨66, "", s!"Could not read '{path}': {reason}\n", none⟩

def script (path source : String) : Outcome :=
  match run source with
  | .ok value => ⟨0, value.text ++ "\n", "", none⟩
  | .error failure =>
    let report := failure.report path source
    ⟨if report.crashed then crashCode else failure.exitCode, "", report.text, none⟩

def runFile (path : String) (contents : Except FileError ByteArray) : Outcome :=
  match contents with
  | .error e => unreadable path s!"{e.reason} (os error {e.code})"
  | .ok bytes =>
    match String.fromUTF8? bytes with
    | some source => script path source
    | none => unreadable path "stream did not contain valid UTF-8"

def unsavable (e : FileError) : String :=
  s!"Readline Error: Io(Os \x7b code: {e.code}, kind: {e.kindName}, message: \"{e.reason}\" \x7d)\n"

def save (path : String) (refusal? : Option FileError) (t : Prompt.Transcript)
    (history : Prompt.History) : Outcome :=
  if history.unsaved then
    match refusal? with
    | some e => ⟨74, t.output, t.errors ++ unsavable e, none⟩
    | none => ⟨0, t.output, t.errors, some (path, history.fileText)⟩
  else
    ⟨0, t.output, t.errors, none⟩

def loadHistory (contents : Except FileError ByteArray) : Prompt.History × Bool :=
  match contents with
  | .ok bytes => Prompt.History.ofFile bytes
  | .error _ => (.empty, false)

def greeting (loaded : Bool) : String :=
  Prompt.Session.banner ++ if loaded then "" else Prompt.Session.noHistory

def runPrompt (s : Surroundings) : Outcome :=
  let settings := Prompt.Settings.ofVariables s.editMode s.historyFile
  let (history, loaded) := loadHistory (s.read settings.historyFile)
  let (transcript, history?) :=
    (Prompt.Session.start history).run (Prompt.isPlain s.terminal) (Text.lines s.input)
  let transcript := .ofOutput (greeting loaded) ++ transcript
  match history? with
  | none => ⟨crashCode, transcript.output, transcript.errors, none⟩
  | some history =>
    save settings.historyFile (s.refusal? settings.historyFile) transcript history

def run (s : Surroundings) : Outcome :=
  match s.arguments with
  | [] => runPrompt s
  | [path] => runFile path (s.read path)
  | _ => usage

end Program
end Vyraz
