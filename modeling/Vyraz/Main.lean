import Vyraz.Program

namespace Vyraz.Terminal

/-- The kind of an error that came up with a file. Codes may come negated. -/
def fileError : IO.Error → FileError
  | .inappropriateType _ code _ =>
    if code = 20 || code = 0 - 20 then .notDirectory else .isDirectory
  | .invalidArgument .. => .nameTooLong
  | _ => .notFound

def readFile (path : String) : IO (Except FileError ByteArray) := do
  try
    return .ok (← IO.FS.readBinFile path)
  catch e => return .error (fileError e)

def write (t : Prompt.Transcript) : IO Unit := do
  IO.print t.output
  IO.eprint t.errors
  (← IO.getStdout).flush

def leave (outcome : Outcome) : IO UInt32 := do
  write ⟨outcome.output, outcome.errors, false⟩
  return outcome.exitCode.toUInt32

partial def converse (input : IO.FS.Stream) (plain : Bool) (session : Prompt.Session) :
    IO (Option Prompt.History) := do
  write (session.ask plain)
  let bytes ← readLine ByteArray.empty
  let turn := if bytes.isEmpty then session.close else session.feed (Text.decode? bytes.toList)
  write turn.transcript
  match turn.next with
  | .goesOn session => converse input plain session
  | .ends history => return some history
  | .crashes => return none
where
  readLine (line : ByteArray) : IO ByteArray := do
    let byte ← input.read 1
    if byte.isEmpty then
      return line
    else if byte.toList == [10] then
      return line ++ byte
    else
      readLine (line ++ byte)

def prompt : IO UInt32 := do
  let settings := Prompt.Settings.ofVariables (← IO.getEnv "MOVA_EDIT_MODE")
    (← IO.getEnv "MOVA_HISTORY")
  let (history, loaded) := Program.loadHistory (← readFile settings.historyFile)
  write (.ofOutput (Program.greeting loaded))
  let plain := Prompt.isPlain (← IO.getEnv "TERM")
  match ← converse (← IO.getStdin) plain (.start history) with
  | none => return Program.crashCode.toUInt32
  | some history =>
    let outcome := Program.save settings.historyFile none .empty history
    match outcome.saved? with
    | none => leave outcome
    | some (path, text) =>
      try
        IO.FS.writeFile path text
        leave outcome
      catch e => leave (Program.save path (some (fileError e)) .empty history)

end Vyraz.Terminal

open Vyraz Terminal

def main (arguments : List String) : IO UInt32 := do
  match arguments with
  | [] => prompt
  | [path] => leave (Program.runFile path (← readFile path))
  | _ => leave Program.usage
