import Vyraz.Expr.Render
import Vyraz.Report
import Vyraz.Text.Space

namespace Vyraz.Prompt

inductive Command where
  | tokens (source : String)
  | tree (source : String)
  | evaluate (source : String)
deriving DecidableEq, Repr

namespace Command

def after? (word cs : List Char) : Option (List Char) :=
  if word.isPrefixOf cs then some (cs.drop word.length) else none

def ofInput (input : String) : Command :=
  match after? ":tokens".toList input.toList with
  | some rest => tokens (String.ofList (Text.trimStart rest))
  | none =>
    match after? ":ast".toList input.toList with
    | some rest => tree (String.ofList (Text.trimStart rest))
    | none => evaluate input

end Command

structure Transcript where
  output : String
  errors : String
  crashed : Bool
deriving DecidableEq, Repr

namespace Transcript

def empty : Transcript := ⟨"", "", false⟩

def ofOutput (text : String) : Transcript := ⟨text, "", false⟩

def ofErrors (text : String) : Transcript := ⟨"", text, false⟩

def ofReport (r : Report) : Transcript := ⟨"", r.text, r.crashed⟩

def append (first second : Transcript) : Transcript :=
  ⟨first.output ++ second.output, first.errors ++ second.errors, second.crashed⟩

instance : Append Transcript := ⟨append⟩

end Transcript

def sourceName : String := "REPL"

def listing (tokens : List Token) : String :=
  tokens.foldl (fun out t => out ++ t.dump ++ "\n") ""

namespace Command

def execute : Command → Transcript
  | tokens source =>
    let scanned := scan source
    let report := Report.ofDiagnostics sourceName source.toList
      (scanned.errors.map fun e => e.diagnostic source.toList)
    ⟨listing scanned.tokens, report.text, report.crashed⟩
  | tree source =>
    match parse source with
    | .ok expr => .ofOutput (expr.render ++ "\n")
    | .error f => .ofReport (f.report sourceName source)
  | evaluate source =>
    match run source with
    | .ok value => .ofOutput (value.text ++ "\n")
    | .error f => .ofReport (f.report sourceName source)

end Command

def execute (input : String) : Transcript :=
  (Command.ofInput input).execute

end Vyraz.Prompt
