import Vyraz.Failure
import Vyraz.Text.Location

/-!
This module contains the reports of errors against a source text. A report has a header, the place
of the error in the source and a label for that place.

A label covers at least one byte. A label that begins or ends inside a character, or that reaches
exactly one byte beyond the source, cannot be placed: printing crashes once the header is written. A
label beyond that is left out.
-/

namespace Vyraz

structure Diagnostic where
  header : String
  label : String
  span : Span

structure Report where
  text : String
  crashed : Bool
deriving DecidableEq, Repr

namespace Diagnostic

inductive Extent where
  | full
  | headerOnly
  | crash
deriving DecidableEq, Repr

def lastByte (d : Diagnostic) : Nat :=
  max d.span.stop (d.span.start + 1) - 1

def extent (d : Diagnostic) (source : List Char) : Extent :=
  let length := Text.size source
  if length < d.span.start then
    .headerOnly
  else if !Text.isBoundary d.span.start source then
    .crash
  else if length < d.lastByte then
    .headerOnly
  else if !Text.isBoundary (d.lastByte + 1) source then
    .crash
  else
    .full

def headerLine (d : Diagnostic) : String :=
  s!"Error: {d.header}\n"

def placeLines (d : Diagnostic) (name : String) (source : List Char) : String :=
  let place := Text.locate d.span.start source
  s!"  at {name}:{place.line}:{place.column}\n  label: {d.label}\n"

def print (d : Diagnostic) (name : String) (source : List Char) : Report :=
  match d.extent source with
  | .full => ⟨d.headerLine ++ d.placeLines name source, false⟩
  | .headerOnly => ⟨d.headerLine, false⟩
  | .crash => ⟨d.headerLine, true⟩

end Diagnostic

namespace Report

def ofDiagnostics (name : String) (source : List Char) (ds : List Diagnostic) : Report :=
  go "" ds
where
  go (text : String) : List Diagnostic → Report
    | [] => ⟨text, false⟩
    | d :: ds =>
      let printed := d.print name source
      if printed.crashed then ⟨text ++ printed.text, true⟩ else go (text ++ printed.text) ds

end Report

namespace LexError

def label (e : LexError) (source : List Char) : String :=
  match e.cause with
  | .unexpectedCharacter =>
    let found := (Text.slice? e.span.start e.span.stop source).getD []
    s!"'{String.ofList found}' is not part of the language"
  | .unterminatedString => "This string is never closed"

def diagnostic (e : LexError) (source : List Char) : Diagnostic :=
  ⟨s!"[line {e.line}] {e.cause.message}", e.label source, e.span⟩

end LexError

namespace ParseCause

def label : ParseCause → String
  | expectExpression => "Expected a number, string, literal or '('"
  | unclosedGrouping => "Expected ')' here"
  | trailingInput => "Nothing may follow the expression"
  | tooDeep => "Nesting limit reached here"

end ParseCause

def ParseError.diagnostic (e : ParseError) : Diagnostic :=
  ⟨e.message, e.cause.label, e.token.span⟩

def EvalError.diagnostic (e : EvalError) : Diagnostic :=
  ⟨s!"[line {e.token.line}] {e.cause.message}", s!"Operator '{e.token.lexeme}' failed here",
    e.token.span⟩

namespace Failure

def diagnostics (f : Failure) (source : List Char) : List Diagnostic :=
  match f with
  | lexical errors => errors.map fun e => e.diagnostic source
  | grammar e => [e.diagnostic]
  | evaluation e => [e.diagnostic]

def report (f : Failure) (name source : String) : Report :=
  Report.ofDiagnostics name source.toList (f.diagnostics source.toList)

end Failure
end Vyraz
