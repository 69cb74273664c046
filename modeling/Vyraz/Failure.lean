import Vyraz.Expr.Eval
import Vyraz.Expr.Parse
import Vyraz.Token.Scan

namespace Vyraz

inductive Failure where
  | lexical (errors : List LexError)
  | grammar (error : ParseError)
  | evaluation (error : EvalError)

inductive Stage where
  | reading
  | running
deriving DecidableEq, Repr

def Stage.exitCode : Stage → Nat
  | reading => 65
  | running => 70

namespace Failure

def stage : Failure → Stage
  | lexical _ => .reading
  | grammar _ => .reading
  | evaluation _ => .running

def exitCode (f : Failure) : Nat :=
  f.stage.exitCode

def line : Failure → Nat
  | lexical [] => 1
  | lexical (e :: _) => e.line
  | grammar e => e.token.line
  | evaluation e => e.token.line

def message : Failure → String
  | lexical errors => "\n".intercalate (errors.map LexError.message)
  | grammar e => e.message
  | evaluation e => e.message

def cause? : Failure → Option String
  | lexical _ => none
  | grammar e => some e.cause.message
  | evaluation e => some e.cause.message

end Failure

def parse (source : String) : Except Failure Expr :=
  match tokenize source with
  | .error errors => .error (.lexical errors)
  | .ok tokens =>
    match Expr.ofTokens tokens with
    | .error e => .error (.grammar e)
    | .ok expr => .ok expr

def run (source : String) : Except Failure Value :=
  match parse source with
  | .error f => .error f
  | .ok expr =>
    match expr.eval with
    | .error e => .error (.evaluation e)
    | .ok value => .ok value

end Vyraz
