import Vyraz.Token.Basic

namespace Vyraz

inductive LexCause where
  | unexpectedCharacter
  | unterminatedString
deriving DecidableEq, Repr

namespace LexCause

def message : LexCause → String
  | unexpectedCharacter => "Unexpected character."
  | unterminatedString => "Unterminated string."

end LexCause

structure LexError where
  cause : LexCause
  span : Span
  line : Nat
deriving DecidableEq, Repr

namespace LexError

def message (e : LexError) : String :=
  s!"[line {e.line}] Error: {e.cause.message}"

end LexError

end Vyraz
