import Vyraz.Token.Keyword
import Vyraz.Token.Symbol
import Vyraz.Value

namespace Vyraz

structure Span where
  start : Nat
  stop : Nat
deriving DecidableEq, Repr

inductive Kind where
  | symbol (s : Symbol)
  | identifier
  | string (contents : String)
  | number (value : Float)
  | keyword (k : Keyword)
  | eof
deriving BEq

namespace Kind

def name : Kind → String
  | symbol s => s.name
  | identifier => "IDENTIFIER"
  | string _ => "STRING"
  | number _ => "NUMBER"
  | keyword k => k.name
  | eof => "EOF"

def describe : Kind → String
  | symbol s => s.text
  | identifier => "identifier"
  | string contents => "\"" ++ contents ++ "\""
  | number value => Binary64.text value
  | keyword k => k.text
  | eof => "end of input"

def isKeyword : Kind → Bool
  | keyword _ => true
  | _ => false

def isEof : Kind → Bool
  | eof => true
  | _ => false

def literal? : Kind → Option Value
  | string contents => some (.string contents)
  | number value => some (.number value)
  | _ => none

end Kind

structure Token where
  kind : Kind
  lexeme : String
  span : Span
  line : Nat
deriving BEq

namespace Token

def dump (t : Token) : String :=
  let literal := match t.kind.literal? with
    | some v => v.text
    | none => "null"
  t.kind.name ++ " " ++ t.lexeme ++ " " ++ literal

end Token
end Vyraz
