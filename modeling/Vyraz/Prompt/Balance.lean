import Vyraz.Token.Scan

namespace Vyraz.Prompt

inductive Balance where
  | complete
  | incomplete
  | unmatched (offset : Nat)
deriving DecidableEq, Repr

namespace Balance

def ofTokens : Nat → List Token → Balance
  | 0, [] => complete
  | _ + 1, [] => incomplete
  | depth, token :: tokens =>
    match token.kind, depth with
    | .symbol .leftParen, depth => ofTokens (depth + 1) tokens
    | .symbol .rightParen, 0 => unmatched token.span.start
    | .symbol .rightParen, depth + 1 => ofTokens depth tokens
    | _, depth => ofTokens depth tokens

/-- The balance of a text. An open string outweighs everything else. -/
def ofText (text : String) : Balance :=
  let scanned := scan text
  if scanned.errors.any fun e => e.cause = .unterminatedString then
    incomplete
  else
    ofTokens 0 scanned.tokens

def complaint? : Balance → Option String
  | unmatched offset => some s!"  - Unmatched ')' at position {offset}"
  | _ => none

end Balance
end Vyraz.Prompt
