import Vyraz.Expr.Basic

/-!
This module contains the reading of expressions from tokens.

The reader takes one token at a time and never looks ahead. Between two tokens it either waits for
an operand or has just read one; what is still open in front of that place is a stack of frames.
Unary operators are closed as soon as their operand is read, binary ones when an operator follows
that binds no tighter, and groupings at their parenthesis.
-/

namespace Vyraz

inductive ParseCause where
  | expectExpression
  | unclosedGrouping
  | trailingInput
  | tooDeep
deriving DecidableEq, Repr

namespace ParseCause

def message : ParseCause → String
  | expectExpression => "Expect expression."
  | unclosedGrouping => "Expect ')' after expression."
  | trailingInput => "Expect end of expression."
  | tooDeep => "Too much nesting."

end ParseCause

structure ParseError where
  cause : ParseCause
  token : Token

namespace ParseError

def location (e : ParseError) : String :=
  if e.token.kind.isEof then "at end" else s!"at '{e.token.lexeme}'"

def message (e : ParseError) : String :=
  s!"[line {e.token.line}] Error {e.location}: {e.cause.message}"

end ParseError

namespace Parse

def maxDepth : Nat := 64

inductive Frame where
  | group
  | unary (op : UnaryOp) (token : Token)
  | binary (left : Expr) (op : BinaryOp) (token : Token)

namespace Frame

def isGroup : Frame → Bool
  | group => true
  | _ => false

def isNesting : Frame → Bool
  | binary .. => false
  | _ => true

end Frame

inductive State where
  | operand (stack : List Frame)
  | operator (stack : List Frame) (left : Expr)

def depth (stack : List Frame) : Nat :=
  stack.countP Frame.isNesting

def complete : List Frame → Expr → State
  | .unary op token :: stack, e => complete stack (.unary op token e)
  | stack, e => .operator stack e

def reduce (precedence : Nat) : List Frame → Expr → List Frame × Expr
  | .binary left op token :: stack, e =>
    if precedence ≤ op.precedence then
      reduce precedence stack (.binary left op token e)
    else
      (.binary left op token :: stack, e)
  | stack, e => (stack, e)

def literal? : Kind → Option Value
  | .keyword .falsehood => some (.bool false)
  | .keyword .truth => some (.bool true)
  | .keyword .nothing => some .nil
  | .number x => some (.number x)
  | .string s => some (.string s)
  | _ => none

def opening? (token : Token) : Option Frame :=
  match token.kind with
  | .symbol .leftParen => some .group
  | kind => (UnaryOp.ofKind? kind).map fun op => .unary op token

def fits (limit : Option Nat) (stack : List Frame) : Bool :=
  limit.all fun n => depth stack < n

def takeOperand (limit : Option Nat) (stack : List Frame) (token : Token) :
    Except ParseError State :=
  match literal? token.kind with
  | some value => .ok (complete stack (.literal value))
  | none =>
    match opening? token with
    | some frame =>
      if fits limit stack then .ok (.operand (frame :: stack)) else .error ⟨.tooDeep, token⟩
    | none => .error ⟨.expectExpression, token⟩

def stopCause (stack : List Frame) : ParseCause :=
  if stack.any Frame.isGroup then .unclosedGrouping else .trailingInput

def takeOperator (stack : List Frame) (left : Expr) (token : Token) : Except ParseError State :=
  match BinaryOp.ofKind? token.kind with
  | some op =>
    let (stack, left) := reduce op.precedence stack left
    .ok (.operand (.binary left op token :: stack))
  | none =>
    match token.kind, reduce 0 stack left with
    | .symbol .rightParen, (.group :: stack, inner) => .ok (complete stack (.group inner))
    | _, _ => .error ⟨stopCause stack, token⟩

def step (limit : Option Nat) (state : State) (token : Token) : Except ParseError State :=
  match state with
  | .operand stack => takeOperand limit stack token
  | .operator stack left => takeOperator stack left token

def finish (stop : Token) : State → Except ParseError Expr
  | .operand _ => .error ⟨.expectExpression, stop⟩
  | .operator stack left =>
    match reduce 0 stack left with
    | ([], e) => .ok e
    | _ => .error ⟨.unclosedGrouping, stop⟩

def body (tokens : List Token) : List Token :=
  tokens.takeWhile fun t => !t.kind.isEof

def stop (tokens : List Token) : Token :=
  match tokens.find? fun t => t.kind.isEof with
  | some t => t
  | none =>
    match tokens.getLast? with
    | some last => ⟨.eof, "", ⟨last.span.stop, last.span.stop⟩, last.line⟩
    | none => ⟨.eof, "", ⟨0, 0⟩, 1⟩

def within (limit : Option Nat) (tokens : List Token) : Except ParseError Expr :=
  match (body tokens).foldlM (step limit) (.operand []) with
  | .ok state => finish (stop tokens) state
  | .error err => .error err

end Parse

def Expr.ofTokens (tokens : List Token) : Except ParseError Expr :=
  Parse.within (some Parse.maxDepth) tokens

end Vyraz
