import Vyraz.Expr.Basic

namespace Vyraz

inductive EvalCause where
  | operandNotNumber
  | operandsNotNumbers
  | operandsNotNumbersOrStrings
deriving DecidableEq, Repr

namespace EvalCause

def message : EvalCause → String
  | operandNotNumber => "Operand must be a number."
  | operandsNotNumbers => "Operands must be numbers."
  | operandsNotNumbersOrStrings => "Operands must be two numbers or two strings."

end EvalCause

structure EvalError where
  cause : EvalCause
  token : Token

namespace EvalError

def message (e : EvalError) : String :=
  s!"{e.cause.message}\n[line {e.token.line}]"

end EvalError

def UnaryOp.apply (op : UnaryOp) (token : Token) (operand : Value) : Except EvalError Value :=
  match op, operand with
  | negate, .number x => .ok (.number (-x))
  | negate, _ => .error ⟨.operandNotNumber, token⟩
  | not, v => .ok (.bool !v.truthy)

namespace BinaryOp

def onNumbers (f : Float → Float → Value) (token : Token) (left right : Value) :
    Except EvalError Value :=
  match left, right with
  | .number x, .number y => .ok (f x y)
  | _, _ => .error ⟨.operandsNotNumbers, token⟩

def apply (op : BinaryOp) (token : Token) (left right : Value) : Except EvalError Value :=
  match op with
  | add =>
    match left, right with
    | .number x, .number y => .ok (.number (x + y))
    | .string s, .string t => .ok (.string (s ++ t))
    | _, _ => .error ⟨.operandsNotNumbersOrStrings, token⟩
  | subtract => onNumbers (fun x y => .number (x - y)) token left right
  | multiply => onNumbers (fun x y => .number (x * y)) token left right
  | divide => onNumbers (fun x y => .number (x / y)) token left right
  | greater => onNumbers (fun x y => .bool (y < x)) token left right
  | greaterEqual => onNumbers (fun x y => .bool (y ≤ x)) token left right
  | less => onNumbers (fun x y => .bool (x < y)) token left right
  | lessEqual => onNumbers (fun x y => .bool (x ≤ y)) token left right
  | equal => .ok (.bool (left == right))
  | notEqual => .ok (.bool (left != right))

end BinaryOp

namespace Expr

mutual

def eval (e : Expr) : Except EvalError Value :=
  match e with
  | literal value => .ok value
  | group inner => eval inner
  | unary op token operand =>
    match eval operand with
    | .ok v => op.apply token v
    | .error err => .error err
  | binary left op token right =>
    let c := (binary left op token right).chain
    match eval c.1 with
    | .ok v => evalLinks v c.2
    | .error err => .error err
termination_by e.size
decreasing_by
  . simp only [size]; omega
  . simp only [size]; omega
  . exact chain_first_size_lt left op token right
  . exact chain_linksSize_lt _

def evalLinks (value : Value) (links : List Link) : Except EvalError Value :=
  match links with
  | [] => .ok value
  | link :: links =>
    match eval link.right with
    | .error err => .error err
    | .ok right =>
      match link.op.apply link.token value right with
      | .ok v => evalLinks v links
      | .error err => .error err
termination_by linksSize links
decreasing_by
  all_goals
    simp only [linksSize]
    omega

end

end Expr
end Vyraz
