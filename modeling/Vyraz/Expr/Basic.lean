import Vyraz.Token.Basic

/-!
This module contains expression trees and their operators.

Chains of binary operators nest to the left and may be very long. `Expr.chain` unrolls such a chain
into its first operand and its links in reading order; whoever walks a tree follows the links in a
loop and recurses only into operands.
-/

namespace Vyraz

inductive UnaryOp where
  | negate
  | not
deriving DecidableEq, Repr

namespace UnaryOp

def symbol : UnaryOp → Symbol
  | negate => .minus
  | not => .bang

def ofKind? : Kind → Option UnaryOp
  | .symbol .minus => some negate
  | .symbol .bang => some not
  | _ => none

theorem ofKind?_symbol (op : UnaryOp) : ofKind? (.symbol op.symbol) = some op := by
  cases op <;> rfl

end UnaryOp

inductive BinaryOp where
  | add
  | subtract
  | multiply
  | divide
  | greater
  | greaterEqual
  | less
  | lessEqual
  | equal
  | notEqual
deriving DecidableEq, Repr

namespace BinaryOp

def all : List BinaryOp :=
  [add, subtract, multiply, divide, greater, greaterEqual, less, lessEqual, equal, notEqual]

def symbol : BinaryOp → Symbol
  | add => .plus
  | subtract => .minus
  | multiply => .star
  | divide => .slash
  | greater => .greater
  | greaterEqual => .greaterEqual
  | less => .less
  | lessEqual => .lessEqual
  | equal => .equalEqual
  | notEqual => .bangEqual

def ofKind? : Kind → Option BinaryOp
  | .symbol .plus => some add
  | .symbol .minus => some subtract
  | .symbol .star => some multiply
  | .symbol .slash => some divide
  | .symbol .greater => some greater
  | .symbol .greaterEqual => some greaterEqual
  | .symbol .less => some less
  | .symbol .lessEqual => some lessEqual
  | .symbol .equalEqual => some equal
  | .symbol .bangEqual => some notEqual
  | _ => none

theorem ofKind?_symbol (op : BinaryOp) : ofKind? (.symbol op.symbol) = some op := by
  cases op <;> rfl

def precedence : BinaryOp → Nat
  | equal | notEqual => 0
  | greater | greaterEqual | less | lessEqual => 1
  | add | subtract => 2
  | multiply | divide => 3

end BinaryOp

inductive Expr where
  | literal (value : Value)
  | group (inner : Expr)
  | unary (op : UnaryOp) (token : Token) (operand : Expr)
  | binary (left : Expr) (op : BinaryOp) (token : Token) (right : Expr)

namespace Expr

structure Link where
  op : BinaryOp
  token : Token
  right : Expr

def size : Expr → Nat
  | literal _ => 1
  | group inner => inner.size + 1
  | unary _ _ operand => operand.size + 1
  | binary left _ _ right => left.size + right.size + 1

theorem size_pos (e : Expr) : 0 < e.size := by
  cases e <;> simp [size]

def linksSize : List Link → Nat
  | [] => 0
  | link :: links => link.right.size + 1 + linksSize links

def chain (e : Expr) : Expr × List Link :=
  go e []
where
  go : Expr → List Link → Expr × List Link
    | binary left op token right, links => go left (⟨op, token, right⟩ :: links)
    | first, links => (first, links)

theorem chain.go_size (e : Expr) (links : List Link) :
    (chain.go e links).1.size + linksSize (chain.go e links).2 = e.size + linksSize links := by
  fun_induction chain.go e links with
  | case1 left op token right links ih =>
    rw [ih]
    simp only [linksSize, size]
    omega
  | case2 => rfl

theorem chain_size (e : Expr) : e.chain.1.size + linksSize e.chain.2 = e.size := by
  rw [chain, chain.go_size, linksSize, Nat.add_zero]

theorem chain.go_first_size_le (e : Expr) (links : List Link) :
    (chain.go e links).1.size ≤ e.size := by
  fun_induction chain.go e links with
  | case1 left op token right links ih =>
    simp only [size]
    omega
  | case2 => exact Nat.le_refl _

theorem chain_first_size_lt (left : Expr) (op : BinaryOp) (token : Token) (right : Expr) :
    (binary left op token right).chain.1.size < (binary left op token right).size := by
  have := chain.go_first_size_le left [⟨op, token, right⟩]
  simp only [chain, chain.go, size]
  omega

theorem chain_linksSize_lt (e : Expr) : linksSize e.chain.2 < e.size := by
  have := chain_size e
  have := size_pos e.chain.1
  omega

def spine (e : Expr) : Expr × List Link :=
  (e.chain.1, e.chain.2.reverse)

inductive Node where
  | literal (value : Value)
  | group
  | unary (op : UnaryOp) (token : Token)
  | binary (op : BinaryOp) (token : Token)

def nodes (e : Expr) : List Node :=
  go e []
where
  go : Expr → List Node → List Node
    | literal value, later => .literal value :: later
    | group inner, later => .group :: go inner later
    | unary op token operand, later => .unary op token :: go operand later
    | binary left op token right, later => .binary op token :: go left (go right later)

def beq : Expr → Expr → Bool
  | literal v, literal v' => v == v'
  | group e, group e' => beq e e'
  | unary op t e, unary op' t' e' => op == op' && t == t' && beq e e'
  | binary l op t r, binary l' op' t' r' => op == op' && t == t' && beq r r' && beq l l'
  | _, _ => false

instance : BEq Expr := ⟨beq⟩

end Expr
end Vyraz
