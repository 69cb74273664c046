import Vyraz.Expr.Eval

namespace Vyraz.Expr

def bigStep : Expr → Except EvalError Value
  | literal value => .ok value
  | group inner => inner.bigStep
  | unary op token operand => do
    let v ← operand.bigStep
    op.apply token v
  | binary left op token right => do
    let v ← left.bigStep
    let w ← right.bigStep
    op.apply token v w

theorem chain.go_eq_append (e : Expr) (links : List Link) :
    chain.go e links = (e.chain.1, e.chain.2 ++ links) := by
  induction e generalizing links with
  | literal v => rfl
  | group inner => rfl
  | unary op token operand => rfl
  | binary left op token right lih =>
    have hchain : (binary left op token right).chain =
        (left.chain.1, left.chain.2 ++ [⟨op, token, right⟩]) := lih [⟨op, token, right⟩]
    rw [chain.go, lih, hchain, List.append_assoc, List.singleton_append]

theorem chain_binary (left : Expr) (op : BinaryOp) (token : Token) (right : Expr) :
    (binary left op token right).chain = (left.chain.1, left.chain.2 ++ [⟨op, token, right⟩]) := by
  rw [chain, chain.go, chain.go_eq_append]

def Link.apply (value : Value) (link : Link) : Except EvalError Value := do
  let right ← link.right.eval
  link.op.apply link.token value right

theorem evalLinks_eq_foldlM (value : Value) (links : List Link) :
    evalLinks value links = links.foldlM Link.apply value := by
  induction links generalizing value with
  | nil =>
    rw [evalLinks]
    rfl
  | cons link links ih =>
    rw [evalLinks, List.foldlM_cons, Link.apply]
    cases link.right.eval with
    | error err => rfl
    | ok right =>
      dsimp only [bind, Except.bind]
      cases link.op.apply link.token value right with
      | error err => rfl
      | ok v => exact ih v

theorem eval_eq_foldlM_chain (e : Expr) :
    e.eval = (do
      let v ← e.chain.1.eval
      e.chain.2.foldlM Link.apply v) := by
  cases e with
  | binary left op token right =>
    rw [eval]
    simp only [evalLinks_eq_foldlM]
    cases (binary left op token right).chain.1.eval <;> rfl
  | _ =>
    -- Everything else is a chain without links.
    symm
    apply bind_pure

section

variable (token : Token)

theorem eval_literal (v : Value) : (literal v).eval = .ok v := by
  rw [eval]

theorem eval_group (inner : Expr) : (group inner).eval = inner.eval := by
  rw [eval]

theorem eval_unary (op : UnaryOp) (operand : Expr) :
    (unary op token operand).eval = (do
      let v ← operand.eval
      op.apply token v) := by
  rw [eval]
  cases operand.eval <;> rfl

theorem eval_binary (left : Expr) (op : BinaryOp) (right : Expr) :
    (binary left op token right).eval = (do
      let v ← left.eval
      let w ← right.eval
      op.apply token v w) := by
  -- The links of the whole are those of the left operand and one more, so that the left operand is
  -- evaluated when the links in front of the last one are.
  rw [eval_eq_foldlM_chain]
  rw [chain_binary]
  rw [eval_eq_foldlM_chain left]
  simp only [List.foldlM_append, List.foldlM_cons, List.foldlM_nil, bind_pure, bind_assoc,
    Link.apply]

end

theorem eval_eq_bigStep (e : Expr) : e.eval = e.bigStep := by
  induction e with
  | literal v => rw [eval_literal, bigStep]
  | group inner ih => rw [eval_group, bigStep, ih]
  | unary op token operand ih => rw [eval_unary, bigStep, ih]
  | binary left op token right lih rih => rw [eval_binary, bigStep, lih, rih]

end Vyraz.Expr
