import Vyraz.Expr.Render
import Vyraz.Proofs.Evaluation

namespace Vyraz.Expr

def plainText : Expr → String
  | literal value => value.text
  | group inner => "(group " ++ inner.plainText ++ ")"
  | unary op _ operand => "(" ++ op.symbol.text ++ " " ++ operand.plainText ++ ")"
  | binary left op _ right =>
    "(" ++ op.symbol.text ++ " " ++ left.plainText ++ " " ++ right.plainText ++ ")"

def Link.writeHead (out : String) (link : Link) : String :=
  out ++ "(" ++ link.op.symbol.text ++ " "

def Link.writeRight (out : String) (link : Link) : String :=
  renderOnto (out ++ " ") link.right ++ ")"

theorem renderLinks_eq_foldl (out : String) (links : List Link) :
    renderLinks out links = links.foldl Link.writeRight out := by
  induction links generalizing out with
  | nil => rw [renderLinks, List.foldl_nil]
  | cons link links ih => rw [renderLinks, ih, List.foldl_cons, Link.writeRight]

theorem renderOnto_eq_foldl_chain (out : String) (e : Expr) :
    renderOnto out e =
      e.chain.2.foldl Link.writeRight
        (renderOnto (e.chain.2.reverse.foldl Link.writeHead out) e.chain.1) := by
  cases e with
  | binary left op token right =>
    rw [renderOnto, renderLinks_eq_foldl]
    rfl
  | _ => rfl

section

variable (out : String) (token : Token)

theorem renderOnto_literal (v : Value) : renderOnto out (literal v) = out ++ v.text := by
  rw [renderOnto]

theorem renderOnto_group (inner : Expr) :
    renderOnto out (group inner) = renderOnto (out ++ "(group ") inner ++ ")" := by
  rw [renderOnto]

theorem renderOnto_unary (op : UnaryOp) (operand : Expr) :
    renderOnto out (unary op token operand) =
      renderOnto (out ++ "(" ++ op.symbol.text ++ " ") operand ++ ")" := by
  rw [renderOnto]

theorem renderOnto_binary (left : Expr) (op : BinaryOp) (right : Expr) :
    renderOnto out (binary left op token right) =
      renderOnto (renderOnto (out ++ "(" ++ op.symbol.text ++ " ") left ++ " ") right ++ ")" := by
  -- The last link of the whole is the first of which a head is written, and what is written of the
  -- other links between its head and its right operand is the left operand.
  rw [renderOnto_eq_foldl_chain, chain_binary]
  rw [renderOnto_eq_foldl_chain _ left]
  rw [List.reverse_append, List.foldl_append, List.foldl_append]
  rfl

end

theorem renderOnto_eq_append (out : String) (e : Expr) :
    renderOnto out e = out ++ e.plainText := by
  induction e generalizing out with
  | literal v => rw [renderOnto_literal, plainText]
  | group inner ih =>
    rw [renderOnto_group, ih, plainText]
    simp only [String.append_assoc]
  | unary op token operand ih =>
    rw [renderOnto_unary, ih, plainText]
    simp only [String.append_assoc]
  | binary left op token right lih rih =>
    rw [renderOnto_binary, rih, lih, plainText]
    simp only [String.append_assoc]

theorem render_eq_plainText (e : Expr) : e.render = e.plainText := by
  rw [render, renderOnto_eq_append, String.empty_append]

end Vyraz.Expr
