import Vyraz.Expr.Basic

namespace Vyraz.Expr

mutual

def renderOnto (out : String) (e : Expr) : String :=
  match e with
  | literal value => out ++ value.text
  | group inner => renderOnto (out ++ "(group ") inner ++ ")"
  | unary op _ operand => renderOnto (out ++ "(" ++ op.symbol.text ++ " ") operand ++ ")"
  | binary left op token right =>
    let c := (binary left op token right).chain
    let heads := c.2.reverse.foldl (fun out link => out ++ "(" ++ link.op.symbol.text ++ " ") out
    renderLinks (renderOnto heads c.1) c.2
termination_by e.size
decreasing_by
  . simp only [size]; omega
  . simp only [size]; omega
  . exact chain_first_size_lt left op token right
  . exact chain_linksSize_lt _

def renderLinks (out : String) (links : List Link) : String :=
  match links with
  | [] => out
  | link :: links => renderLinks (renderOnto (out ++ " ") link.right ++ ")") links
termination_by linksSize links
decreasing_by
  all_goals
    simp only [linksSize]
    omega

end

def render (e : Expr) : String :=
  renderOnto "" e

end Vyraz.Expr
