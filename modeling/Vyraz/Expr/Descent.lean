import Vyraz.Expr.Parse

/-!
This module contains the reading of expressions by recursive descent, with a function for each level
of the grammar. The functions share a cursor, which shows the next token and hands out an end marker
once all tokens are taken. A call stack takes the place that the frames have in `Expr.ofTokens`.
-/

namespace Vyraz.Descent

structure Cursor where
  tokens : List Token
  marker : Token
  isEof_marker : marker.kind.isEof
  depth : Nat

namespace Cursor

/-- Looks at the last token only: a marker is added behind it unless it is one itself. -/
def ofTokens (tokens : List Token) : Cursor :=
  match tokens.getLast? with
  | some last =>
    if h : last.kind.isEof then ⟨tokens, last, h, 0⟩ else marked last.span.stop last.line
  | none => marked 0 1
where
  marked (offset line : Nat) : Cursor :=
    let marker := ⟨.eof, "", ⟨offset, offset⟩, line⟩
    ⟨tokens ++ [marker], marker, rfl, 0⟩

def peek (c : Cursor) : Token :=
  c.tokens.head?.getD c.marker

def next (c : Cursor) : Cursor :=
  { c with tokens := c.tokens.tail }

def enter (c : Cursor) : Cursor :=
  { c.next with depth := c.depth + 1 }

def leave (c : Cursor) : Cursor :=
  { c with depth := c.depth - 1 }

theorem length_next_lt {c : Cursor} (h : c.peek.kind.isEof = false) :
    c.next.tokens.length < c.tokens.length := by
  unfold peek at h
  cases htokens : c.tokens with
  | nil =>
    rw [htokens] at h
    simp [c.isEof_marker] at h
  | cons token tokens => simp [next, htokens]

end Cursor

/-- An expression and the cursor behind it, in front of which fewer than `n` tokens are left. -/
abbrev Reading (n : Nat) := Except ParseError (Expr × { c : Cursor // c.tokens.length < n })

def operator? (precedence : Nat) (kind : Kind) : Option BinaryOp :=
  (BinaryOp.ofKind? kind).filter fun op => op.precedence == precedence

section

variable {kind : Kind}

theorem isEof_of_operator? {precedence : Nat} {op : BinaryOp}
    (h : operator? precedence kind = some op) : kind.isEof = false := by
  cases kind with
  | eof => contradiction
  | _ => rfl

theorem isEof_of_unaryOp {op : UnaryOp} (h : UnaryOp.ofKind? kind = some op) :
    kind.isEof = false := by
  cases kind with
  | eof => contradiction
  | _ => rfl

theorem isEof_of_literal? {value : Value} (h : Parse.literal? kind = some value) :
    kind.isEof = false := by
  cases kind with
  | eof => contradiction
  | _ => rfl

end

def close {n : Nat} (inner : Expr) (c : Cursor) (h : c.tokens.length < n) : Reading n :=
  match hclose : c.peek.kind with
  | .symbol .rightParen =>
    have := c.length_next_lt (by rw [hclose]; rfl)
    return (.group inner, ⟨c.next.leave, by simp only [Cursor.leave]; omega⟩)
  | _ => throw ⟨.unclosedGrouping, c.peek⟩

variable (limit : Option Nat)

mutual

def operand (precedence : Nat) (c : Cursor) : Reading c.tokens.length :=
  if precedence < 4 then do
    let (first, ⟨rest, _⟩) ← operand (precedence + 1) c
    let (e, ⟨rest, _⟩) ← chain precedence first rest
    return (e, ⟨rest, by omega⟩)
  else
    unary c
termination_by (c.tokens.length, 4 - precedence + 2)

def chain (precedence : Nat) (left : Expr) (c : Cursor) : Reading (c.tokens.length + 1) :=
  match hop : operator? precedence c.peek.kind with
  | some op => do
    have := c.length_next_lt (isEof_of_operator? hop)
    let (right, ⟨rest, _⟩) ← operand (precedence + 1) c.next
    let (e, ⟨rest, _⟩) ← chain precedence (.binary left op c.peek right) rest
    return (e, ⟨rest, by omega⟩)
  | none => return (left, ⟨c, by omega⟩)
termination_by (c.tokens.length, 0)

def unary (c : Cursor) : Reading c.tokens.length :=
  match hop : UnaryOp.ofKind? c.peek.kind with
  | some op =>
    have : c.enter.tokens.length < c.tokens.length := c.length_next_lt (isEof_of_unaryOp hop)
    if limit.any fun n => n < c.enter.depth then
      throw ⟨.tooDeep, c.peek⟩
    else do
      let (e, ⟨rest, _⟩) ← unary c.enter
      return (.unary op c.peek e, ⟨rest.leave, by simp only [Cursor.leave]; omega⟩)
  | none => primary c
termination_by (c.tokens.length, 1)

def primary (c : Cursor) : Reading c.tokens.length :=
  match hvalue : Parse.literal? c.peek.kind with
  | some value => return (.literal value, ⟨c.next, c.length_next_lt (isEof_of_literal? hvalue)⟩)
  | none =>
    match hopen : c.peek.kind with
    | .symbol .leftParen =>
      have : c.enter.tokens.length < c.tokens.length := c.length_next_lt (by rw [hopen]; rfl)
      if limit.any fun n => n < c.enter.depth then
        throw ⟨.tooDeep, c.peek⟩
      else do
        let (inner, ⟨rest, _⟩) ← operand 0 c.enter
        close inner rest (by omega)
    | _ => throw ⟨.expectExpression, c.peek⟩
termination_by (c.tokens.length, 0)

end

def within (tokens : List Token) : Except ParseError Expr := do
  let (e, ⟨rest, _⟩) ← operand limit 0 (.ofTokens tokens)
  if rest.peek.kind.isEof then
    return e
  else
    throw ⟨.trailingInput, rest.peek⟩

def read (tokens : List Token) : Except ParseError Expr :=
  within (some Parse.maxDepth) tokens

end Vyraz.Descent
