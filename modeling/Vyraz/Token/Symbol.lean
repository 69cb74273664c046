namespace Vyraz

inductive Symbol where
  | leftParen
  | rightParen
  | leftBrace
  | rightBrace
  | comma
  | dot
  | minus
  | plus
  | semicolon
  | slash
  | star
  | bang
  | bangEqual
  | equal
  | equalEqual
  | greater
  | greaterEqual
  | less
  | lessEqual
deriving DecidableEq, Repr

namespace Symbol

def all : List Symbol :=
  [leftParen, rightParen, leftBrace, rightBrace, comma, dot, minus, plus, semicolon, slash, star,
    bang, bangEqual, equal, equalEqual, greater, greaterEqual, less, lessEqual]

theorem mem_all (s : Symbol) : s ∈ all := by
  cases s <;> decide

def chars : Symbol → List Char
  | leftParen => ['(']
  | rightParen => [')']
  | leftBrace => ['{']
  | rightBrace => ['}']
  | comma => [',']
  | dot => ['.']
  | minus => ['-']
  | plus => ['+']
  | semicolon => [';']
  | slash => ['/']
  | star => ['*']
  | bang => ['!']
  | bangEqual => ['!', '=']
  | equal => ['=']
  | equalEqual => ['=', '=']
  | greater => ['>']
  | greaterEqual => ['>', '=']
  | less => ['<']
  | lessEqual => ['<', '=']

def text (s : Symbol) : String :=
  String.ofList s.chars

def name : Symbol → String
  | leftParen => "LEFT_PAREN"
  | rightParen => "RIGHT_PAREN"
  | leftBrace => "LEFT_BRACE"
  | rightBrace => "RIGHT_BRACE"
  | comma => "COMMA"
  | dot => "DOT"
  | minus => "MINUS"
  | plus => "PLUS"
  | semicolon => "SEMICOLON"
  | slash => "SLASH"
  | star => "STAR"
  | bang => "BANG"
  | bangEqual => "BANG_EQUAL"
  | equal => "EQUAL"
  | equalEqual => "EQUAL_EQUAL"
  | greater => "GREATER"
  | greaterEqual => "GREATER_EQUAL"
  | less => "LESS"
  | lessEqual => "LESS_EQUAL"

def single? : Char → Option Symbol
  | '(' => some leftParen
  | ')' => some rightParen
  | '{' => some leftBrace
  | '}' => some rightBrace
  | ',' => some comma
  | '.' => some dot
  | '-' => some minus
  | '+' => some plus
  | ';' => some semicolon
  | '/' => some slash
  | '*' => some star
  | '!' => some bang
  | '=' => some equal
  | '>' => some greater
  | '<' => some less
  | _ => none

def withEqual? : Char → Option Symbol
  | '!' => some bangEqual
  | '=' => some equalEqual
  | '>' => some greaterEqual
  | '<' => some lessEqual
  | _ => none

def read? (c : Char) (cs : List Char) : Option (Symbol × List Char) :=
  match cs, withEqual? c with
  | '=' :: rest, some s => some (s, rest)
  | _, _ => (single? c).map fun s => (s, cs)

theorem chars_ne_nil (s : Symbol) : s.chars ≠ [] := by
  cases s <;> simp [chars]

theorem chars_of_single? {c : Char} {s : Symbol} (h : single? c = some s) : s.chars = [c] := by
  unfold single? at h
  split at h <;> cases h <;> rfl

theorem chars_of_withEqual? {c : Char} {s : Symbol} (h : withEqual? c = some s) :
    s.chars = [c, '='] := by
  unfold withEqual? at h
  split at h <;> cases h <;> rfl

theorem chars_append_of_read? {c : Char} {cs rest : List Char} {s : Symbol}
    (h : read? c cs = some (s, rest)) : s.chars ++ rest = c :: cs := by
  unfold read? at h
  split at h
  case h_1 hs =>
    cases h
    rw [chars_of_withEqual? hs]
    rfl
  case h_2 =>
    simp only [Option.map_eq_some_iff, Prod.mk.injEq] at h
    obtain ⟨_, hs, rfl, rfl⟩ := h
    rw [chars_of_single? hs]
    rfl

end Symbol
end Vyraz
