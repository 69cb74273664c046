import Vyraz.Text.Offset
import Vyraz.Token.Munch

/-!
This module contains the reading of source text into tokens. A source is first cut into pieces that
join up to the source again; each piece is blank, a token or an error. The tokens and the errors of
a source are those of its pieces.
-/

namespace Vyraz

namespace Scan

structure Position where
  offset : Nat
  line : Nat
deriving DecidableEq, Repr

namespace Position

def start : Position := ⟨0, 1⟩

def advance (p : Position) (text : List Char) : Position :=
  ⟨p.offset + Text.size text, p.line + text.count '\n'⟩

@[simp]
theorem advance_nil (p : Position) : p.advance [] = p := rfl

@[simp]
theorem advance_append (p : Position) (as bs : List Char) :
    p.advance (as ++ bs) = (p.advance as).advance bs := by
  simp [advance, Nat.add_assoc]

end Position

structure Piece where
  role : Role
  text : List Char
  start : Position

namespace Piece

def span (p : Piece) : Span :=
  ⟨p.start.offset, p.start.offset + Text.size p.text⟩

def token? (p : Piece) : Option Token :=
  match p.role with
  | .token kind => some ⟨kind, String.ofList p.text, p.span, p.start.line⟩
  | _ => none

def error? (p : Piece) : Option LexError :=
  match p.role with
  | .error cause => some ⟨cause, p.span, p.start.line⟩
  | _ => none

end Piece

def pieces (start : Position) (cs : List Char) : List Piece :=
  go start cs []
where
  go (here : Position) (cs : List Char) (done : List Piece) : List Piece :=
    match cs with
    | [] => done.reverse
    | c :: cs =>
      let m := munch c cs
      go (here.advance m.text) m.rest (⟨m.role, m.text, here⟩ :: done)
  termination_by cs.length
  decreasing_by exact munch_rest_length_lt c cs

theorem pieces.go_eq_append (here : Position) (cs : List Char) (done : List Piece) :
    pieces.go here cs done = done.reverse ++ pieces here cs := by
  rw [pieces]
  match cs with
  | [] =>
    rw [go, go]
    simp
  | c :: cs =>
    rw [go, go, go_eq_append, go_eq_append _ _ [_]]
    simp
termination_by cs.length
decreasing_by
  all_goals exact munch_rest_length_lt _ _

@[simp]
theorem pieces_nil (start : Position) : pieces start [] = [] := by
  rw [pieces, pieces.go]
  rfl

theorem pieces_cons (start : Position) (c : Char) (cs : List Char) :
    pieces start (c :: cs) =
      ⟨(munch c cs).role, (munch c cs).text, start⟩
        :: pieces (start.advance (munch c cs).text) (munch c cs).rest := by
  rw [pieces, pieces.go, pieces.go_eq_append]
  rfl

theorem pieces_flatMap_text (start : Position) (cs : List Char) :
    (pieces start cs).flatMap Piece.text = cs := by
  match cs with
  | [] => simp
  | c :: cs =>
    rw [pieces_cons, List.flatMap_cons, pieces_flatMap_text, munch_text_append_rest]
termination_by cs.length
decreasing_by exact munch_rest_length_lt _ _

end Scan

structure Scanned where
  tokens : List Token
  errors : List LexError

def Token.endOf (source : String) : Token :=
  let stop := Scan.Position.start.advance source.toList
  ⟨.eof, "", ⟨stop.offset, stop.offset⟩, stop.line⟩

def scan (source : String) : Scanned :=
  let pieces := Scan.pieces Scan.Position.start source.toList
  ⟨pieces.filterMap Scan.Piece.token? ++ [Token.endOf source], pieces.filterMap Scan.Piece.error?⟩

def tokenize (source : String) : Except (List LexError) (List Token) :=
  let scanned := scan source
  if scanned.errors.isEmpty then .ok scanned.tokens else .error scanned.errors

end Vyraz
