import Vyraz.Token.Scan

/-!
This module contains the colouring of a line at the prompt. The tokens and the errors that have a
colour are put in the order of the line, and the line is cut at their spans.
-/

namespace Vyraz.Prompt

inductive Color where
  | red
  | green
  | yellow
  | blue
deriving DecidableEq, Repr

namespace Color

def on : Color → List Char
  | red => ['\x1b', '[', '3', '1', 'm']
  | green => ['\x1b', '[', '3', '2', 'm']
  | yellow => ['\x1b', '[', '3', '3', 'm']
  | blue => ['\x1b', '[', '3', '4', 'm']

def off : List Char :=
  ['\x1b', '[', '0', 'm']

def around (color : Color) (text : List Char) : List Char :=
  color.on ++ text ++ off

def ofKind? : Kind → Option Color
  | .string _ => some green
  | .number _ => some yellow
  | .keyword _ => some blue
  | _ => none

def ofRole? : Scan.Role → Option Color
  | .blank => none
  | .token kind => ofKind? kind
  | .error _ => some red

end Color

structure Patch where
  span : Span
  color : Color
deriving DecidableEq, Repr

namespace Patch

def ofToken? (t : Token) : Option Patch :=
  (Color.ofKind? t.kind).map fun color => ⟨t.span, color⟩

def ofError (e : LexError) : Patch :=
  ⟨e.span, .red⟩

end Patch

def patches (s : Scanned) : List Patch :=
  (s.tokens.filterMap Patch.ofToken? ++ s.errors.map Patch.ofError).mergeSort
    fun p q => p.span.start ≤ q.span.start

def repaint? (line : List Char) (cursor : Nat) : List Patch → Option (List Char)
  | [] => Text.slice? cursor (Text.size line) line
  | patch :: patches => do
    let before ← Text.slice? cursor patch.span.start line
    let text ← Text.slice? patch.span.start patch.span.stop line
    let behind ← repaint? line patch.span.stop patches
    return before ++ patch.color.around text ++ behind

def highlight? (line : String) : Option String :=
  (repaint? line.toList 0 (patches (scan line))).map String.ofList

def paint (p : Scan.Piece) : List Char :=
  match Color.ofRole? p.role with
  | some color => color.around p.text
  | none => p.text

def highlight (line : String) : String :=
  String.ofList ((Scan.pieces .start line.toList).flatMap paint)

end Vyraz.Prompt
