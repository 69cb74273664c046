namespace Vyraz.Text

structure Location where
  line : Nat
  column : Nat
deriving DecidableEq, Repr

def isLineEnd (c : Char) : Bool :=
  c == '\n' || c == '\r' || c == '\x0b' || c == '\x0c' || c == '\u0085' || c == '\u2028'
    || c == '\u2029'

/-- Whether a line ends after `c`, given the text behind it. The pair `\r\n` ends one line only. -/
def endsLine (c : Char) (rest : List Char) : Bool :=
  isLineEnd c && !(c == '\r' && rest.head? == some '\n')

/--
The place of a byte offset. A line end belongs to the line that it ends, and the column counts the
characters between the start of the line and the offset.
-/
def locate (target : Nat) (cs : List Char) : Location :=
  go cs 0 ⟨1, 1⟩
where
  go : List Char → Nat → Location → Location
    | [], _, here => here
    | c :: cs, offset, here =>
      if target ≤ offset then
        here
      else if endsLine c cs then
        go cs (offset + c.utf8Size) ⟨here.line + 1, 1⟩
      else
        go cs (offset + c.utf8Size) ⟨here.line, here.column + 1⟩

end Vyraz.Text
